import ViewerCircuit.Proofs.HeldPackets

/-!
# Moves and the packets in flight

What one move of a run does to the packets in flight. A processed packet settles them, a packet that
goes on the wire may join them, and a tick of the timer gives out copies of them; a move does one of
these at most, and tells what it did. Whatever else it does is aside.
-/
namespace ViewerCircuit

open Relation (ReflTransGen)

/-- The caller hands over packets without acks. -/
def Event.SendsBare : Event → Prop
  | send p _ => p.acks = []
  | _ => True

def HandlerAction.SendsBare : HandlerAction → Prop
  | send p _ => p.acks = []
  | _ => True

def Move.SendsBare : Move → Prop
  | step conduct e => conduct.KeepsTo HandlerAction.SendsBare ∧ e.SendsBare
  | _ => True

def Outgoing.Written (o : Outgoing) : Prop :=
  ∃ p : Packet, p.acks = [] ∧ p.encode = .ok o.bytes ∧ o = .ofPacket p o.bytes o.category

def Retransmission.outgoing (r : Retransmission) : Outgoing where
  bytes := r.bytes
  kind := r.kind
  sequence := r.sequence
  delivery := .resend
  category := .resend

/-- The effect does not concern the packets in flight. If `bare` holds, packets are written without
acks. -/
def Effect.Aside (bare : Prop) : Effect → Prop
  | transmitted _ _ _ _ => False
  | processed _ _ => False
  | requeued _ => False
  | queued o => bare → o.Written
  | _ => True

namespace Traffic

variable {bare : Prop} {t u v : Traffic}

structure Spares (bare : Prop) (t u : Traffic) : Prop where
  inFlight : u.ackState.inFlight = t.ackState.inFlight
  told : ∃ l, u.history = t.history ++ l ∧ ∀ e ∈ l, e.Aside bare

theorem Spares.refl (t : Traffic) : Spares bare t t := ⟨rfl, [], by simp⟩

theorem Spares.trans (h : Spares bare t u) (k : Spares bare u v) : Spares bare t v := by
  obtain ⟨l, hl, hal⟩ := h.told
  obtain ⟨m, hm, ham⟩ := k.told
  refine ⟨k.inFlight.trans h.inFlight, l ++ m, by rw [hm, hl, List.append_assoc], ?_⟩
  intro e he
  rcases List.mem_append.1 he with he | he
  · exact hal e he
  · exact ham e he

theorem Spares.of_steps (h : ReflTransGen (Spares bare) t u) : Spares bare t u := by
  induction h with
  | refl => exact .refl t
  | tail _ step ih => exact ih.trans step

theorem Spares.quiet (ha : u.ackState.inFlight = t.ackState.inFlight)
    (hh : u.history = t.history) : Spares bare t u := ⟨ha, [], by simp [hh]⟩

theorem Spares.log {e : Effect} (ha : u.ackState.inFlight = t.ackState.inFlight)
    (hh : u.history = t.history ++ [e]) (he : e.Aside bare) : Spares bare t u :=
  ⟨ha, [e], hh, by simpa using he⟩

theorem Call.spares (h : Call (fun p => bare → p.acks = []) t u) :
    Spares bare t u ∧ u.ackState = t.ackState := by
  cases h with
  | @note e he =>
    refine ⟨.log rfl rfl ?_, rfl⟩
    cases e <;> first | exact trivial | cases he
  | @queue p _ numbered bytes category hp hg hn he =>
    refine ⟨.log rfl rfl fun hb => ⟨numbered, ?_, he, rfl⟩, rfl⟩
    rw [← hn]
    exact hg.elim (·.2) fun given => given hb
  | turnAway => exact ⟨.log rfl rfl trivial, rfl⟩
  | close => exact ⟨.log rfl rfl trivial, rfl⟩

theorem Call.spares_steps (h : ReflTransGen (Call (fun p => bare → p.acks = [])) t u) :
    Spares bare t u ∧ u.ackState = t.ackState := by
  induction h with
  | refl => exact ⟨.refl t, rfl⟩
  | tail _ call ih => exact ⟨ih.1.trans call.spares.1, call.spares.2.trans ih.2⟩

/-- What one move does to the packets in flight, and the effects that tell it. -/
inductive Turn (bare : Prop) (t u : Traffic) : List Effect → Prop
  | rest {l} (hf : u.ackState.inFlight = t.ackState.inFlight) (hl : ∀ e ∈ l, e.Aside bare) :
    Turn bare t u l
  | settle {p now l} (hf : u.ackState.inFlight = (t.ackState.acked p.acked).inFlight)
      (hl : ∀ e ∈ l, e.Aside bare) : Turn bare t u (.processed p now :: l)
  | send {o now room destination linkUp l} (ho : o ∈ t.held)
      (ha : u.ackState = (t.ackState.depart now room o).2) (hl : ∀ e ∈ l, e.Aside bare) :
    Turn bare t u (.transmitted destination (t.ackState.depart now room o).1 o linkUp :: l)
  | resend {now l} (hf : u.ackState.inFlight = (t.ackState.inFlight.retransmit now).2)
      (hl : ∀ e ∈ l, e.Aside bare) :
    Turn bare t u (l ++ (t.ackState.inFlight.retransmit now).1.map fun r => .requeued r.outgoing)

namespace Turn

variable {l : List Effect} {o : Outgoing} {destination : Address} {datagram : Bytes} {linkUp : Bool}

theorem written (h : Turn True t u l) (ho : .queued o ∈ l) : o.Written := by
  cases h with
  | rest _ hl => exact hl _ ho trivial
  | settle _ hl => exact hl _ ((List.mem_cons.1 ho).resolve_left (by simp)) trivial
  | send _ _ hl => exact hl _ ((List.mem_cons.1 ho).resolve_left (by simp)) trivial
  | resend _ hl => exact hl _ ((List.mem_append.1 ho).resolve_right (by simp)) trivial

theorem copied (h : Turn bare t u l) (ho : .requeued o ∈ l) :
    ∃ now, ∃ r ∈ (t.ackState.inFlight.retransmit now).1, r.outgoing = o := by
  cases h with
  | rest _ hl => exact (hl _ ho).elim
  | settle _ hl => exact (hl _ ((List.mem_cons.1 ho).resolve_left (by simp))).elim
  | send _ _ hl => exact (hl _ ((List.mem_cons.1 ho).resolve_left (by simp))).elim
  | @resend now _ _ hl =>
    obtain ⟨r, hr, hro⟩ := List.mem_map.1 ((List.mem_append.1 ho).resolve_left fun hm => hl _ hm)
    exact ⟨now, r, hr, Effect.requeued.inj hro⟩

/-- What goes on the wire was held, and departs as the ack state makes it. -/
theorem sent (h : Turn bare t u l) (ho : .transmitted destination datagram o linkUp ∈ l) :
    o ∈ t.held ∧ ∃ now room, datagram = (t.ackState.depart now room o).1 ∧
      u.ackState = (t.ackState.depart now room o).2 := by
  cases h with
  | rest _ hl => exact (hl _ ho).elim
  | settle _ hl => exact (hl _ ((List.mem_cons.1 ho).resolve_left (by simp))).elim
  | resend _ hl => exact (hl _ ((List.mem_append.1 ho).resolve_right (by simp))).elim
  | @send p now room _ _ _ hp ha hl =>
    obtain ⟨-, rfl, rfl, -⟩ :=
      Effect.transmitted.inj ((List.mem_cons.1 ho).resolve_right fun hm => hl _ hm)
    exact ⟨hp, now, room, rfl, ha⟩

/-- A record was there before, possibly without the resent flag, or is the one of a packet that went
on the wire. -/
theorem kept {e : UInt32 × KeptPacket} (h : Turn bare t u l) (he : e ∈ u.ackState.inFlight.kept) :
    (∃ d ∈ t.ackState.inFlight.kept, d.1 = e.1 ∧
      (e.2.bytes = d.2.bytes ∨ e.2.bytes = Datagram.asResent d.2.bytes)) ∨
    ∃ q destination datagram linkUp, .transmitted destination datagram q linkUp ∈ l ∧ q ∈ t.held ∧
      q.delivery = .reliable ∧ q.sequence = e.1 ∧ t.ackState.inFlight.contains e.1 = false ∧
      e.2.bytes = q.bytes := by
  cases h with
  | rest hf _ => exact .inl ⟨e, hf ▸ he, rfl, .inl rfl⟩
  | settle hf _ => exact .inl ⟨e, (AckState.kept_of_acked (hf ▸ he)).1, rfl, .inl rfl⟩
  | resend hf _ => exact .inl (InFlight.kept_of_retransmit (hf ▸ he))
  | @send q now room destination linkUp _ hq ha _ =>
    have hdepart : e ∈ (t.ackState.depart now room q).2.inFlight.kept :=
      (congrArg (fun a : AckState => a.inFlight.kept) ha) ▸ he
    rcases AckState.kept_of_depart hdepart with he | ⟨hd, hnew, rfl⟩
    · exact .inl ⟨e, he, rfl, .inl rfl⟩
    · exact .inr ⟨q, destination, _, linkUp, List.mem_cons_self, hq, hd, rfl, hnew, rfl⟩

end Turn

end Traffic

theorem HandlerAction.gives_bare {bare : Prop} {a : HandlerAction} (h : bare → a.SendsBare) :
    a.Gives (fun p => bare → p.acks = []) True := by
  cases a with
  | send p category => exact .inr h
  | tell notice =>
    cases notice with
    | acks ids => exact fun _ => Site.packet_acks _
    | _ => trivial
  | setBlocked blocked => cases blocked <;> trivial
  | _ => trivial

theorem Conduct.gives_bare {bare : Prop} {conduct : Conduct}
    (h : bare → conduct.KeepsTo HandlerAction.SendsBare) :
    conduct.Gives (fun p => bare → p.acks = []) True :=
  fun handler occasion a ha => HandlerAction.gives_bare fun hb => h hb handler occasion a ha

namespace Site

open Traffic (Call Spares Turn)

variable {bare : Prop} {s u : Site}

def Turns (bare : Prop) (s u : Site) : Prop :=
  ∃ l, u.history = s.history ++ l ∧ Turn bare s.traffic u.traffic l

theorem Turns.of_spares (h : Spares bare s.traffic u.traffic) : Turns bare s u := by
  obtain ⟨hf, l, hh, hl⟩ := h
  exact ⟨l, hh, .rest hf hl⟩

theorem Leads.spares (h : Leads (Call fun p => bare → p.acks = []) s u) : Leads (Spares bare) s u :=
  h.mono fun _ _ call => call.spares.1

theorem Does.spares (h : Does (fun p => bare → p.acks = []) True True s u) :
    Leads (Spares bare) s u :=
  h.leads.spares

theorem Leads.turns (h : Leads (Spares bare) s u) (hs : s.pool.Sound) : Turns bare s u :=
  .of_spares (Spares.of_steps (h hs).2)

theorem informAcks_spares (ids : List UInt32) (s : Site) :
    Leads (Spares bare) s (s.takeAcks.2.inform (.acks ids)) := by
  have taken : Leads (Spares bare) s s.takeAcks.2 := .of_step rfl (.quiet rfl rfl)
  refine taken.trans (Does.spares (tell_does ?_ _))
  intro ids _ _
  exact packet_acks _

theorem sendAckChunks_spares (chunks : Nat) (s : Site) :
    Leads (Spares bare) s (sendAckChunks chunks s) := by
  induction chunks generalizing s with
  | zero => exact .refl s
  | succ chunks ih =>
    unfold sendAckChunks
    dsimp only
    split
    · exact .refl s
    · exact (informAcks_spares _ s).trans (ih _)

theorem requeueAll_traffic (due : List Retransmission) (s : Site) :
    (due.foldl (fun s r => s.requeue r) s).history =
        s.history ++ due.map (fun r => .requeued r.outgoing) ∧
      (due.foldl (fun s r => s.requeue r) s).circuit.ackState = s.circuit.ackState := by
  induction due generalizing s with
  | nil => simp
  | cons r due ih =>
    obtain ⟨hh, ha⟩ := ih (s.requeue r)
    rw [List.foldl_cons, hh, ha]
    refine ⟨?_, rfl⟩
    have first : (s.requeue r).history = s.history ++ [.requeued r.outgoing] := by
      simp [requeue, history, emit, update, Retransmission.outgoing]
    rw [first, List.map_cons, List.append_assoc]
    rfl

theorem ackTick_turns (now : Nat) (hs : s.pool.Sound) : Turns bare s (s.ackTick now) := by
  obtain ⟨hf, l, hh, hl⟩ : Spares bare s.traffic s.sendOwedAcks.traffic :=
    Spares.of_steps (sendAckChunks_spares _ s hs).2
  have hsame : s.sendOwedAcks.circuit.ackState.inFlight = s.circuit.ackState.inFlight := hf
  obtain ⟨requeued, kept⟩ := requeueAll_traffic
    (s.sendOwedAcks.circuit.ackState.inFlight.retransmit now).1
    (s.sendOwedAcks.update fun c =>
      { c with ackState.inFlight := (c.ackState.inFlight.retransmit now).2 })
  refine ⟨l ++ (s.circuit.ackState.inFlight.retransmit now).1.map fun r => .requeued r.outgoing,
    ?_, .resend ?_ hl⟩
  · have hsent : s.sendOwedAcks.history = s.history ++ l := hh
    rw [← hsame, ← List.append_assoc, ← hsent]
    exact requeued
  · refine (congrArg AckState.inFlight kept).trans ?_
    exact congrArg (fun f => (f.retransmit now).2) hsame

theorem process_turns {p : Packet} {queue : Queue Nat Float} {conduct : Conduct}
    (hg : conduct.Gives (fun p => bare → p.acks = []) True) (now : Nat) (hs : s.pool.Sound) :
    Turns bare s ((s.update fun c => { c with queue }).process conduct now p) := by
  obtain ⟨u, hp, ht, settled⟩ :=
    settle_decides hg now p ((s.update fun c => { c with queue }).ackStep now p)
  have hpool : u.pool = s.pool := by
    rw [hp]
    unfold ackStep acknowledge
    dsimp only
    split <;> rfl
  obtain ⟨⟨-, l, hl, haside⟩, hstate⟩ := Call.spares_steps (settled (hpool ▸ hs)).2
  rw [traffic_ackStep] at ht
  rw [ht] at hl hstate
  rw [Traffic.history_process] at hl
  refine ⟨.processed p now :: (((if (s.circuit.ackState.arrive p).1 then [.owes p.sequence] else [])
    ++ [if (s.circuit.duplicates.seen p.sequence p.kind now).1 then .dropped p now
      else .dispatched p now]) ++ l), ?_, .settle ?_ ?_⟩
  · refine Eq.trans hl ?_
    simp only [List.append_assoc, List.cons_append]
    rfl
  · refine (congrArg AckState.inFlight hstate).trans ?_
    exact AckState.arrive_inFlight p
  · intro e he
    rcases List.mem_append.1 he with he | he
    · have : e = .owes p.sequence ∨ e = .dropped p now ∨ e = .dispatched p now := by
        rcases List.mem_append.1 he with he | he
        · split at he
          · exact .inl (List.mem_singleton.1 he)
          · cases he
        · obtain rfl := List.mem_singleton.1 he
          split
          · exact .inr (.inl rfl)
          · exact .inr (.inr rfl)
      rcases this with rfl | rfl | rfl <;> trivial
    · exact haside e he

theorem transmit_turns {v : Site} {o : Outgoing} {now : Nat} {linkUp : Bool}
    (ho : o ∈ s.traffic.held) (hv : v.circuit.ackState = s.circuit.ackState)
    (hh : v.history = s.history) (hs : v.pool.Sound)
    (called : Leads (Call fun p => bare → p.acks = []) (v.transmit now linkUp o).2 u) :
    Turns bare s u := by
  obtain ⟨room, destination, ht⟩ := traffic_transmit now linkUp o v
  have hpool : (v.transmit now linkUp o).2.pool.Sound := transmit_pool linkUp o v ▸ hs
  obtain ⟨⟨-, l, hl, haside⟩, hstate⟩ := Call.spares_steps (called hpool).2
  rw [ht] at hl hstate
  have hdepart : v.traffic.ackState = s.traffic.ackState := hv
  refine ⟨.transmitted destination (s.traffic.ackState.depart now room o).1 o linkUp :: l, ?_,
    .send ho ?_ haside⟩
  · rw [← hh, ← hdepart]
    exact hl.trans (List.append_assoc _ _ _)
  · rw [← hdepart]
    exact hstate

theorem serve_turns {i : AttendantId} {conduct : Conduct}
    (hg : conduct.Gives (fun p => bare → p.acks = []) True) (now : Nat) (linkUp : Bool)
    (hs : s.pool.Sound) : Turns bare s (s.serve conduct i now linkUp) := by
  rcases serve_cases conduct i now linkUp s with ⟨-, hserve⟩ | ⟨-, ⟨p, rest, -, hserve⟩ |
    ⟨queue, -, -, ⟨c, o, rest, sent, hget, -, rfl, hserve⟩ | ⟨-, hserve⟩⟩⟩
  · rw [hserve]
    exact .of_spares (.quiet rfl rfl)
  · rw [hserve]
    exact process_turns hg now hs
  · have hfirst : o ∈ s.traffic.outgoing.get c := by
      rw [show s.traffic.outgoing.get c = o :: rest from hget]
      exact List.mem_cons_self
    have ho : o ∈ s.traffic.held := Traffic.mem_held_of_get hfirst
    rw [hserve]
    split
    · exact transmit_turns (v := s.update fun c => { c with queue }) ho rfl rfl hs (.refl _)
    · exact transmit_turns (v := s.update fun c => { c with queue }) ho rfl rfl hs
        (close_does _ _).leads
  · rw [hserve]
    exact .of_spares (.quiet rfl rfl)

theorem beginFlush_spares (i : AttendantId) (joined : Bool) (hs : s.pool.Sound) :
    Spares bare s.traffic (s.beginFlush i joined).traffic := by
  have sent : Spares bare s.traffic s.sendOwedAcks.traffic :=
    Spares.of_steps (sendAckChunks_spares _ s hs).2
  have flushed := traffic_withRemaining i joined
    (if s.sendOwedAcks.circuit.closeReason = some .transportFault then []
      else s.sendOwedAcks.circuit.queue.flush.1)
    (s.sendOwedAcks.update fun c => { c with queue := s.sendOwedAcks.circuit.queue.flush.2 })
  refine sent.trans (Eq.mp (congrArg _ flushed.symm) ?_)
  exact .quiet rfl rfl

theorem flushNext_turns {i : AttendantId} {joined : Bool} {o : Outgoing} {rest : List Outgoing}
    (now : Nat) (linkUp : Bool) (hs : s.pool.Sound)
    (hstage : s.circuit.stage? i = some (.flushing joined (o :: rest))) :
    Turns bare s (s.flushNext i now linkUp joined o rest) := by
  have ho : o ∈ s.traffic.held :=
    Traffic.mem_held_of_stage (t := s.traffic) hstage List.mem_cons_self
  obtain ⟨l, hh, ht⟩ := transmit_turns (u := (s.transmit now linkUp o).2) ho rfl rfl hs (.refl _)
  refine ⟨l, hh, ?_⟩
  unfold flushNext
  rw [traffic_withRemaining]
  -- The rest that the attendant keeps is no part of the ack state, and turns are about that only.
  cases ht with
  | rest hf hl => exact .rest hf hl
  | settle hf hl => exact .settle hf hl
  | send ho ha hl => exact .send ho ha hl
  | resend hf hl => exact .resend hf hl

theorem next_turns {e : Event} {conduct : Conduct} (hb : bare → (Move.step conduct e).SendsBare)
    (hs : s.pool.Sound) : Turns bare s (s.next conduct e).2 := by
  have quiet : ∀ {u : Site}, u.circuit.ackState.inFlight = s.circuit.ackState.inFlight →
      u.history = s.history → Turns bare s u := fun hf hh => .of_spares (.quiet hf hh)
  have gives : e.Gives fun p => bare → p.acks = [] := by
    constructor
    · rintro p category rfl
      exact .inr fun h => (hb h).2
    · exact fun ids _ _ => packet_acks _
  have performed : Performed (fun p => bare → p.acks = []) True True conduct s e _ :=
    next_performed (Conduct.gives_bare fun h => (hb h).1) gives s
  generalize (s.next conduct e).2 = u at performed ⊢
  cases performed with
  | @verdict i verdict =>
    cases verdict with
    | authorized login =>
      unfold onVerdict
      dsimp only
      split
      · exact quiet rfl rfl
      · exact .of_spares (.log rfl (history_emit _ _) trivial)
    | _ => exact quiet rfl rfl
  | serve _ hg => exact serve_turns hg _ _ hs
  | finish => exact .of_spares (beginFlush_spares _ _ hs)
  | flush hstage => exact flushNext_turns _ _ hs hstage
  | @leave i joined =>
    cases joined with
    | true => exact .of_spares (.log rfl (history_emit .sceneRemove _) trivial)
    | false => exact quiet rfl rfl
  | ackTick => exact ackTick_turns _ hs
  | silent does =>
    have counted : Leads (Spares bare) s
        (s.update fun c => { c with probeFailures := c.probeFailures + 1 }) := .of_eq rfl rfl
    exact (counted.trans does.spares).turns hs
  | turnAway => exact (recycle_leads _ s).spares.turns hs
  | accept => exact .of_spares (.log rfl (history_emit (.accepted _) _) trivial)
  | call does => exact does.spares.turns hs
  | idle | start | joined | heard | stopAckTimer | stopProbeTimer | settings => exact quiet rfl rfl

/-- Every move of a run takes a turn. -/
theorem move_turns {m : Move} (hb : bare → m.SendsBare) (hs : s.pool.Sound) :
    (s.move m).history = s.history ++ s.told m ∧
      Turn bare s.traffic (s.move m).traffic (s.told m) := by
  have turned : Turns bare s (s.move m) := by
    cases m with
    | step conduct e => exact next_turns hb hs
    | _ => exact .of_spares (.quiet rfl rfl)
  obtain ⟨l, hh, ht⟩ := turned
  rw [told_of_moved rfl hh]
  exact ⟨hh, ht⟩

end Site
end ViewerCircuit
