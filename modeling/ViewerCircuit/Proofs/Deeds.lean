import Mathlib.Logic.Relation
import ViewerCircuit.Proofs.Duplicates
import ViewerCircuit.Proofs.PooledPackets
import ViewerCircuit.Proofs.Run
import ViewerCircuit.Proofs.Traffic

/-!
# Deeds

Whatever a call or a handler does to a circuit is a sequence of a few deeds: a packet is sent, the
circuit is closed or blocked, its budgets or settings change, or something is noted. All that is
assumed is that pooled packets are fresh.
-/
namespace ViewerCircuit

open Relation (ReflTransGen)

def Effect.isRemark : Effect → Bool
  | concluded _ _ => true
  | handlerCalled _ _ _ => true
  | eventPublished _ _ => true
  | _ => false

def Effect.isDeed : Effect → Bool
  | queued _ => true
  | unwritable _ _ => true
  | turnedAway _ => true
  | closeCalled _ => true
  | recycled _ => true
  | e => e.isRemark

def Effect.isConclusion : Effect → Bool
  | concluded _ _ => true
  | _ => false

theorem Effect.isDeed_of_isRemark {e : Effect} (he : e.isRemark = true) : e.isDeed = true := by
  cases e <;> first | exact he | rfl

/-- Of the packets that a handler hands over, those that are not plain are `given`, and so are those
that it tells acks in. It blocks the circuit only if the viewer `pauses`. -/
def HandlerAction.Gives (given : Packet → Prop) (pauses : Prop) : HandlerAction → Prop
  | send p _ => p.IsPlain ∨ given p
  | tell (.acks ids) => given (Outbound.acks ids).packet
  | setBlocked true => pauses
  | _ => True

def Conduct.Gives (conduct : Conduct) (given : Packet → Prop) (pauses : Prop) : Prop :=
  conduct.KeepsTo (HandlerAction.Gives given pauses)

theorem Conduct.gives_any (conduct : Conduct) : conduct.Gives (fun _ => True) True := by
  intro handler occasion action _
  unfold HandlerAction.Gives
  split <;> simp

/-- The circuit `c`, with all that calls and handlers may touch as it is in `d`. -/
def Circuit.touchedAs (d c : Circuit) : Circuit :=
  { c with
    phase := d.phase
    closeReason := d.closeReason
    sequences := d.sequences
    queue := d.queue
    blocked := d.blocked
    nextPingId := d.nextPingId
    crashAlerted := d.crashAlerted
    proxy := d.proxy
    startPosition := d.startPosition
    handlers := d.handlers
    subscribers := d.subscribers }

namespace Site

/-- The packets that callers hand over are `given`; the circuit's own ones are plain. The circuit is
blocked only if the viewer `pauses`. Only where a dispatch `ends`, it is concluded, its packet is
recycled and its failure reported. -/
inductive Deed (given : Packet → Prop) (pauses ends : Prop) : Site → Site → Prop
  | remark {s e} (he : e.isRemark) (hc : e.isConclusion = true → ends) :
    Deed given pauses ends s (s.emit e)
  | recycle {s p} (h : ends) : Deed given pauses ends s (s.recycle p)
  | draw {s pool} (hp : pool.Sound) : Deed given pauses ends s { s with pool }
  | send {s p category} (hp : p.IsPlain ∨ given p) : Deed given pauses ends s (s.send p category).2
  | close {s reason} : Deed given pauses ends s (s.close reason)
  | block {s blocked} (hb : blocked = true → pauses) :
    Deed given pauses ends s (s.update fun c => { c with blocked })
  | settings {s proxy startPosition handlers subscribers} :
    Deed given pauses ends s (s.update fun c => { c with
      proxy, startPosition, handlers, subscribers })
  | throttle {s block rates now}
      (h : Rates.grant s.circuit.queue.rates block s.circuit.config.throttle = .ok rates) :
    Deed given pauses ends s (s.update fun c => { c with queue := c.queue.withRates rates now })
  | reportCrash {s} (h : ends) :
    Deed given pauses ends s (s.update fun c => { c with crashAlerted := true })
  | countPing {s} :
    Deed given pauses ends s (s.update fun c => { c with nextPingId := c.nextPingId + 1 })

/-- The one site becomes the other by deeds, and pooled packets stay fresh. -/
def Does (given : Packet → Prop) (pauses ends : Prop) (s u : Site) : Prop :=
  s.pool.Sound → u.pool.Sound ∧ ReflTransGen (Deed given pauses ends) s u

variable {given : Packet → Prop} {pauses ends : Prop} {s u v : Site}

theorem send_sound (h : s.pool.Sound) (p : Packet) (category : Category) :
    (s.send p category).2.pool.Sound := by
  unfold send
  split
  · exact PacketPool.takeBack_sound h p
  · dsimp only
    split
    · exact h
    · exact PacketPool.takeBack_sound h _

theorem Deed.sound (h : Deed given pauses ends s u) (hs : s.pool.Sound) : u.pool.Sound := by
  cases h with
  | recycle => exact PacketPool.takeBack_sound hs _
  | draw hp => exact hp
  | send => exact send_sound hs _ _
  | _ => exact hs

namespace Does

theorem refl (s : Site) : Does given pauses ends s s := fun hs => ⟨hs, .refl⟩

theorem trans (h : Does given pauses ends s u) (k : Does given pauses ends u v) :
    Does given pauses ends s v := by
  intro hs
  obtain ⟨hu, su⟩ := h hs
  obtain ⟨hv, uv⟩ := k hu
  exact ⟨hv, su.trans uv⟩

theorem of_deed (h : Deed given pauses ends s u) : Does given pauses ends s u :=
  fun hs => ⟨h.sound hs, .single h⟩

/-- What every deed keeps is kept by all of them. -/
theorem invariant {motive : Site → Prop} (h : Does given pauses ends s u) (hs : s.pool.Sound)
    (start : motive s) (deed : ∀ v w, Deed given pauses ends v w → motive v → motive w) :
    motive u := by
  obtain ⟨-, deeds⟩ := h hs
  clear h hs
  induction deeds with
  | refl => exact start
  | tail _ step ih => exact deed _ _ step ih

end Does

/-- Sending touches nothing but the numbering and the queue. -/
theorem send_frame (p : Packet) (category : Category) (s : Site) :
    ∃ sequences queue, (s.send p category).2.circuit = { s.circuit with sequences, queue } := by
  unfold send
  split
  · exact ⟨_, _, rfl⟩
  · dsimp only
    split <;> exact ⟨_, _, rfl⟩

theorem sendAll_frame (ps : List (Packet × Category)) (s : Site) :
    ∃ sequences queue, (sendAll ps s).2.circuit = { s.circuit with sequences, queue } := by
  induction ps generalizing s with
  | nil => exact ⟨_, _, rfl⟩
  | cons e ps ih =>
    obtain ⟨sequences, queue, first⟩ := send_frame e.1 e.2 s
    unfold sendAll
    split
    · next u hu =>
      rw [hu] at first
      obtain ⟨sequences, queue, later⟩ := ih u
      exact ⟨sequences, queue, by rw [later, first]⟩
    · next u hu =>
      rw [hu] at first
      exact ⟨sequences, queue, first⟩

theorem say_frame (drafts : List Draft) (s : Site) :
    ∃ sequences queue, (s.say drafts).2.circuit = { s.circuit with sequences, queue } :=
  sendAll_frame _ { s with pool := _ }

theorem inform_frame (notice : Notice) (s : Site) :
    ∃ sequences queue, (s.inform notice).circuit = { s.circuit with sequences, queue } :=
  say_frame _ s

theorem sendAll_does {ps : List (Packet × Category)} (hps : ∀ e ∈ ps, e.1.IsPlain ∨ given e.1)
    (s : Site) : Does given pauses ends s (sendAll ps s).2 := by
  induction ps generalizing s with
  | nil => exact .refl s
  | cons e ps ih =>
    obtain ⟨p, category⟩ := e
    have first : Does given pauses ends s (s.send p category).2 :=
      .of_deed (.send (hps _ List.mem_cons_self))
    unfold sendAll
    split
    · next u hu =>
      rw [hu] at first
      exact first.trans (ih (fun e he => hps e (List.mem_cons_of_mem _ he)) u)
    · next u hu =>
      rw [hu] at first
      exact first

theorem packet_kind (d : Draft) : d.packet.kind = d.message.kind := by
  unfold Draft.packet
  split <;> rfl

theorem packet_acks (d : Draft) : d.packet.acks = [] := by
  unfold Draft.packet
  split <;> rfl

/-- The packets of drafts come from the pool, fresh ones. -/
theorem say_fresh (hs : s.pool.Sound) (drafts : List Draft) :
    ∃ pool : PacketPool, pool.Sound ∧
      s.say drafts = sendAll (drafts.map fun d => (d.packet, d.category)) { s with pool } := by
  obtain ⟨hp, hpool⟩ := Draft.issueAll_fresh hs drafts
  exact ⟨_, hpool, by rw [← hp]; rfl⟩

theorem say_does {drafts : List Draft}
    (hd : ∀ d ∈ drafts, d.message.kind ≠ .packetAck ∨ given d.packet) (s : Site) :
    Does given pauses ends s (s.say drafts).2 := by
  intro hs
  obtain ⟨pool, hpool, said⟩ := say_fresh hs drafts
  rw [said]
  refine (Does.of_deed (.draw hpool)).trans (sendAll_does ?_ _) hs
  intro e he
  obtain ⟨d, hm, rfl⟩ := List.mem_map.1 he
  refine (hd d hm).imp_left fun hk => ⟨?_, packet_acks d⟩
  rwa [packet_kind]

/-- Only the notice of acks is told in ack packets. -/
theorem drafts_plain {c : Circuit} {notice : Notice} (h : ∀ ids, notice ≠ .acks ids) :
    ∀ d ∈ c.drafts notice, d.message.kind ≠ .packetAck := by
  intro d hd
  cases notice with
  | acks ids => exact absurd rfl (h ids)
  | _ =>
    simp only [Circuit.drafts, List.mem_singleton, Outbound.terseAvatars, Outbound.tersePrims,
      Outbound.terse, Outbound.killObjects, Outbound.names, List.mem_map] at hd
    first
      | subst hd; intro hk; cases hk
      | obtain ⟨entries, -, rfl⟩ := hd; intro hk; cases hk

theorem tell_does {notice : Notice}
    (h : ∀ ids, notice = .acks ids → given (Outbound.acks ids).packet) (s : Site) :
    Does given pauses ends s (s.tell notice).2 := by
  refine say_does (fun d hd => ?_) s
  by_cases hk : ∃ ids, notice = .acks ids
  · obtain ⟨ids, rfl⟩ := hk
    obtain rfl := List.mem_singleton.1 hd
    exact .inr (h ids rfl)
  · exact .inl (drafts_plain (fun ids hids => hk ⟨ids, hids⟩) d hd)

theorem close_does (reason : CloseReason) (s : Site) : Does given pauses ends s (s.close reason) :=
  .of_deed .close

theorem close_circuit (reason : CloseReason) (s : Site) :
    (s.close reason).circuit = { s.circuit with
      phase := if s.circuit.phase.isEnding then s.circuit.phase else .closing
      closeReason := if s.circuit.phase.isEnding then s.circuit.closeReason else some reason
      queue := s.circuit.queue.close } := by
  cases h : s.circuit.phase.isEnding <;> simp [close, emit, update, h]

theorem history_close (reason : CloseReason) (s : Site) :
    (s.close reason).history = s.history ++ [.closeCalled reason] := history_emit _ _

theorem kick_does (reason : String) (s : Site) : Does given pauses ends s (s.kick reason).2 := by
  have told : Does given pauses ends s (s.tell (.kick reason)).2 := tell_does (by simp) s
  unfold kick
  dsimp only
  split
  · exact told
  · exact told.trans (close_does _ _)

theorem startPing_does (s : Site) : Does given pauses ends s s.startPing :=
  (Does.of_deed .countPing).trans (say_does (by simp [Outbound.startPing, Message.kind]) _)

theorem applyThrottles_does (block : Bytes) (time : Nat) (s : Site) :
    Does given pauses ends s (s.applyThrottles block time).2 := by
  unfold applyThrottles
  split
  · next h => exact .of_deed (.throttle h)
  · exact .refl s

theorem act_does {action : HandlerAction} (hg : action.Gives given pauses) (now : Nat) (s : Site) :
    Does given pauses ends s (s.act now action).2 := by
  cases action with
  | send p category => exact .of_deed (.send hg)
  | tell notice =>
    refine tell_does ?_ s
    rintro ids rfl
    exact hg
  | startPing => exact startPing_does s
  | close reason => exact close_does reason s
  | kick reason => exact kick_does reason s
  | setBlocked blocked =>
    refine .of_deed (.block ?_)
    rintro rfl
    exact hg
  | applyThrottles block => exact applyThrottles_does block now s
  | setProxy | setStartPosition | addHandler | subscribe => exact .of_deed .settings

theorem run_does {actions : List HandlerAction} (hg : ∀ a ∈ actions, a.Gives given pauses)
    (now : Nat) (outcome : Outcome) (s : Site) :
    Does given pauses ends s (s.run now outcome actions).2 := by
  induction actions generalizing s with
  | nil => exact .refl s
  | cons action actions ih =>
    have first : Does given pauses ends s (s.act now action).2 :=
      act_does (hg _ List.mem_cons_self) now s
    unfold run
    split
    · next u hu =>
      rw [hu] at first
      exact first.trans (ih (fun a ha => hg a (List.mem_cons_of_mem _ ha)) u)
    · next u hu =>
      rw [hu] at first
      exact first

section

variable {conduct : Conduct} (hg : conduct.Gives given pauses)
include hg

theorem call_does (now : Nat) (occasion : Occasion) (handler : Handler) (s : Site) :
    Does given pauses ends s (s.call conduct now occasion handler).2 :=
  run_does (hg handler occasion) now _ s

theorem publishTo_does (now : Nat) (event : ViewerEvent) (subscribers : List Handler) (s : Site) :
    Does given pauses ends s (publishTo conduct now event subscribers s).2 := by
  induction subscribers generalizing s with
  | nil => exact .refl s
  | cons subscriber subscribers ih =>
    have called : Does given pauses ends s ((s.emit (.eventPublished subscriber.tag event)).call
        conduct now (.event event) subscriber).2 :=
      (Does.of_deed (.remark rfl nofun)).trans (call_does hg now _ subscriber _)
    unfold publishTo
    dsimp only
    split
    · exact called
    · exact called.trans (ih _)

theorem publish_does (now : Nat) (message : Message) (s : Site) :
    Does given pauses ends s (s.publish conduct now message).2 := by
  unfold publish
  split
  · exact publishTo_does hg now _ _ s
  · exact .refl s

theorem runBuiltIn_does {p : Packet} (hp : p.kind = .agentPause → pauses) (now : Nat)
    (handler : BuiltIn) (s : Site) :
    Does given pauses ends s (s.runBuiltIn conduct now handler p).2 := by
  cases handler with
  | consume => exact .refl s
  | answerPing =>
    unfold runBuiltIn
    dsimp only
    split
    · exact tell_does (by simp) s
    · exact .refl s
  | applyThrottle =>
    unfold runBuiltIn
    dsimp only
    split
    · exact applyThrottles_does _ now s
    · exact .refl s
  | pause => exact .of_deed (.block fun hb => hp (of_decide_eq_true hb))
  | logout => exact (tell_does (by simp) s).trans (close_does _ _)
  | closeCircuit => exact close_does _ s
  | publish => exact publish_does hg now _ s

theorem tryHandler_does (now : Nat) (handler : Option Handler) (p : Packet) (s : Site) :
    Does given pauses ends s (s.tryHandler conduct now handler p).2 := by
  cases handler with
  | none => exact .refl s
  | some h => exact (Does.of_deed (.remark rfl nofun)).trans (call_does hg now _ h _)

theorem runDefault_does {p : Packet} (hp : p.kind = .agentPause → pauses) (now : Nat)
    (handler : DefaultHandler) (s : Site) :
    Does given pauses ends s (s.runDefault conduct now handler p).2 := by
  cases handler with
  | builtIn h => exact runBuiltIn_does hg hp now h s
  | added h => exact tryHandler_does hg now _ p s

end

theorem orElse_does {result : Outcome × Site} {next : Site → Outcome × Site}
    (h : Does given pauses ends s result.2) (hn : ∀ u, Does given pauses ends u (next u).2) :
    Does given pauses ends s (orElse result next).2 := by
  unfold orElse
  split
  · exact h.trans (hn _)
  · exact h

theorem dispatch_does {p : Packet} {conduct : Conduct} (hg : conduct.Gives given pauses)
    (hp : p.kind = .agentPause → pauses) (now : Nat) (s : Site) :
    Does given pauses ends s (s.dispatch conduct now p).2 := by
  refine orElse_does (tryHandler_does hg now _ p s) ?_
  intro u
  refine orElse_does (tryHandler_does hg now _ p u) ?_
  intro v
  split
  · exact runDefault_does hg hp now _ v
  · exact .refl v

theorem reportCrash_does (s : Site) : Does given pauses True s s.reportCrash := by
  unfold reportCrash
  split
  · exact .refl s
  · exact (Does.of_deed (.reportCrash trivial)).trans (tell_does (by simp) _)

theorem conclude_does (outcome : Outcome) (p : Packet) (s : Site) :
    Does given pauses True s ((if outcome.isFailure then
      (s.emit (.concluded p outcome)).reportCrash
      else s.emit (.concluded p outcome)).recycle p) := by
  have concluded : Does given pauses True s (s.emit (.concluded p outcome)) :=
    .of_deed (.remark rfl fun _ => trivial)
  have recycled : ∀ u, Does given pauses True u (u.recycle p) :=
    fun u => .of_deed (.recycle trivial)
  split
  · exact concluded.trans ((reportCrash_does _).trans (recycled _))
  · exact concluded.trans (recycled _)

/-- What is decided about a packet comes first; then the handlers do what they do. -/
theorem settle_does {p : Packet} {conduct : Conduct} (hg : conduct.Gives given pauses)
    (hp : p.kind = .agentPause → pauses) (now : Nat) (s : Site) :
    ∃ u : Site, u.pool = s.pool ∧
      u.circuit = { s.circuit with
        duplicates := (s.circuit.duplicates.seen p.sequence p.kind now).2
        counters.duplicatesDropped := s.circuit.counters.duplicatesDropped +
          if (s.circuit.duplicates.seen p.sequence p.kind now).1 then 1 else 0 } ∧
      u.history = s.history ++ [if (s.circuit.duplicates.seen p.sequence p.kind now).1
        then .dropped p now else .dispatched p now] ∧
      Does given pauses True u (s.settle conduct now p) := by
  unfold settle
  dsimp only
  split
  · next hdup =>
    refine ⟨_, ?_, ?_, ?_, .of_deed (.recycle trivial)⟩
    · rfl
    · rw [Duplicates.seen_kept hdup]
      rfl
    · exact history_emit _ _
  · refine ⟨_, ?_, ?_, ?_, (dispatch_does hg hp now _).trans (conclude_does _ p _)⟩
    · rfl
    · rfl
    · exact history_emit _ _

/-- A packet is a sign of life, it acks and is owed an ack. -/
theorem ackStep_spec (now : Nat) (p : Packet) (s : Site) :
    (s.ackStep now p).pool = s.pool ∧
      (s.ackStep now p).circuit = { s.circuit with
        counters := { s.circuit.counters with packetsIn := s.circuit.counters.packetsIn + 1 }
        heard := true
        probeFailures := 0
        blocked := false
        ackState := (s.circuit.ackState.arrive p).2 } ∧
      (s.ackStep now p).history = s.history ++ (.processed p now ::
        if (s.circuit.ackState.arrive p).1 then [.owes p.sequence] else []) := by
  unfold ackStep acknowledge
  dsimp only
  have harrive : (s.emit (.processed p now)).circuit.ackState = s.circuit.ackState := rfl
  rw [harrive]
  split
  · exact ⟨rfl, rfl, by simp [history, emit, update]⟩
  · exact ⟨rfl, rfl, by simp [history, emit, update]⟩

/-- Nothing is decided about a packet before it is acked. -/
theorem process_does {p : Packet} {conduct : Conduct} (hg : conduct.Gives given pauses)
    (hp : p.kind = .agentPause → pauses) (now : Nat) (s : Site) :
    ∃ u : Site, u.pool = s.pool ∧
      u.circuit = { s.circuit with
        counters := { s.circuit.counters with
          packetsIn := s.circuit.counters.packetsIn + 1
          duplicatesDropped := s.circuit.counters.duplicatesDropped +
            if (s.circuit.duplicates.seen p.sequence p.kind now).1 then 1 else 0 }
        heard := true
        probeFailures := 0
        blocked := false
        ackState := (s.circuit.ackState.arrive p).2
        duplicates := (s.circuit.duplicates.seen p.sequence p.kind now).2 } ∧
      u.history = s.history ++ (.processed p now ::
        (if (s.circuit.ackState.arrive p).1 then [.owes p.sequence] else []) ++
        [if (s.circuit.duplicates.seen p.sequence p.kind now).1 then .dropped p now
          else .dispatched p now]) ∧
      Does given pauses True u (s.process conduct now p) := by
  obtain ⟨vpool, vcircuit, vhistory⟩ := ackStep_spec now p s
  obtain ⟨u, hpool, hcircuit, hhistory, does⟩ := settle_does hg hp now (s.ackStep now p)
  rw [vcircuit] at hcircuit hhistory
  refine ⟨u, hpool.trans vpool, hcircuit, ?_, does⟩
  rw [hhistory, vhistory]
  simp

theorem send_told (p : Packet) (category : Category) (s : Site) :
    ∃ l, (s.send p category).2.history = s.history ++ l ∧ ∀ e ∈ l,
      (∃ q, e = .recycled q) ∨ (∃ q, e = .turnedAway q) ∨ (∃ q error, e = .unwritable q error) ∨
        ∃ o, e = .queued o := by
  unfold send
  split
  · refine ⟨[.recycled p, .turnedAway p], by simp [history, emit, recycle], ?_⟩
    simp
  · dsimp only
    split
    · next error _ =>
      refine ⟨[.unwritable { p with sequence := s.circuit.sequences.next.1 } error], ?_, by simp⟩
      simp [history, emit, update]
    · next bytes _ =>
      refine ⟨[.recycled { p with sequence := s.circuit.sequences.next.1 },
        .queued (.ofPacket { p with sequence := s.circuit.sequences.next.1 } bytes category)],
        ?_, ?_⟩
      · simp [history, emit, recycle, update]
      · simp

structure Framed (pauses : Prop) (s u : Site) : Prop where
  circuit : u.circuit = u.circuit.touchedAs s.circuit
  blocked : u.circuit.blocked = true → s.circuit.blocked = true ∨ pauses
  told : ∃ l, u.history = s.history ++ l ∧ ∀ e ∈ l, e.isDeed = true

theorem Framed.refl (s : Site) : Framed pauses s s := ⟨rfl, .inl, [], by simp⟩

theorem Framed.trans (h : Framed pauses s u) (k : Framed pauses u v) : Framed pauses s v := by
  obtain ⟨l, hl, hdeeds⟩ := h.told
  obtain ⟨m, hm, hmore⟩ := k.told
  have touched : v.circuit = v.circuit.touchedAs (u.circuit.touchedAs s.circuit) :=
    h.circuit ▸ k.circuit
  refine ⟨touched, ?_, l ++ m, by rw [hm, hl, List.append_assoc], ?_⟩
  · intro hb
    exact (k.blocked hb).elim h.blocked .inr
  · intro e he
    exact (List.mem_append.1 he).elim (hdeeds e) (hmore e)

theorem Deed.framed (h : Deed given pauses ends s u) : Framed pauses s u := by
  have quiet : s.history = s.history ++ [] := (List.append_nil _).symm
  cases h with
  | @remark e he =>
    refine ⟨rfl, .inl, [e], history_emit e s, ?_⟩
    simpa using Effect.isDeed_of_isRemark he
  | @recycle p =>
    refine ⟨rfl, .inl, [.recycled p], ?_, by simp [Effect.isDeed]⟩
    simp [Site.recycle, history]
  | @send p category hp =>
    obtain ⟨sequences, queue, frame⟩ := send_frame p category s
    obtain ⟨l, hl, hkinds⟩ := send_told p category s
    refine ⟨?_, fun hb => .inl ?_, l, hl, ?_⟩
    · rw [frame]
      rfl
    · rw [frame] at hb
      exact hb
    · intro e he
      rcases hkinds e he with ⟨q, rfl⟩ | ⟨q, rfl⟩ | ⟨q, error, rfl⟩ | ⟨o, rfl⟩ <;> rfl
  | @close reason =>
    refine ⟨?_, fun hb => .inl ?_, [.closeCalled reason], history_emit _ _, by simp [Effect.isDeed]⟩
    · rw [close_circuit]
      rfl
    · rw [close_circuit] at hb
      exact hb
  | block hb => exact ⟨rfl, fun h => .inr (hb h), [], quiet, by simp⟩
  | _ => exact ⟨rfl, .inl, [], quiet, by simp⟩

theorem Does.framed (h : Does given pauses ends s u) (hs : s.pool.Sound) : Framed pauses s u :=
  h.invariant (motive := Framed pauses s) hs (.refl s) fun _ _ deed ih => ih.trans deed.framed

/-- All that can be said of a circuit behind a packet, whoever handled it. -/
theorem process_frame (hs : s.pool.Sound) (conduct : Conduct) (now : Nat) (p : Packet) :
    (s.process conduct now p).circuit = Circuit.touchedAs (s.process conduct now p).circuit
      { s.circuit with
        counters := { s.circuit.counters with
          packetsIn := s.circuit.counters.packetsIn + 1
          duplicatesDropped := s.circuit.counters.duplicatesDropped +
            if (s.circuit.duplicates.seen p.sequence p.kind now).1 then 1 else 0 }
        heard := true
        probeFailures := 0
        ackState := (s.circuit.ackState.arrive p).2
        duplicates := (s.circuit.duplicates.seen p.sequence p.kind now).2 } := by
  obtain ⟨u, hpool, hcircuit, -, does⟩ := process_does conduct.gives_any (fun _ => trivial) now s
  have frame := (does.framed (hpool ▸ hs)).circuit
  rw [hcircuit] at frame
  exact frame

theorem process_ackState (hs : s.pool.Sound) (conduct : Conduct) (now : Nat)
    (p : Packet) :
    (s.process conduct now p).circuit.ackState = (s.circuit.ackState.arrive p).2 :=
  congrArg Circuit.ackState (process_frame hs conduct now p)

structure Blind {α : Type} (f : Site → α) : Prop where
  draw : ∀ pool s, f { s with pool } = f s
  send : ∀ p category s, f (s.send p category).2 = f s
  requeue : ∀ r s, f (s.requeue r) = f s
  ackState : ∀ ackState s, f (s.update fun c => { c with ackState }) = f s
  duplicates : ∀ duplicates s, f (s.update fun c => { c with duplicates }) = f s

namespace Blind

variable {α : Type} {f : Site → α}

theorem sendAll (hf : Blind f) (ps : List (Packet × Category)) (s : Site) :
    f (Site.sendAll ps s).2 = f s := by
  induction ps generalizing s with
  | nil => rfl
  | cons e ps ih =>
    have first := hf.send e.1 e.2 s
    unfold Site.sendAll
    split
    · next u hu =>
      rw [hu] at first
      exact (ih u).trans first
    · next u hu =>
      rw [hu] at first
      exact first

theorem inform (hf : Blind f) (notice : Notice) (s : Site) : f (s.inform notice) = f s :=
  (hf.sendAll _ { s with pool := _ }).trans (hf.draw _ s)

theorem sendAckChunks (hf : Blind f) (chunks : Nat) (s : Site) :
    f (Site.sendAckChunks chunks s) = f s := by
  induction chunks generalizing s with
  | zero => rfl
  | succ chunks ih =>
    unfold Site.sendAckChunks
    dsimp only
    split
    · rfl
    · exact (ih _).trans ((hf.inform _ _).trans (hf.ackState _ s))

theorem requeueAll (hf : Blind f) (due : List Retransmission) (s : Site) :
    f (due.foldl (fun s r => s.requeue r) s) = f s := by
  induction due generalizing s with
  | nil => rfl
  | cons r due ih => exact (ih _).trans (hf.requeue r s)

theorem ackTick (hf : Blind f) (now : Nat) (s : Site) : f (s.ackTick now) = f s := by
  unfold Site.ackTick
  dsimp only
  refine (hf.duplicates _ _).trans ?_
  refine (hf.requeueAll _ _).trans ?_
  exact (hf.ackState _ s.sendOwedAcks).trans (hf.sendAckChunks _ s)

end Blind

end Site
end ViewerCircuit
