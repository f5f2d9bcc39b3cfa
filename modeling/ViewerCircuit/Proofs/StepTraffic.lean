import ViewerCircuit.Proofs.CallTraffic
import ViewerCircuit.Proofs.InFlightCalls
import ViewerCircuit.Proofs.Steps

/-!
# The traffic of a step

Whatever a circuit does is traffic: every step of a circuit, its calls and its handlers included,
is a sequence of steps of its traffic. Moves of a run only lead from traffic to traffic.
-/
namespace ViewerCircuit

open Relation (ReflTransGen)

/-- The length of a packet of its own for so many acks. A message number of four bytes and the count
stand before them. -/
def standaloneLength (acks : Nat) : Nat := Packet.headerLength + 5 + acks * ackLength

structure Outgoing.BringsAcks (ids : List UInt32) (o : Outgoing) : Prop where
  kind : o.kind = .packetAck
  delivery : o.delivery = .unreliable
  category : o.category = .unknown
  bare : Datagram.IsBare o.bytes
  holds : o.standaloneAcks = ids
  length : o.bytes.length = standaloneLength ids.length

theorem Codec.writeAll_u32 (values : List UInt32) :
    writeAll u32 values = .ok (values.flatMap fun value => littleEndian 4 value.toNat) := by
  induction values with
  | nil => rfl
  | cons value values ih =>
    rw [writeAll, ih]
    rfl

/-- The acks are all that varies in the length of their packet. -/
theorem Packet.length_acks {ids : List UInt32} (h : ids.length ≤ 255) {sequence : UInt32}
    {bytes : Bytes}
    (he : { (Outbound.acks ids).packet with sequence }.encode = .ok bytes) :
    bytes.length = standaloneLength ids.length := by
  obtain ⟨plain, tail, -, hw, ht, rfl⟩ := Packet.encode_parts he
  obtain rfl : [] = tail := Except.ok.inj ht
  have hlt : ids.length < 256 := Nat.lt_succ_of_le h
  have hplain : (Message.packetAck { ids }).write =
      .ok ([0xFF, 0xFF, 0xFF, 0xFB] ++ (UInt8.ofNat ids.length ::
        ids.flatMap fun id => littleEndian 4 id.toNat)) := by
    simp [Message.write, Message.writeBody, PacketAck.codec, Codec.view, Codec.block,
      Codec.writeBlockCount, hlt, Codec.writeAll_u32, bind, Except.bind, pure, Except.pure]
    rfl
  have hbytes : (ids.flatMap fun id => littleEndian 4 id.toNat).length = ids.length * 4 := by
    simp [List.length_flatMap]
  obtain rfl := Except.ok.inj (hplain.symm.trans hw)
  rw [wireBody_plain rfl]
  simp [standaloneLength, headerLength, ackLength, Outbound.acks, Draft.packet, ofMessage]
  omega

theorem HandlerAction.gives_plain {plain : Prop} {a : HandlerAction} (h : plain → a.LeavesAcks) :
    a.Gives (fun p => plain → p.IsPlain) True := by
  cases a with
  | send p category => exact .inr h
  | tell notice =>
    cases notice with
    | acks ids => exact fun hp => (h hp).elim
    | _ => trivial
  | setBlocked blocked => cases blocked <;> trivial
  | _ => trivial

theorem Conduct.gives_plain {plain : Prop} {conduct : Conduct}
    (h : plain → conduct.KeepsTo HandlerAction.LeavesAcks) :
    conduct.Gives (fun p => plain → p.IsPlain) True :=
  fun handler occasion a ha => HandlerAction.gives_plain fun hp => h hp handler occasion a ha

namespace Site

open Traffic (Call Step)

variable {plain : Prop} {now : Nat} {s u v : Site}

theorem Leads.called (h : Leads (Call fun p => plain → p.IsPlain) s u) :
    Leads (Step plain now) s u := h.mono fun _ _ call => call.step fun _ => id

theorem Does.called (h : Does (fun p => plain → p.IsPlain) True True s u) :
    Leads (Step plain now) s u := h.leads.called

theorem traffic_ackStep (p : Packet) (s : Site) :
    (s.ackStep now p).traffic = s.traffic.acknowledge now p := by
  unfold ackStep acknowledge Traffic.acknowledge
  have hack : (s.emit (.processed p now)).circuit.ackState = s.traffic.ackState := rfl
  rw [hack]
  dsimp only
  split
  · rw [traffic_emit]
    simp [update, emit, traffic, Traffic.log]
  · simp [update, emit, traffic]

theorem settle_decides {given : Packet → Prop} {conduct : Conduct} (hg : conduct.Gives given True)
    (now : Nat) (p : Packet) (s : Site) :
    ∃ u : Site, u.pool = s.pool ∧ u.traffic = s.traffic.decide now p ∧
      Leads (Call given) u (s.settle conduct now p) := by
  obtain ⟨u, hpool, hcircuit, hhistory, does⟩ := settle_does hg (fun _ => trivial) now s
  refine ⟨u, hpool, ?_, does.leads⟩
  have hh : u.effects.reverse = _ := hhistory
  unfold traffic
  rw [hcircuit, hh]
  rfl

theorem process_leads {i : AttendantId} {p : Packet} {rest : List Packet}
    {queue : Queue Nat Float} {conduct : Conduct}
    (hg : conduct.Gives (fun p => plain → p.IsPlain) True)
    (hs : s.traffic.stage? i = some .serving) (hc : s.circuit.queue.closed = false)
    (hi : s.circuit.queue.incoming = p :: rest) (hq : queue.incoming = rest)
    (hclosed : queue.closed = s.circuit.queue.closed)
    (hout : queue.outgoing = s.circuit.queue.outgoing) :
    Leads (Step plain now) s ((s.update fun c => { c with queue }).process conduct now p) := by
  obtain ⟨u, hp, ht, settled⟩ :=
    settle_decides hg now p ((s.update fun c => { c with queue }).ackStep now p)
  refine Leads.trans (.of_step (u := u) ?_ ?_) settled.called
  · rw [hp]
    unfold ackStep acknowledge
    dsimp only
    split <;> rfl
  · have hpop : (s.update fun c => { c with queue }).traffic =
        { s.traffic with incoming := rest } := by
      simp [update, traffic, hq, hclosed, hout]
    rw [ht, traffic_ackStep, hpop]
    exact .process hs hc hi

theorem length_takeAcks (s : Site) : s.takeAcks.1.length ≤ acksPerPacket := List.length_take_le _ _

/-- Acks that fit one packet are written into a packet of their own. -/
theorem acks_written {ids : List UInt32} (h : ids.length ≤ acksPerPacket) (sequence : UInt32) :
    ∃ bytes, { (Outbound.acks ids).packet with sequence }.encode = .ok bytes ∧
      (Outgoing.ofPacket { (Outbound.acks ids).packet with sequence } bytes
        .unknown).BringsAcks ids := by
  have hfits : ({ (Outbound.acks ids).packet with sequence } : Packet).Fits :=
    ⟨Nat.zero_le _, Nat.zero_le _, h⟩
  obtain ⟨bytes, he⟩ := Packet.encode_fits hfits
  refine ⟨bytes, he, rfl, rfl, rfl, bare_of_encode rfl he, ?_, Packet.length_acks h he⟩
  simp only [Outgoing.standaloneAcks, Outgoing.ofPacket, Packet.decode_of_encode hfits he]
  rfl

/-- A circuit that is not closed queues one packet for acks that fit it. -/
theorem inform_acks (hs : s.pool.Sound) (hp : s.circuit.phase ≠ .closed) {ids : List UInt32}
    (h : ids.length ≤ acksPerPacket) :
    ∃ pool numbered bytes, PacketPool.Sound pool ∧
      (Outgoing.ofPacket numbered bytes .unknown).BringsAcks ids ∧
      s.inform (.acks ids) = ({ s with pool } : Site).queueing numbered bytes .unknown := by
  obtain ⟨pool, hpool, said⟩ := say_one hs (Outbound.acks ids)
  obtain ⟨bytes, he, brings⟩ := acks_written h s.circuit.sequences.next.1
  exact ⟨pool, _, bytes, hpool, brings,
    said.trans (send_written (s := { s with pool }) .unknown hp rfl he)⟩

/-- A closed circuit still has an attendant, or its timer, that takes owed acks. -/
def TakesAcks (s : Site) : Prop :=
  s.circuit.phase = .closed → ∃ a ∈ s.circuit.attendants,
    a.ackTimer = .running ∨ ∃ joined, a.stage = .finishing joined

theorem informAcks_leads {s : Site} (hr : s.TakesAcks) :
    Leads (Step plain now) s (s.takeAcks.2.inform (.acks s.takeAcks.1)) := by
  intro hs
  by_cases hphase : s.circuit.phase = .closed
  · obtain ⟨a, ha, ht⟩ := hr hphase
    have lost : Traffic.Step plain now s.traffic s.takeAcks.2.traffic := .loseAcks hphase ha ht
    obtain ⟨pool, hpool, said⟩ := say_one (s := s.takeAcks.2) hs (Outbound.acks s.takeAcks.1)
    have informed : s.takeAcks.2.inform (.acks s.takeAcks.1) = _ := said
    rw [informed]
    unfold send
    rw [if_pos (show ({ s.takeAcks.2 with pool } : Site).circuit.phase = .closed from hphase)]
    refine ⟨PacketPool.takeBack_sound hpool _, ?_⟩
    rw [traffic_emit, traffic_recycle]
    exact .tail (.tail (.single lost) (.note rfl)) (.turnAway hphase)
  · obtain ⟨pool, numbered, bytes, hpool, brings, informed⟩ :=
      inform_acks (s := s.takeAcks.2) hs hphase (length_takeAcks s)
    rw [informed, traffic_queueing]
    exact ⟨PacketPool.takeBack_sound hpool _,
      .tail (.single (.note (e := .recycled numbered) rfl))
        (.queueAcks hphase brings.delivery brings.kind brings.bare brings.holds)⟩

theorem takeAcks_eq_nil (h : s.takeAcks.1 = []) : s.circuit.ackState.owed.waiting = [] :=
  (List.take_eq_nil_iff.1 h).resolve_left (by decide)

theorem sendAckChunks_of_none (chunks : Nat) (h : s.circuit.ackState.owed.waiting = []) :
    sendAckChunks chunks s = s := by
  have none_taken : s.takeAcks.1 = [] := by simp [takeAcks, OwedAcks.take, h]
  cases chunks with
  | zero => rfl
  | succ chunks => simp [sendAckChunks, none_taken]

theorem sendAckChunks_of_some (chunks : Nat) (h : s.circuit.ackState.owed.waiting ≠ []) :
    sendAckChunks (chunks + 1) s =
      sendAckChunks chunks (s.takeAcks.2.inform (.acks s.takeAcks.1)) := by
  have some_taken : s.takeAcks.1 ≠ [] := fun hnone => h (takeAcks_eq_nil hnone)
  simp [sendAckChunks, some_taken]

theorem inform_ackState (notice : Notice) (s : Site) :
    (s.inform notice).circuit.ackState = s.circuit.ackState := by
  obtain ⟨sequences, queue, frame⟩ := inform_frame notice s
  rw [frame]

theorem count_takeAcks (h : s.circuit.ackState.owed.waiting ≠ []) :
    (s.takeAcks.2.inform (.acks s.takeAcks.1)).circuit.ackState.owed.count <
      s.circuit.ackState.owed.count := by
  have hpos : 0 < s.circuit.ackState.owed.waiting.length := List.length_pos_iff.2 h
  rw [inform_ackState]
  show (s.circuit.ackState.owed.waiting.drop acksPerPacket).length < _
  rw [List.length_drop, acksPerPacket, OwedAcks.count]
  omega

/-- After as many packets as there are owed acks, no ack waits any more. -/
theorem sendAckChunks_spec (plain : Prop) (now chunks : Nat) {s : Site} (hr : s.TakesAcks) :
    Leads (Step plain now) s (sendAckChunks chunks s) ∧
      (sendAckChunks chunks s).circuit.attendants = s.circuit.attendants ∧
      (s.circuit.ackState.owed.count ≤ chunks →
        (sendAckChunks chunks s).circuit.ackState.owed.waiting = []) := by
  induction chunks generalizing s with
  | zero =>
    refine ⟨.refl s, rfl, ?_⟩
    intro hn
    exact List.length_eq_zero_iff.1 (Nat.le_zero.1 hn)
  | succ chunks ih =>
    by_cases hnone : s.circuit.ackState.owed.waiting = []
    · rw [sendAckChunks_of_none _ hnone]
      exact ⟨.refl s, rfl, fun _ => hnone⟩
    · have fewer := count_takeAcks hnone
      obtain ⟨sequences, queue, hframe⟩ := inform_frame (.acks s.takeAcks.1) s.takeAcks.2
      have informed : Leads (Step plain now) s (s.takeAcks.2.inform (.acks s.takeAcks.1)) :=
        informAcks_leads hr
      rw [sendAckChunks_of_some _ hnone]
      obtain ⟨u, hu⟩ : ∃ u, s.takeAcks.2.inform (.acks s.takeAcks.1) = u := ⟨_, rfl⟩
      rw [hu] at hframe informed fewer ⊢
      have hattendants : u.circuit.attendants = s.circuit.attendants := by rw [hframe]; rfl
      have hphase : u.circuit.phase = s.circuit.phase := by rw [hframe]; rfl
      have htakes : u.TakesAcks := by
        unfold TakesAcks
        rw [hattendants, hphase]
        exact hr
      obtain ⟨later, hsame, hnone⟩ := ih htakes
      exact ⟨informed.trans later, hsame.trans hattendants, fun hn => hnone (by omega)⟩

theorem sendOwedAcks_spec (plain : Prop) (now : Nat) {s : Site} (hr : s.TakesAcks) :
    Leads (Step plain now) s s.sendOwedAcks ∧
      s.sendOwedAcks.circuit.attendants = s.circuit.attendants ∧
      s.sendOwedAcks.circuit.ackState.owed.waiting = [] := by
  obtain ⟨leads, hsame, hnone⟩ :=
    sendAckChunks_spec plain now s.circuit.ackState.owed.count hr
  exact ⟨leads, hsame, hnone (Nat.le_refl _)⟩

theorem requeueAll_leads {due : List Retransmission} {s : Site}
    (h : ∀ r ∈ due, ∃ e ∈ s.circuit.ackState.inFlight.kept,
      e.1 = r.sequence ∧ e.2.bytes = r.bytes ∧ e.2.kind = r.kind) :
    Leads (Step plain now) s (due.foldl (fun s r => s.requeue r) s) := by
  induction due generalizing s with
  | nil => exact .refl s
  | cons r due ih =>
    have first : Leads (Step plain now) s (s.requeue r) := by
      refine .of_step rfl ?_
      unfold requeue
      rw [traffic_emit]
      exact .requeue rfl (h r List.mem_cons_self)
    exact first.trans (ih fun q hq => h q (List.mem_cons_of_mem _ hq))

theorem ackTick_leads {s : Site} {a : Attendant} (ha : a ∈ s.circuit.attendants)
    (hr : a.ackTimer = .running) : Leads (Step plain now) s (s.ackTick now) := by
  obtain ⟨sent, -, -⟩ :=
    sendOwedAcks_spec plain now (s := s) fun _ => ⟨a, ha, .inl hr⟩
  unfold ackTick
  dsimp only
  refine sent.trans ?_
  refine Leads.trans (u := s.sendOwedAcks.update fun c =>
    { c with ackState.inFlight := (c.ackState.inFlight.retransmit now).2 })
    (.of_step rfl .refresh) ?_
  exact (requeueAll_leads fun r h => InFlight.retransmit_kept h).trans (.of_step rfl .sweep)

theorem traffic_transmit (now : Nat) (linkUp : Bool) (o : Outgoing) (s : Site) :
    ∃ room destination, (s.transmit now linkUp o).2.traffic =
      s.traffic.transmit now room destination linkUp o := by
  refine ⟨ackRoom s.circuit.config.maxPacketSize o.bytes.length, s.circuit.sendAddress, ?_⟩
  cases linkUp <;> simp [transmit, update, emit, traffic, Traffic.transmit] <;> rfl

theorem transmit_pool (linkUp : Bool) (o : Outgoing) (s : Site) :
    (s.transmit now linkUp o).2.pool = s.pool := by
  cases linkUp <;> rfl

theorem transmit_sent (linkUp : Bool) (o : Outgoing) (s : Site) :
    (s.transmit now linkUp o).1 = linkUp := by
  cases linkUp <;> rfl

theorem transmit_history (now : Nat) (linkUp : Bool) (o : Outgoing) (s : Site) :
    (s.transmit now linkUp o).2.history = s.history ++ [.transmitted s.circuit.sendAddress
      (s.circuit.ackState.depart now
        (ackRoom s.circuit.config.maxPacketSize o.bytes.length) o).1 o linkUp] := by
  cases linkUp <;> exact history_emit _ _

/-- What serving the queue comes to: the end of serving, an inbound packet that is processed, an
outbound packet that goes on the wire, with a close behind it if that fails, or nothing. -/
theorem serve_cases (conduct : Conduct) (i : AttendantId) (now : Nat) (linkUp : Bool)
    (s : Site) :
    (s.circuit.queue.closed = true ∧
      s.serve conduct i now linkUp = s.update (·.withStage i (.finishing true))) ∨
    s.circuit.queue.closed = false ∧
      ((∃ p rest, s.circuit.queue.incoming = p :: rest ∧ s.serve conduct i now linkUp =
        (s.update fun c => { c with queue := { s.circuit.queue with incoming := rest } }).process
          conduct now p) ∨
      ∃ queue, queue.closed = s.circuit.queue.closed ∧
        queue.incoming = s.circuit.queue.incoming ∧
        ((∃ c o rest sent, s.circuit.queue.outgoing.get c = o :: rest ∧
            queue.outgoing = s.circuit.queue.outgoing.set c rest ∧
            ((s.update fun c => { c with queue }).transmit now linkUp o).2 = sent ∧
            s.serve conduct i now linkUp =
              if linkUp then sent else sent.close .transportFault) ∨
          queue.outgoing = s.circuit.queue.outgoing ∧
            s.serve conduct i now linkUp = s.update fun c => { c with queue })) := by
  unfold serve
  rcases s.circuit.queue.look_cases now with
    ⟨hc, hlook⟩ | ⟨hopen, ⟨p, rest, hi, hlook⟩ | ⟨-, hlook⟩⟩
  · rw [hlook]
    exact .inl ⟨hc, rfl⟩
  · rw [hlook]
    exact .inr ⟨hopen, .inl ⟨p, rest, hi, rfl⟩⟩
  · rw [hlook, Queue.release]
    obtain ⟨hclosed, hincoming, hfound⟩ :=
      s.circuit.queue.search_spec now s.circuit.queue.turn.roundFrom none
    obtain ⟨⟨item, queue⟩, hr⟩ :
      ∃ r, s.circuit.queue.search now s.circuit.queue.turn.roundFrom none = r := ⟨_, rfl⟩
    rw [hr] at hclosed hincoming hfound ⊢
    dsimp only at hclosed hincoming hfound ⊢
    refine .inr ⟨hopen, .inr ⟨queue, hclosed, hincoming, ?_⟩⟩
    rcases hfound with ⟨c, o, rest, rfl, hget, hout⟩ | ⟨⟨w, rfl⟩ | rfl, hout⟩
    · refine .inl ⟨c, o, rest, _, hget, hout, rfl, ?_⟩
      dsimp only
      rw [transmit_sent]
    · exact .inr ⟨hout, rfl⟩
    · exact .inr ⟨hout, rfl⟩

structure Takes (s : Site) (i : AttendantId) (p : Packet) (rest : List Packet) : Prop where
  serving : s.circuit.stage? i = some .serving
  opened : s.circuit.queue.closed = false
  next : s.circuit.queue.incoming = p :: rest

def popped (rest : List Packet) (s : Site) : Site :=
  s.update fun c => { c with queue := { s.circuit.queue with incoming := rest } }

/-- The site where a packet, which is no duplicate, is offered to the handlers. -/
def offered (now : Nat) (p : Packet) (s : Site) : Site :=
  ((s.ackStep now p).update fun c => { c with
    duplicates := (s.circuit.duplicates.seen p.sequence p.kind now).2 }).emit (.dispatched p now)

theorem move_takes {i : AttendantId} {p : Packet} {rest : List Packet} (h : s.Takes i p rest)
    (conduct : Conduct) (now : Nat) (linkUp : Bool) :
    s.move (.step conduct (.serve i now linkUp)) = (s.popped rest).process conduct now p := by
  have moved : s.move (.step conduct (.serve i now linkUp)) = s.serve conduct i now linkUp := by
    simp [move, next, Circuit.Enabled, h.serving, perform]
  have looked : s.circuit.queue.look now =
      (.incoming p, { s.circuit.queue with incoming := rest }) := by
    simp [Queue.look, h.opened, h.next]
  rw [moved, serve, looked]
  rfl

theorem serve_leads {i : AttendantId} {conduct : Conduct}
    (hg : conduct.Gives (fun p => plain → p.IsPlain) True) (linkUp : Bool) {s : Site}
    (hs : s.circuit.stage? i = some .serving) :
    Leads (Step plain now) s (s.serve conduct i now linkUp) := by
  rcases serve_cases conduct i now linkUp s with ⟨hc, hserve⟩ | ⟨hopen, ⟨p, rest, hi, hserve⟩ |
    ⟨queue, hclosed, hincoming, ⟨c, o, rest, sent, hget, hout, rfl, hserve⟩ | ⟨hout, hserve⟩⟩⟩
  · rw [hserve]
    exact .of_step rfl (.poison hs hc)
  · rw [hserve]
    exact process_leads hg hs hopen hi rfl rfl rfl
  · obtain ⟨room, destination, ht⟩ :=
      traffic_transmit now linkUp o (s.update fun c => { c with queue })
    have hpop : (s.update fun c => { c with queue }).traffic =
        { s.traffic with outgoing := s.traffic.outgoing.set c rest } := by
      simp [update, traffic, hclosed, hincoming, hout]
    have sent : Leads (Step plain now) s
        ((s.update fun c => { c with queue }).transmit now linkUp o).2 := by
      refine .of_step (transmit_pool linkUp o _) ?_
      rw [ht, hpop]
      exact .release hs hopen hget
    rw [hserve]
    split
    · exact sent
    · exact sent.trans (close_does _ _).called
  · rw [hserve]
    refine .of_eq rfl ?_
    simp [update, traffic, hclosed, hincoming, hout]

theorem traffic_withRemaining (i : AttendantId) (joined : Bool) (remaining : List Outgoing)
    (s : Site) : (s.update (·.withRemaining i joined remaining)).traffic =
      s.traffic.withRemaining i joined remaining := by
  unfold Circuit.withRemaining Traffic.withRemaining
  by_cases h : remaining.isEmpty
  · simp only [update, h, if_true]
    rfl
  · simp only [update, h]
    rfl

theorem beginFlush_leads {i : AttendantId} {joined : Bool} {s : Site}
    (hs : s.circuit.stage? i = some (.finishing joined)) :
    Leads (Step plain now) s (s.beginFlush i joined) := by
  obtain ⟨a, ha, hstage⟩ := Option.map_eq_some_iff.1 hs
  obtain ⟨sent, hsame, hnone⟩ := sendOwedAcks_spec plain now (s := s)
    fun _ => ⟨a, List.mem_of_getElem? ha, .inr ⟨joined, hstage⟩⟩
  refine sent.trans (.of_step rfl ?_)
  have hstill : s.sendOwedAcks.traffic.stage? i = some (.finishing joined) := by
    rw [← hs]
    simp only [Traffic.stage?, Circuit.stage?, traffic, hsame]
  unfold beginFlush
  dsimp only
  have flushed := traffic_withRemaining i joined
    (if s.sendOwedAcks.circuit.closeReason = some .transportFault then []
      else s.sendOwedAcks.circuit.queue.flush.1)
    (s.sendOwedAcks.update fun c => { c with queue := s.sendOwedAcks.circuit.queue.flush.2 })
  refine Eq.mp (congrArg _ flushed.symm) ?_
  exact .collect hstill hnone

theorem flushNext_leads {i : AttendantId} {joined : Bool} {o : Outgoing} {rest : List Outgoing}
    (linkUp : Bool) {s : Site} (hs : s.circuit.stage? i = some (.flushing joined (o :: rest))) :
    Leads (Step plain now) s (s.flushNext i now linkUp joined o rest) := by
  obtain ⟨room, destination, ht⟩ := traffic_transmit now linkUp o s
  refine .of_step (transmit_pool linkUp o s) ?_
  unfold flushNext
  dsimp only
  rw [traffic_withRemaining, ht, transmit_sent]
  exact .flush hs

theorem leave_leads {i : AttendantId} {joined : Bool} {s : Site}
    (hs : s.circuit.stage? i = some (.flushing joined [])) (hq : s.circuit.TimersStopped i) :
    Leads (Step plain now) s (s.leave i joined) := by
  have left : Leads (Step plain now) s
      (s.update fun c => { c.withStage i .ended with phase := .closed }) :=
    .of_step rfl (.leave hs hq)
  unfold leave
  cases joined with
  | true => exact left.trans (emit_leads rfl _).called
  | false => exact left

theorem onVerdict_leads {i : AttendantId} (verdict : Verdict) {s : Site}
    (hs : s.circuit.stage? i = some .authenticating) :
    Leads (Step plain now) s (s.onVerdict i verdict) := by
  have refused : Leads (Step plain now) s (s.update fun c => { c.withStage i .ended with
      phase := .closed
      closeReason := some (c.closeReason.getD .authenticationFailed)
      queue := c.queue.close }) := by
    refine .of_step rfl ?_
    have ht : ∀ t : Traffic, t = Traffic.attend i ({ · with stage := .ended }) { s.traffic with
        phase := .closed
        closeReason := some (s.traffic.closeReason.getD .authenticationFailed)
        closed := true } → Traffic.Step plain now s.traffic t := by
      rintro t rfl
      exact .refuse hs
    apply ht
    simp [update, traffic, Circuit.withStage, Circuit.withAttendant, Traffic.attend,
      Queue.close_closed, Queue.close_incoming, Queue.close_outgoing]
  cases verdict with
  | authorized login =>
    unfold onVerdict
    dsimp only
    split
    · next hp => exact .of_step rfl (.authorizeLate hs hp)
    · next hp =>
      have hopen : s.circuit.phase.isEnding = false := by simpa [update] using hp
      refine Leads.trans ?_ (emit_leads (e := .sceneAdd i) rfl _).called
      exact .of_step rfl (.authorize hs hopen)
  | _ => exact refused

/-- Every step but the start of an attendant is traffic. A step that does not look at the clock can
be seen as one at any time. -/
theorem next_leads {e : Event} {conduct : Conduct} (he : e.isStart = false)
    (hn : ∀ time, e.time? = some time → time = now)
    (hp : plain → (Move.step conduct e).LeavesAcks) (s : Site) :
    Leads (Step plain now) s (s.next conduct e).2 := by
  have gives : e.Gives fun p => plain → p.IsPlain := by
    constructor
    · rintro p category rfl
      exact .inr fun h => (hp h).2
    · rintro ids rfl h
      exact (hp h).2.elim
  have performed : Performed (fun p => plain → p.IsPlain) True True conduct s e _ :=
    next_performed (Conduct.gives_plain fun h => (hp h).1) gives s
  generalize (s.next conduct e).2 = u at performed ⊢
  cases performed with
  | start => cases he
  | verdict hs => exact onVerdict_leads _ hs
  | joined hs => exact .of_step rfl (.join hs)
  | serve hs hg =>
    obtain rfl := hn _ rfl
    exact serve_leads hg _ hs
  | finish hs => exact beginFlush_leads hs
  | flush hs =>
    obtain rfl := hn _ rfl
    exact flushNext_leads _ hs
  | leave hs hq => exact leave_leads hs hq
  | ackTick hr =>
    obtain rfl := hn _ rfl
    obtain ⟨a, ha, hr⟩ := Option.map_eq_some_iff.1 hr
    exact ackTick_leads (List.mem_of_getElem? ha) hr
  | silent does =>
    have counted : Leads (Step plain now) s
        (s.update fun c => { c with probeFailures := c.probeFailures + 1 }) := .of_eq rfl rfl
    exact counted.trans does.called
  | stopAckTimer hr =>
    obtain ⟨a, ha, hr⟩ := Option.map_eq_some_iff.1 hr
    exact .of_step rfl (.stopAckTimer ha hr)
  | stopProbeTimer => exact .of_step rfl .stopProbeTimer
  | turnAway => exact (recycle_leads _ s).called
  | accept hopen =>
    refine .of_step rfl ?_
    rw [traffic_emit]
    exact .receive hopen
  | call does => exact does.called
  | idle | heard | settings => exact .of_eq rfl rfl

/-- A move that starts no attendant is traffic. -/
theorem move_leads {m : Move} (hm : m.isStart = false) (s : Site) :
    ∃ now, Leads (Step False now) s (s.move m) := by
  cases m with
  | draw kind => exact ⟨0, fun hs => ⟨(PacketPool.draw_fresh hs kind).2, .refl⟩⟩
  | takeBack p => exact ⟨0, fun hs => ⟨PacketPool.takeBack_sound hs p, .refl⟩⟩
  | step conduct e =>
    refine ⟨e.time?.getD 0, next_leads hm ?_ False.elim s⟩
    intro time ht
    rw [ht]
    rfl

theorem move_start {m : Move} (hm : m.isStart = true) (s : Site) :
    (s.move m).pool = s.pool ∧ (s.move m).traffic = s.traffic.started := by
  cases m with
  | draw | takeBack => cases hm
  | step conduct e =>
    cases e <;> first | exact ⟨rfl, rfl⟩ | cases hm

theorem move_sound (hs : s.pool.Sound) (m : Move) : (s.move m).pool.Sound := by
  cases hm : m.isStart with
  | true => exact (move_start hm s).1 ▸ hs
  | false =>
    obtain ⟨now, led⟩ := move_leads hm s
    exact (led hs).1

theorem follow_sound (hs : s.pool.Sound) (moves : List Move) : (s.follow moves).pool.Sound := by
  induction moves generalizing s with
  | nil => exact hs
  | cons m moves ih => exact ih (move_sound hs m)

theorem history_isPrefix_of_steps {t u : Traffic} (h : ReflTransGen (Step plain now) t u) :
    t.history <+: u.history := by
  induction h with
  | refl => exact List.prefix_rfl
  | tail _ step ih => exact ih.trans step.history_isPrefix

theorem move_history (hs : s.pool.Sound) (m : Move) :
    (s.move m).history = s.history ++ s.told m := by
  have grown : s.traffic.history <+: (s.move m).traffic.history := by
    cases hm : m.isStart with
    | true =>
      rw [(move_start hm s).2]
      exact List.prefix_rfl
    | false =>
      obtain ⟨now, led⟩ := move_leads hm s
      exact history_isPrefix_of_steps (led hs).2
  obtain ⟨l, hl⟩ := grown
  have hmoved : (s.move m).history = s.history ++ l := hl.symm
  rw [told_of_moved rfl hmoved, hmoved]

end Site

variable {plain timed : Prop} {start : Traffic}

theorem Traffic.Reachable.steps {starts clock : Nat} {t u : Traffic}
    (h : Reachable plain timed start starts clock t) (hs : ReflTransGen (Step plain clock) t u) :
    Reachable plain timed start starts clock u := by
  induction hs with
  | refl => exact h
  | tail _ step ih => exact ih.step step

namespace Site

/-- Moves lead from reachable traffic to reachable traffic, with as many attendants as are started
and at the time of the last move. -/
theorem follow_reachable {s : Site} {moves : List Move} {starts clock : Nat} (hpool : s.pool.Sound)
    (h : Traffic.Reachable plain timed start starts clock s.traffic)
    (hp : plain → ∀ m ∈ moves, m.LeavesAcks)
    (ht : timed → (clock :: moves.filterMap Move.time?).Pairwise (· ≤ ·)) :
    ∃ last, Traffic.Reachable plain timed start (starts + moves.countP Move.isStart) last
      (s.follow moves).traffic := by
  induction moves generalizing s starts clock with
  | nil => exact ⟨clock, h⟩
  | cons m moves ih =>
    have hrest : plain → ∀ m ∈ moves, m.LeavesAcks :=
      fun hh k hk => hp hh k (List.mem_cons_of_mem m hk)
    cases m with
    | draw kind => exact ih (PacketPool.draw_fresh hpool kind).2 h hrest ht
    | takeBack p => exact ih (PacketPool.takeBack_sound hpool p) h hrest ht
    | step conduct e =>
      cases he : e.isStart with
      | true =>
        have hcount : (Move.step conduct e :: moves).countP Move.isStart =
            moves.countP Move.isStart + 1 := by simp [Move.isStart, he]
        cases e <;> simp only [Event.isStart, reduceCtorEq] at he
        rw [hcount, ← Nat.add_assoc, Nat.add_right_comm]
        exact ih hpool h.started hrest ht
      | false =>
        have hcount : (Move.step conduct e :: moves).countP Move.isStart =
            moves.countP Move.isStart := by simp [Move.isStart, he]
        rw [hcount]
        obtain ⟨now, hnow, hclock, hlater⟩ : ∃ now, (∀ time, e.time? = some time → time = now) ∧
            (timed → clock ≤ now) ∧
            (timed → (now :: moves.filterMap Move.time?).Pairwise (· ≤ ·)) := by
          cases htime : e.time? with
          | none =>
            have hskip : (Move.step conduct e :: moves).filterMap Move.time? =
                moves.filterMap Move.time? := List.filterMap_cons_none htime
            exact ⟨clock, by simp, fun _ => Nat.le_refl clock, fun h => hskip ▸ ht h⟩
          | some time =>
            have htimes : (Move.step conduct e :: moves).filterMap Move.time? =
                time :: moves.filterMap Move.time? := List.filterMap_cons_some htime
            rw [htimes] at ht
            refine ⟨time, by simp, fun h => ?_, fun h => (List.pairwise_cons.1 (ht h)).2⟩
            exact (List.pairwise_cons.1 (ht h)).1 time List.mem_cons_self
        obtain ⟨hsound, hsteps⟩ := next_leads he hnow
          (fun hh : plain => hp hh _ List.mem_cons_self) s hpool
        exact ih hsound ((h.wait hclock).steps hsteps) hrest hlater

/-- The traffic of a run from a circuit that was just opened. -/
theorem run_reachable (plain timed : Prop) (config : Config) (viewer : Viewer) (remote : Address)
    (since : Nat) {moves : List Move} (hp : plain → ∀ m ∈ moves, m.LeavesAcks)
    (ht : timed → Timely moves) :
    ∃ last, Traffic.Reachable plain timed (opened config viewer remote since).traffic
      (moves.countP Move.isStart) last
      ((opened config viewer remote since).follow moves).traffic := by
  have hpool : (opened config viewer remote since).pool.Sound := PacketPool.empty_sound _ _
  obtain ⟨last, h⟩ := follow_reachable hpool .refl hp
    (fun h => List.pairwise_cons.2 ⟨fun _ _ => Nat.zero_le _, ht h⟩)
  exact ⟨last, by rwa [Nat.zero_add] at h⟩

/-- The traffic of any run, whatever callers send and whenever. -/
theorem follow_traffic (config : Config) (viewer : Viewer) (remote : Address) (since : Nat)
    (moves : List Move) :
    ∃ last, Traffic.Reachable False False (opened config viewer remote since).traffic
      (moves.countP Move.isStart) last
      ((opened config viewer remote since).follow moves).traffic :=
  run_reachable False False config viewer remote since False.elim False.elim

end Site
end ViewerCircuit
