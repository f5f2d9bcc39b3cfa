import Mathlib.Data.List.Induction
import ViewerCircuit.Proofs.InFlightMoves

/-!
# Retransmissions

What is sent for an unacked packet is the datagram that was queued for it first, with the resent
flag. The acks that the packet took along on its first way leave no trace in it, and neither does an
earlier retransmission; and it leaves none itself.
-/
namespace ViewerCircuit

/-- The resent flag is no part of the number. -/
theorem Datagram.sequence_asResent (raw : Bytes) : sequence? (asResent raw) = sequence? raw := by
  rcases raw with _ | ⟨flags, _ | ⟨a, _ | ⟨b, _ | ⟨c, _ | ⟨d, rest⟩⟩⟩⟩⟩ <;> rfl

namespace Site

open Traffic (Turn)

variable {s : Site} {moves : List Move} {m : Move} {o q : Outgoing}

/-- After the moves, the record under the number `id` is the one that was made when `q` was sent,
and was there ever since. -/
def Records (s : Site) (moves : List Move) (id : UInt32) (q : Outgoing) : Prop :=
  ∃ before m later destination datagram linkUp, moves = before ++ m :: later ∧
    .transmitted destination datagram q linkUp ∈ (s.follow before).told m ∧
    q.delivery = .reliable ∧ q.sequence = id ∧
    (s.follow before).circuit.ackState.inFlight.contains id = false ∧
    ∀ early, early <+: later →
      (s.follow (before ++ m :: early)).circuit.ackState.inFlight.contains id = true

/-- The copy was made from the record of `q`, which was queued before. -/
def Copied (s : Site) (moves : List Move) (o q : Outgoing) : Prop :=
  ∃ before tick between, moves = before ++ tick :: between ∧
    .requeued o ∈ (s.follow before).told tick ∧ s.Records before o.sequence q ∧
    .queued q ∈ (s.follow before).history

theorem Records.later {id : UInt32} (h : s.Records moves id q)
    (hc : (s.follow (moves ++ [m])).circuit.ackState.inFlight.contains id = true) :
    s.Records (moves ++ [m]) id q := by
  obtain ⟨before, n, later, destination, datagram, linkUp, rfl, ht, hd, hs, hnew, hkept⟩ := h
  refine ⟨before, n, later ++ [m], destination, datagram, linkUp, by simp, ht, hd, hs, hnew, ?_⟩
  intro early hearly
  rcases List.prefix_concat_iff.1 hearly with rfl | hearly
  · simpa using hc
  · exact hkept early hearly

theorem Copied.later (h : s.Copied moves o q) (m : Move) : s.Copied (moves ++ [m]) o q := by
  obtain ⟨before, tick, between, rfl, ht, hr, hq⟩ := h
  exact ⟨before, tick, between ++ [m], by simp, ht, hr, hq⟩

structure Faithful (s : Site) (moves : List Move) : Prop where
  inFlight : ∀ e ∈ (s.follow moves).circuit.ackState.inFlight.kept, ∃ q,
    s.Records moves e.1 q ∧ .queued q ∈ (s.follow moves).history ∧
      (e.2.bytes = q.bytes ∨ e.2.bytes = Datagram.asResent q.bytes)
  copied : ∀ o, .requeued o ∈ (s.follow moves).history → o.delivery = .resend ∧
    ∃ q, s.Copied moves o q ∧ q.Written ∧ o.bytes = Datagram.asResent q.bytes
  written : ∀ o, .queued o ∈ (s.follow moves).history → o.Written

/-- A record that a move leaves was there before, or belongs to a packet that the move sent. -/
def Recorded (s : Site) (moves : List Move) (m : Move) (e : UInt32 × KeptPacket) : Prop :=
  (∃ d ∈ (s.follow moves).circuit.ackState.inFlight.kept, d.1 = e.1 ∧
    (e.2.bytes = d.2.bytes ∨ e.2.bytes = Datagram.asResent d.2.bytes)) ∨
  ∃ q destination datagram linkUp,
    .transmitted destination datagram q linkUp ∈ (s.follow moves).told m ∧
    .queued q ∈ (s.follow moves).history ∧ q.delivery = .reliable ∧ q.sequence = e.1 ∧
    (s.follow moves).circuit.ackState.inFlight.contains e.1 = false ∧ e.2.bytes = q.bytes

theorem Faithful.record {e : UInt32 × KeptPacket} (h : s.Faithful moves)
    (he : e ∈ (s.follow (moves ++ [m])).circuit.ackState.inFlight.kept)
    (hh : ∀ d ∈ (s.follow moves).history, d ∈ (s.follow (moves ++ [m])).history)
    (hr : s.Recorded moves m e) : ∃ q, s.Records (moves ++ [m]) e.1 q ∧
      .queued q ∈ (s.follow (moves ++ [m])).history ∧
      (e.2.bytes = q.bytes ∨ e.2.bytes = Datagram.asResent q.bytes) := by
  have hcontains : (s.follow (moves ++ [m])).circuit.ackState.inFlight.contains e.1 = true :=
    Table.contains_of_mem he
  rcases hr with ⟨d, hd, hsame, hbytes⟩ |
    ⟨q, destination, datagram, linkUp, ht, hq, hd, hs, hnew, hb⟩
  · obtain ⟨q, hrecords, hq, hold⟩ := h.inFlight d hd
    refine ⟨q, Records.later (hsame ▸ hrecords) hcontains, hh _ hq, ?_⟩
    rcases hbytes with hbytes | hbytes <;> rcases hold with hold | hold
    · exact .inl (hbytes.trans hold)
    · exact .inr (hbytes.trans hold)
    · exact .inr (by rw [hbytes, hold])
    · exact .inr (by rw [hbytes, hold, Datagram.asResent_asResent])
  · refine ⟨q, ⟨moves, m, [], destination, datagram, linkUp, rfl, ht, hd, hs, hnew, ?_⟩, hh _ hq,
      .inl hb⟩
    intro early hearly
    rw [List.prefix_nil.1 hearly]
    exact hcontains

theorem Faithful.step (h : s.Faithful moves)
    (hh : (s.follow (moves ++ [m])).history = (s.follow moves).history ++ (s.follow moves).told m)
    (hq : ∀ o, .queued o ∈ (s.follow moves).told m → o.Written)
    (hr : ∀ o, .requeued o ∈ (s.follow moves).told m → o.delivery = .resend ∧
      ∃ e ∈ (s.follow moves).circuit.ackState.inFlight.kept,
        o.sequence = e.1 ∧ o.bytes = Datagram.asResent e.2.bytes)
    (hk : ∀ e ∈ (s.follow (moves ++ [m])).circuit.ackState.inFlight.kept, s.Recorded moves m e) :
    s.Faithful (moves ++ [m]) := by
  have hlater : ∀ d ∈ (s.follow moves).history, d ∈ (s.follow (moves ++ [m])).history :=
    fun d hd => hh ▸ List.mem_append_left _ hd
  refine ⟨fun e he => h.record he hlater (hk e he), fun o ho => ?_, fun o ho => ?_⟩
  · rw [hh] at ho
    rcases List.mem_append.1 ho with ho | ho
    · obtain ⟨hd, q, hcopied, hw, hb⟩ := h.copied o ho
      exact ⟨hd, q, hcopied.later m, hw, hb⟩
    · obtain ⟨hd, e, he, hs, hb⟩ := hr o ho
      obtain ⟨q, hrecords, hq, hold⟩ := h.inFlight e he
      refine ⟨hd, q, ⟨moves, m, [], rfl, ho, hs ▸ hrecords, hq⟩, h.written q hq, ?_⟩
      rcases hold with hold | hold
      · rw [hb, hold]
      · rw [hb, hold, Datagram.asResent_asResent]
  · rw [hh] at ho
    rcases List.mem_append.1 ho with ho | ho
    · exact h.written o ho
    · exact hq o ho

theorem Faithful.move (h : s.Faithful moves) (hb : m.SendsBare)
    (hpool : (s.follow moves).pool.Sound) (hbalanced : (s.follow moves).traffic.Balanced) :
    s.Faithful (moves ++ [m]) := by
  obtain ⟨hh, turn⟩ := move_turns (fun _ : True => hb) hpool
  rw [← follow_snoc] at hh turn
  refine h.step hh (fun o ho => turn.written ho) (fun o ho => ?_) fun e he => ?_
  · obtain ⟨now, r, hr, rfl⟩ := turn.copied ho
    obtain ⟨p, hp, -, -, hbytes⟩ := InFlight.mem_retransmit_iff.1 hr
    exact ⟨rfl, (r.sequence, p), hp, rfl, hbytes⟩
  · rcases turn.kept he with
      hold | ⟨q, destination, datagram, linkUp, ht, hheld, hd, hs, hnew, hbytes⟩
    · exact .inl hold
    · -- A record is never made from a copy, which has another delivery.
      have hq : .queued q ∈ (s.follow moves).history := by
        refine (hbalanced.enqueued_of_held hheld).resolve_right fun hcopy => ?_
        have hresend := (h.copied q hcopy).1
        rw [hd] at hresend
        cases hresend
      exact .inr ⟨q, destination, datagram, linkUp, ht, hq, hd, hs, hnew, hbytes⟩

/-- What is promised of a datagram that `m` hands to the transport after `moves`, for a copy `o`.
The copy was made from the record of a packet that was queued as its caller gave it, and only the
resent flag is new. Neither a record nor an ack that waits is touched. -/
structure Resent (s : Site) (moves : List Move) (m : Move) (o : Outgoing) (datagram : Bytes) :
    Prop where
  source : ∃ q p, s.Copied moves o q ∧ p.encode = .ok q.bytes ∧ p.acks = [] ∧
    q = .ofPacket p q.bytes q.category ∧ p.sequence = o.sequence ∧
    ∃ flags rest, q.bytes = flags :: rest ∧ datagram = (flags ||| Flags.resentBit) :: rest
  sequence : Datagram.sequence? datagram = some o.sequence
  appended : Datagram.appended datagram = []
  silent : ((s.follow moves).move m).circuit.ackState = (s.follow moves).circuit.ackState

theorem Faithful.resent {destination : Address} {datagram : Bytes} {linkUp : Bool}
    (h : s.Faithful moves) (hb : m.SendsBare) (hpool : (s.follow moves).pool.Sound)
    (hbalanced : (s.follow moves).traffic.Balanced) (hd : o.delivery = .resend)
    (ht : .transmitted destination datagram o linkUp ∈ (s.follow moves).told m) :
    s.Resent moves m o datagram := by
  obtain ⟨-, turn⟩ := move_turns (fun _ : True => hb) hpool
  obtain ⟨hheld, now, room, rfl, ha⟩ := turn.sent ht
  have hstate : ((s.follow moves).traffic.ackState.depart now room o).2 =
      (s.follow moves).traffic.ackState := by
    simp [AckState.depart, hd]
  have hcopy : .requeued o ∈ (s.follow moves).history := by
    refine (hbalanced.enqueued_of_held hheld).resolve_left fun hq => ?_
    obtain ⟨q, -, -, ho⟩ := h.written o hq
    exact delivery_ofPacket q o.bytes o.category (ho ▸ hd)
  obtain ⟨-, q, hcopied, ⟨p, hacks, he, hp⟩, hbytes⟩ := h.copied o hcopy
  have hsequence : p.sequence = o.sequence := by
    obtain ⟨-, -, -, -, -, ⟨-, -, -, -, -, -, -, -, -, hs, -⟩, -⟩ := hcopied
    rw [← hs, hp]
    rfl
  have hdatagram : ((s.follow moves).traffic.ackState.depart now room o).1 =
      Datagram.asResent q.bytes := by
    rw [AckState.depart_alone now room (.inl hd), hbytes]
  rw [hdatagram]
  refine ⟨⟨q, p, hcopied, he, hacks, hp, hsequence, ?_⟩, ?_, ?_, ha.trans hstate⟩
  · obtain ⟨rest, hq, -⟩ := Packet.encode_head he
    exact ⟨_, _, hq, by rw [hq]; rfl⟩
  · rw [Datagram.sequence_asResent, Packet.sequence_of_encode he, hsequence]
  · exact Datagram.appended_bare (bare_of_encode hacks he).asResent

theorem opened_faithful (config : Config) (viewer : Viewer) (remote : Address) (since : Nat) :
    (opened config viewer remote since).Faithful [] :=
  ⟨fun _ he => (List.not_mem_nil he).elim, fun _ ho => (List.not_mem_nil ho).elim,
    fun _ ho => (List.not_mem_nil ho).elim⟩

theorem follow_faithful (config : Config) (viewer : Viewer) (remote : Address) (since : Nat)
    {moves : List Move} (hb : ∀ m ∈ moves, m.SendsBare) :
    (opened config viewer remote since).Faithful moves := by
  induction moves using List.reverseRecOn with
  | nil => exact opened_faithful config viewer remote since
  | append_singleton moves m ih =>
    have earlier := ih fun n hn => hb n (List.mem_append_left _ hn)
    exact earlier.move (hb m (List.mem_append_right _ (List.mem_singleton_self m)))
      (follow_sound (PacketPool.empty_sound _ _) moves) (follow_balanced _ _ _ _ moves)

/-- In every run in which callers and handlers hand over packets without acks, every retransmission
is the datagram that was queued first, with the resent flag. -/
theorem follow_resends (config : Config) (viewer : Viewer) (remote : Address) (since : Nat)
    {moves : List Move} {m : Move} (hb : ∀ n ∈ moves, n.SendsBare) (hm : m.SendsBare)
    {destination : Address} {datagram : Bytes} {o : Outgoing} {linkUp : Bool}
    (ht : .transmitted destination datagram o linkUp ∈
      ((opened config viewer remote since).follow moves).told m) (hd : o.delivery = .resend) :
    (opened config viewer remote since).Resent moves m o datagram :=
  (follow_faithful config viewer remote since hb).resent hm
    (follow_sound (PacketPool.empty_sound _ _) moves) (follow_balanced _ _ _ _ moves) hd ht

def unackedMoves : List Move :=
  [.step {} .start, .step {} (.authenticated 0 (.authorized none)), .step {} (.joined 0),
   .step {} (.receive { Packet.reliable (.completePingCheck { pingId := 1 }) with sequence := 7 }),
   .step {} (.serve 0 (1 * Time.second) true),
   .step {} (.send (.reliable (.alertMessage { message := "a" })) .task),
   .step {} (.serve 0 (1 * Time.second) true), .step {} (.ackTick 0 (6 * Time.second)),
   .step {} (.serve 0 (6 * Time.second) true), .step {} (.ackTick 0 (11 * Time.second))]

def alertCopy : Outgoing where
  bytes := [0x60, 0, 0, 0, 1, 0, 0xFF, 0xFF, 0, 0x86, 2, 0x61, 0]
  kind := .alertMessage
  sequence := 1
  delivery := .resend
  category := .resend

/-- Also the second retransmission has nothing of the ack that went along first. -/
theorem unacked_alert_resent : (∀ n ∈ unackedMoves, n.SendsBare) ∧
    .transmitted (.v4 .unspecified 1) ([0x50, 0, 0, 0, 1, 0, 0xFF, 0xFF, 0, 0x86, 2, 0x61, 0] ++
      [0, 0, 0, 7, 1]) { alertCopy with
        bytes := [0x40, 0, 0, 0, 1, 0, 0xFF, 0xFF, 0, 0x86, 2, 0x61, 0]
        delivery := .reliable
        category := .task } true ∈ (sample.follow unackedMoves).history ∧
    .transmitted (.v4 .unspecified 1) alertCopy.bytes alertCopy true ∈
      (sample.follow unackedMoves).told (.step {} (.serve 0 (11 * Time.second) true)) ∧
    sample.Resent unackedMoves (.step {} (.serve 0 (11 * Time.second) true)) alertCopy
      alertCopy.bytes := by
  have hb : ∀ n ∈ unackedMoves, n.SendsBare := by
    simp [unackedMoves, Move.SendsBare, Event.SendsBare, Packet.reliable, Packet.withReliable,
      Packet.ofMessage]
  have ht : .transmitted (.v4 .unspecified 1) alertCopy.bytes alertCopy true ∈
      (sample.follow unackedMoves).told (.step {} (.serve 0 (11 * Time.second) true)) := by
    decide +kernel
  have hm : (Move.step {} (.serve 0 (11 * Time.second) true)).SendsBare :=
    ⟨Conduct.idle_keepsTo _, trivial⟩
  exact ⟨hb, by decide +kernel, ht, follow_resends _ _ _ _ hb hm ht rfl⟩

end Site
end ViewerCircuit
