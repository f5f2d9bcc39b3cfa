import Mathlib.Order.Bounds.Defs
import ViewerCircuit.Proofs.AckConservation
import ViewerCircuit.Proofs.DatagramEdits
import ViewerCircuit.Proofs.Liveness

/-!
# Piggybacking

A packet that goes on the wire takes along the oldest of the owed acks, as many as are allowed and
fit behind it, or none at all. The acks that it does not take along wait as before.
-/
namespace ViewerCircuit

namespace OwedAcks

variable {o : OwedAcks}

theorem take_zero (o : OwedAcks) : o.take 0 = ([], o) := by
  simp [take]

theorem take_min (o : OwedAcks) (max : Nat) : o.take (min max o.count) = o.take max := by
  rcases Nat.le_total max o.count with hle | hle
  · rw [Nat.min_eq_left hle]
  · have hlength : o.waiting.length ≤ max := hle
    simp only [take, count, Nat.min_eq_right hlength, List.take_length, List.drop_length,
      List.take_of_length_le hlength, List.drop_eq_nil_of_le hlength]

end OwedAcks

namespace Outgoing

def TravelsAlone (config : Config) (owed : OwedAcks) (o : Outgoing) : Prop :=
  o.delivery = .resend ∨ o.kind ∈ [.packetAck, .logoutRequest, .logoutReply] ∨
    config.appendAckThreshold < owed.count

instance (config : Config) (owed : OwedAcks) (o : Outgoing) :
    Decidable (o.TravelsAlone config owed) :=
  inferInstanceAs (Decidable (_ ∨ _ ∨ _))

structure Bears (config : Config) (owed : OwedAcks) (o : Outgoing) (n : Nat) : Prop where
  configured : n ≤ config.maxAppendedAcks
  owed : n ≤ owed.count
  room : n = 0 ∨ o.bytes.length + (n * ackLength + 1) ≤ config.maxPacketSize

def load (config : Config) (owed : OwedAcks) (o : Outgoing) : Nat :=
  if o.TravelsAlone config owed then 0
  else min (min config.maxAppendedAcks (Site.ackRoom config.maxPacketSize o.bytes.length))
    owed.count

end Outgoing

section

variable {config : Config} {owed : OwedAcks} {o : Outgoing}

theorem Site.le_ackRoom {n maxPacketSize length : Nat} : n ≤ ackRoom maxPacketSize length ↔
    n = 0 ∨ length + (n * ackLength + 1) ≤ maxPacketSize := by
  unfold ackRoom ackLength
  omega

theorem Outgoing.load_most (h : ¬ o.TravelsAlone config owed) :
    IsGreatest {n | o.Bears config owed n} (o.load config owed) := by
  rw [load, if_neg h]
  constructor
  · refine ⟨?_, Nat.min_le_right _ _, Site.le_ackRoom.1 ?_⟩
    · exact (Nat.min_le_left _ _).trans (Nat.min_le_left _ _)
    · exact (Nat.min_le_left _ _).trans (Nat.min_le_right _ _)
  · intro n bears
    exact Nat.le_min.2 ⟨Nat.le_min.2 ⟨bears.configured, Site.le_ackRoom.2 bears.room⟩, bears.owed⟩

theorem Outgoing.load_bears (config : Config) (owed : OwedAcks) (o : Outgoing) :
    o.Bears config owed (o.load config owed) := by
  by_cases h : o.TravelsAlone config owed
  · rw [load, if_pos h]
    exact ⟨Nat.zero_le _, Nat.zero_le _, .inl rfl⟩
  · exact (load_most h).1

theorem OwedAcks.refusesAcks_iff {kind : MessageKind} :
    refusesAcks kind = true ↔ kind ∈ [.packetAck, .logoutRequest, .logoutReply] := by
  simp [refusesAcks, or_assoc]

theorem OwedAcks.piggyback_load (hm : owed.maxAppended = config.maxAppendedAcks)
    (ht : owed.appendThreshold = config.appendAckThreshold) :
    (if o.delivery = .resend then ([], owed) else
      owed.piggyback o.kind (Site.ackRoom config.maxPacketSize o.bytes.length)) =
      owed.take (o.load config owed) := by
  by_cases h : o.TravelsAlone config owed
  · -- Each of the reasons to travel alone is a branch of its own, and all of them take nothing.
    rw [Outgoing.load, if_pos h, take_zero]
    rcases h with hd | hk | hc
    · rw [if_pos hd]
    · rw [piggyback, if_pos (refusesAcks_iff.2 hk), ite_self]
    · rw [← ht] at hc
      rw [piggyback, if_pos hc, ite_self, ite_self]
  · obtain ⟨hd, hk, hc⟩ : o.delivery ≠ .resend ∧ refusesAcks o.kind = false ∧
        ¬ owed.appendThreshold < owed.count := by
      rw [Outgoing.TravelsAlone, ← refusesAcks_iff, ← ht] at h
      simpa only [not_or, Bool.not_eq_true] using h
    rw [Outgoing.load, if_neg h, take_min, if_neg hd, piggyback, hk, if_neg Bool.false_ne_true,
      if_neg hc, hm]

theorem AckState.depart_load {a : AckState} {n : Nat} {datagram : Bytes} (now : Nat)
    (hm : a.owed.maxAppended = config.maxAppendedAcks)
    (ht : a.owed.appendThreshold = config.appendAckThreshold) (hn : o.load config a.owed = n)
    (hw : Datagram.withAcks o.bytes (a.owed.waiting.take n) = .ok datagram) :
    (a.depart now (Site.ackRoom config.maxPacketSize o.bytes.length) o).1 = datagram ∧
      (a.depart now (Site.ackRoom config.maxPacketSize o.bytes.length) o).2.owed =
        (a.owed.take n).2 := by
  have hacks : (a.owed.take n).1 = a.owed.waiting.take n := rfl
  simp only [depart, OwedAcks.piggyback_load hm ht, hn, hacks, hw, Except.toOption,
    Option.getD_some, and_self]

end

namespace Site

variable {s : Site} {o : Outgoing}

/-- The packet `o` goes on the wire as this datagram, with the `n` oldest of the owed acks. -/
structure Sends (now : Nat) (linkUp : Bool) (o : Outgoing) (s : Site) (n : Nat) (datagram : Bytes) :
    Prop where
  sent : (s.transmit now linkUp o).2.history =
    s.history ++ [.transmitted s.circuit.sendAddress datagram o linkUp]
  written : n = 0 ∧ datagram = o.bytes ∨
    1 ≤ n ∧ n ≤ s.circuit.config.maxAppendedAcks ∧ n ≤ s.circuit.ackState.owed.count ∧
      (UInt8.ofNat n).toNat = n ∧
      datagram = Datagram.setFlag Flags.appendedAcksBit o.bytes ++
        ((s.circuit.ackState.owed.waiting.take n).flatMap (fun id => bigEndian ackLength id.toNat) ++
          [UInt8.ofNat n])
  fits : o.bytes.length ≤ s.circuit.config.maxPacketSize →
    datagram.length ≤ s.circuit.config.maxPacketSize
  alone : o.TravelsAlone s.circuit.config s.circuit.ackState.owed → n = 0
  most : ¬ o.TravelsAlone s.circuit.config s.circuit.ackState.owed →
    IsGreatest {k | o.Bears s.circuit.config s.circuit.ackState.owed k} n
  left : (s.transmit now linkUp o).2.circuit.ackState.owed.waiting =
    s.circuit.ackState.owed.waiting.drop n
  members : ∀ id, id ∈ (s.transmit now linkUp o).2.circuit.ackState.owed.members ↔
    id ∈ s.circuit.ackState.owed.waiting.drop n
  reads : ∀ q, Packet.decode o.bytes = .ok q → Packet.decode datagram = .ok { q with
    acks := s.circuit.ackState.owed.waiting.take n, flags.appendedAcks := decide (0 < n) }

theorem transmit_ackState (now : Nat) (linkUp : Bool) (o : Outgoing) (s : Site) :
    (s.transmit now linkUp o).2.circuit.ackState = (s.circuit.ackState.depart now
      (ackRoom s.circuit.config.maxPacketSize o.bytes.length) o).2 := by
  cases linkUp <;> rfl

/-- A packet that was queued without acks goes on the wire with as many as it may, and nothing else
about it changes. -/
theorem transmit_sends (hc : s.circuit.config.Valid)
    (ho : s.circuit.ackState.owed.Reached s.circuit.config) {p : Packet} (hp : p.acks = [])
    (he : p.encode = .ok o.bytes) (now : Nat) (linkUp : Bool) :
    ∃ n datagram, s.Sends now linkUp o n datagram := by
  have bears := o.load_bears s.circuit.config s.circuit.ackState.owed
  obtain ⟨n, hn⟩ : ∃ n, o.load s.circuit.config s.circuit.ackState.owed = n := ⟨_, rfl⟩
  rw [hn] at bears
  have hlength : (s.circuit.ackState.owed.waiting.take n).length = n :=
    List.length_take_of_le bears.owed
  have hsmall : n ≤ 255 := bears.configured.trans hc.maxAppendedAcks_le
  obtain ⟨datagram, hw, -⟩ := Packet.encode_withAcks hp he (hlength.trans_le hsmall)
  obtain ⟨departs, remains⟩ :=
    AckState.depart_load (o := o) now ho.settings.2 ho.settings.1 hn hw
  -- What was written is known by the acks that were taken; it is wanted by their number.
  have written := Datagram.eq_of_withAcks (hlength.trans_le hsmall) hw
  rw [← List.length_eq_zero_iff, hlength] at written
  refine ⟨n, datagram, ?_, ?_, ?_, ?_, ?_, ?_, ?_, ?_⟩
  · rw [transmit_history, departs]
  · refine written.imp_right fun ⟨hpos, hdatagram⟩ =>
      ⟨hpos, bears.configured, bears.owed, ?_, hdatagram⟩
    simp [Nat.mod_eq_of_lt (Nat.lt_succ_of_le hsmall)]
  · intro hfits
    rcases written with ⟨-, rfl⟩ | ⟨hpos, rfl⟩
    · exact hfits
    · have room := bears.room.resolve_left hpos.ne'
      rwa [List.length_append, List.length_append, Packet.length_written, hlength,
        Datagram.length_setFlag]
  · intro alone
    rw [← hn, Outgoing.load, if_pos alone]
  · intro free
    exact hn ▸ Outgoing.load_most free
  · rw [transmit_ackState, remains]
    rfl
  · intro id
    rw [transmit_ackState, remains]
    exact (ho.consistent.take n).mem_iff id
  · intro q hd
    have hsome : (!(s.circuit.ackState.owed.waiting.take n).isEmpty) = decide (0 < n) := by
      rw [Bool.eq_iff_iff, decide_eq_true_iff, ← hlength, List.length_pos_iff]
      simp
    rw [← hsome]
    exact Packet.decode_withAcks (bare_of_encode hp he) hd (hlength.trans_le hsmall) hw

/-- A packet behind which there is room for one ack, where datagrams have a hundred bytes. -/
def snugPacket : Packet where
  sequence := 9
  message := .unknown ⟨.low 300, List.replicate 85 1⟩

def snugOutgoing : Outgoing :=
  .ofPacket snugPacket ([0, 0, 0, 0, 9, 0, 0xFF, 0xFF, 1, 44] ++ List.replicate 85 1) .task

def owingTwo : Site :=
  (opened narrow ⟨.zero, .zero, 1⟩ (.v4 .unspecified 1) 0).follow
    [.step {} .start, .step {} (.authenticated 0 (.authorized none)), .step {} (.joined 0),
     .step {} (.receive { Packet.reliable (.completePingCheck { pingId := 1 }) with sequence := 7 }),
     .step {} (.receive { Packet.reliable (.completePingCheck { pingId := 1 }) with sequence := 8 }),
     .step {} (.serve 0 1 true), .step {} (.serve 0 2 true)]

theorem transmit_sends_snugPacket : owingTwo.circuit.config.Valid ∧
    owingTwo.circuit.ackState.owed.Reached owingTwo.circuit.config ∧
    snugPacket.acks = [] ∧ snugPacket.encode = .ok snugOutgoing.bytes ∧
    (∃ n datagram, owingTwo.Sends 3 true snugOutgoing n datagram) ∧
    owingTwo.circuit.ackState.owed.waiting = [7, 8] ∧
    (owingTwo.transmit 3 true snugOutgoing).2.circuit.ackState.owed.waiting = [8] := by
  have hconfig : owingTwo.circuit.config = narrow := follow_config _ _ _ _ _
  have hc : owingTwo.circuit.config.Valid := hconfig ▸ narrow_valid
  have ho : owingTwo.circuit.ackState.owed.Reached owingTwo.circuit.config :=
    hconfig ▸ follow_owed narrow _ _ _ _
  have he : snugPacket.encode = .ok snugOutgoing.bytes := by decide +kernel
  exact ⟨hc, ho, rfl, he, transmit_sends hc ho rfl he 3 true, by decide +kernel,
    by decide +kernel⟩

end Site
end ViewerCircuit
