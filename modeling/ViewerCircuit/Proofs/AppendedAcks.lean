import ViewerCircuit.Proofs.AckBookkeeping
import ViewerCircuit.Proofs.PacketArrival

/-!
# Appended acks

Acks are appended to a datagram without reading it, and read off it from its end. What a departing
packet takes along is exactly what no longer waits, and the copy that is kept for retransmission has
no part in it.
-/
namespace ViewerCircuit

namespace Flags

theorem or_and_distrib (a b c : UInt8) : (a ||| b) &&& c = a &&& c ||| b &&& c := by
  rw [← UInt8.toBitVec_inj]
  ext i hi
  simp [Bool.and_or_distrib_right]

/-- Setting one flag leaves the others as they are. -/
theorem ofByte_setAcks (b : UInt8) :
    ofByte (b ||| appendedAcksBit) = { ofByte b with appendedAcks := true } := by
  have hz : appendedAcksBit &&& zeroCodedBit = 0 := by decide
  have hr : appendedAcksBit &&& reliableBit = 0 := by decide
  have hs : appendedAcksBit &&& resentBit = 0 := by decide
  have ha : appendedAcksBit &&& appendedAcksBit = 0x10 := by decide
  simp [ofByte, or_and_distrib, hz, hr, hs, ha]

theorem ofByte_setResent (b : UInt8) :
    ofByte (b ||| resentBit) = { ofByte b with resent := true } := by
  have hz : resentBit &&& zeroCodedBit = 0 := by decide
  have hr : resentBit &&& reliableBit = 0 := by decide
  have hs : resentBit &&& resentBit = 0x20 := by decide
  have ha : resentBit &&& appendedAcksBit = 0 := by decide
  simp [ofByte, or_and_distrib, hz, hr, hs, ha]

end Flags

namespace Datagram

def appended : Bytes → List UInt32
  | [] => []
  | flags :: rest =>
    match Packet.splitAcks (Flags.ofByte flags).appendedAcks rest with
    | .ok (_, acks) => acks
    | .error _ => []

variable {raw : Bytes}

theorem appended_bare (h : IsBare raw) : appended raw = [] := by
  obtain ⟨flags, rest, rfl, -, hf⟩ := h
  simp [appended, hf, Packet.splitAcks]

theorem IsBare.asResent (h : IsBare raw) : IsBare (asResent raw) := by
  obtain ⟨flags, rest, rfl, hr, hf⟩ := h
  exact ⟨_, rest, rfl, hr, by rw [Flags.ofByte_setResent]; exact hf⟩

/-- Acks that were appended are read off again. -/
theorem appended_withAcks (h : IsBare raw) {acks : List UInt32} (hl : acks.length ≤ 255) :
    ∃ datagram, withAcks raw acks = .ok datagram ∧ appended datagram = acks := by
  by_cases hne : acks = []
  · subst hne
    exact ⟨raw, rfl, appended_bare h⟩
  · obtain ⟨flags, rest, rfl, hr, -⟩ := h
    obtain ⟨tail, ht, hs⟩ := Packet.splitAcks_append hr hl
    have hsome : (!acks.isEmpty) = true := by simpa using hne
    rw [hsome] at hs
    refine ⟨(flags ||| Flags.appendedAcksBit) :: rest ++ tail, ?_, ?_⟩
    · simp [withAcks, hne, ht, setFlag, bind, Except.bind, pure, Except.pure]
    · simp [appended, Flags.ofByte_setAcks, hs]

end Datagram

namespace OwedAcks

variable {o : OwedAcks}

/-- An accepted ack waits behind the others. -/
theorem accept_waiting (sequence : UInt32) : (o.accept sequence).2.waiting =
    o.waiting ++ if (o.accept sequence).1 then [sequence] else [] := by
  unfold accept
  split
  · simp
  · split <;> simp

theorem take_waiting (max : Nat) : (o.take max).1 ++ (o.take max).2.waiting = o.waiting :=
  List.take_append_drop max o.waiting

theorem piggyback_waiting (kind : MessageKind) (room : Nat) :
    (o.piggyback kind room).1 ++ (o.piggyback kind room).2.waiting = o.waiting := by
  unfold piggyback
  split
  · rfl
  · split
    · rfl
    · exact take_waiting _

theorem length_piggyback (kind : MessageKind) (room : Nat) :
    (o.piggyback kind room).1.length ≤ o.maxAppended := by
  unfold piggyback
  split
  · exact Nat.zero_le _
  · split
    · exact Nat.zero_le _
    · exact (List.length_take_le _ _).trans (Nat.min_le_left _ _)

end OwedAcks

namespace AckState

variable {a : AckState} {o : Outgoing}

/-- Retransmissions and packets that hold acks anyway go on the wire as they are. -/
theorem depart_alone (now room : Nat) (h : o.delivery = .resend ∨ o.kind = .packetAck) :
    (a.depart now room o).1 = o.bytes := by
  unfold depart
  dsimp only
  split
  · rfl
  · next hd =>
    have hk : o.kind = .packetAck := h.resolve_left hd
    simp [OwedAcks.piggyback, OwedAcks.refusesAcks, hk, Datagram.withAcks, pure, Except.pure,
      Except.toOption]

/-- The acks behind the datagram are those that no longer wait. -/
theorem depart_waiting (now room : Nat) (hb : Datagram.IsBare o.bytes)
    (hm : a.owed.maxAppended ≤ 255) :
    Datagram.appended (a.depart now room o).1 ++ (a.depart now room o).2.owed.waiting =
      a.owed.waiting := by
  by_cases hd : o.delivery = .resend
  · rw [depart_alone now room (.inl hd), depart_owed, if_pos hd, Datagram.appended_bare hb,
      List.nil_append]
  · obtain ⟨datagram, hw, hacks⟩ := Datagram.appended_withAcks hb
      ((OwedAcks.length_piggyback o.kind room).trans hm)
    have hbytes : (a.depart now room o).1 = datagram := by
      unfold depart
      rw [if_neg hd]
      simp only [hw, Except.toOption, Option.getD_some]
    rw [hbytes, depart_owed, if_neg hd, hacks]
    exact OwedAcks.piggyback_waiting o.kind room

theorem depart_maxAppended (now room : Nat) :
    (a.depart now room o).2.owed.maxAppended = a.owed.maxAppended := by
  rw [depart_owed]
  split
  · rfl
  · exact (OwedAcks.Used.piggyback a.owed o.kind room).settings.2

/-- A packet is kept without the acks that it took along. -/
theorem kept_of_depart {now room : Nat} {e : UInt32 × KeptPacket}
    (h : e ∈ (a.depart now room o).2.inFlight.kept) :
    e ∈ a.inFlight.kept ∨ o.delivery = .reliable ∧ a.inFlight.contains o.sequence = false ∧
      e = (o.sequence, ⟨o.kind, o.bytes, o.category, now, 0⟩) := by
  unfold depart at h
  dsimp only at h
  split at h
  · next hd => exact (InFlight.kept_of_track h).imp_right fun hsame => ⟨hd, hsame⟩
  · exact .inl h

/-- The viewer is owed an ack for exactly the packets whose number begins to wait. -/
theorem arrive_waiting (p : Packet) : (a.arrive p).2.owed.waiting =
    a.owed.waiting ++ if (a.arrive p).1 then [p.sequence] else [] := by
  by_cases hr : p.flags.reliable = true
  · have howes : (a.arrive p).1 = (a.owed.accept p.sequence).1 := by
      simp [arrive, hr, acked]
    rw [arrive_owed, if_pos hr, howes]
    exact OwedAcks.accept_waiting p.sequence
  · have howes : (a.arrive p).1 = false := by simp [arrive, hr]
    rw [arrive_owed, if_neg hr, howes]
    exact (List.append_nil _).symm

theorem kept_of_acked {sequences : List UInt32} {e : UInt32 × KeptPacket}
    (h : e ∈ (a.acked sequences).inFlight.kept) : e ∈ a.inFlight.kept ∧ e.1 ∉ sequences := by
  induction sequences generalizing a with
  | nil => exact ⟨h, List.not_mem_nil⟩
  | cons sequence sequences ih =>
    rw [acked_cons] at h
    obtain ⟨hk, hrest⟩ := ih h
    obtain ⟨hk, hfirst⟩ := InFlight.kept_of_remove hk
    refine ⟨hk, fun hm => ?_⟩
    rcases List.mem_cons.1 hm with hm | hm
    · exact hfirst hm
    · exact hrest hm

end AckState

end ViewerCircuit
