import ViewerCircuit.Proofs.AppendedAcks
import ViewerCircuit.Proofs.CallTraffic

/-!
# Edits of a datagram

A circuit writes a packet once. Acks that go along, and the mark of a retransmission, are put into
the datagram that is there. What comes out is the datagram of the packet with these acks and this
mark, and it reads as the packet did, with them.
-/
namespace ViewerCircuit

namespace Flags

theorem toByte_setAcks (f : Flags) :
    { f with appendedAcks := true }.toByte = f.toByte ||| appendedAcksBit := by
  rcases f with ⟨_ | _, _ | _, _ | _, _ | _⟩ <;> decide

theorem toByte_setResent (f : Flags) :
    { f with resent := true }.toByte = f.toByte ||| resentBit := by
  rcases f with ⟨_ | _, _ | _, _ | _, _ | _⟩ <;> decide

end Flags

namespace Datagram

variable {raw datagram : Bytes} {acks : List UInt32}

theorem withAcks_nil (raw : Bytes) : withAcks raw [] = .ok raw := rfl

theorem withAcks_of_tail {tail : Bytes} (hne : acks ≠ []) (ht : Packet.ackTail acks = .ok tail) :
    withAcks raw acks = .ok (setFlag Flags.appendedAcksBit raw ++ tail) := by
  simp [withAcks, hne, ht, bind, Except.bind, pure, Except.pure]

theorem eq_of_withAcks (ha : acks.length ≤ 255) (hw : withAcks raw acks = .ok datagram) :
    acks = [] ∧ datagram = raw ∨ 0 < acks.length ∧
      datagram = setFlag Flags.appendedAcksBit raw ++
        (acks.flatMap (fun ack => bigEndian ackLength ack.toNat) ++ [UInt8.ofNat acks.length]) := by
  by_cases hne : acks = []
  · rw [hne, withAcks_nil, Except.ok.injEq] at hw
    exact .inl ⟨hne, hw.symm⟩
  · rw [withAcks_of_tail hne (Packet.ackTail_of_ne_nil hne ha), Except.ok.injEq] at hw
    exact .inr ⟨List.length_pos_iff.2 hne, hw.symm⟩

end Datagram

namespace Packet

open Datagram (withAcks asResent sequence? IsBare)

variable {p q : Packet} {raw extended : Bytes} {acks : List UInt32}

theorem encode_withAcks (hp : p.acks = []) (he : p.encode = .ok raw) (ha : acks.length ≤ 255) :
    ∃ extended, withAcks raw acks = .ok extended ∧ { p with acks }.encode = .ok extended := by
  by_cases hne : acks = []
  · refine ⟨raw, by rw [hne, Datagram.withAcks_nil], ?_⟩
    rw [hne, ← hp]
    exact he
  · obtain ⟨plain, tail, hextra, hw, ht, rfl⟩ := encode_parts he
    have hnone : tail = [] := by
      rw [hp] at ht
      exact (Except.ok.inj ht).symm
    have hacks := ackTail_of_ne_nil hne ha
    have hsome : (!acks.isEmpty) = true := by simpa using hne
    have hflags : ({ p with acks } : Packet).wireFlags.toByte =
        p.wireFlags.toByte ||| Flags.appendedAcksBit := by
      rw [← Flags.toByte_setAcks, wireFlags, hsome]
      rfl
    refine ⟨_, Datagram.withAcks_of_tail hne hacks, ?_⟩
    rw [encode_of_write (p := { p with acks }) hextra hw hacks, hflags, hnone]
    simp [Datagram.setFlag, wireBody]

theorem encode_asResent (he : p.encode = .ok raw) :
    { p with flags.resent := true }.encode = .ok (asResent raw) := by
  obtain ⟨plain, tail, hextra, hw, ht, rfl⟩ := encode_parts he
  have hflags : ({ p with flags.resent := true } : Packet).wireFlags.toByte =
      p.wireFlags.toByte ||| Flags.resentBit := Flags.toByte_setResent p.wireFlags
  rw [encode_of_write (p := { p with flags.resent := true }) hextra hw ht, hflags]
  rfl

/-- The mark is nothing to the reader but a flag, also in bytes that nobody wrote. -/
theorem decode_asResent (hd : decode raw = .ok q) :
    decode (asResent raw) = .ok { q with flags.resent := true } := by
  obtain ⟨flagByte, rest, body, plain, hextra, hrest, rfl, hf, hs, hz, hm⟩ := frame_of_decode hd
  have hflags := Flags.ofByte_setResent flagByte
  rw [hf, ← hflags]
  exact decode_frame hextra hrest (by rw [hflags]; exact hs) (by rw [hflags]; exact hz) hm

theorem decode_withAcks (hb : IsBare raw) (hd : decode raw = .ok q) (ha : acks.length ≤ 255)
    (hw : withAcks raw acks = .ok extended) :
    decode extended = .ok { q with acks, flags.appendedAcks := !acks.isEmpty } := by
  obtain ⟨flagByte, rest, body, plain, hextra, hrest, rfl, hf, hs, hz, hm⟩ := frame_of_decode hd
  have hnone : (Flags.ofByte flagByte).appendedAcks = false := by
    obtain ⟨_, _, hraw, -, hnone⟩ := hb
    rw [(List.cons.inj hraw).1]
    exact hnone
  rw [hnone] at hs
  obtain ⟨rfl, hq⟩ : rest = body ∧ [] = q.acks := by simpa [splitAcks] using hs
  by_cases hne : acks = []
  · -- The bytes stay, so the flag that is read has to be clear already: `raw` is bare.
    subst hne
    obtain rfl := Except.ok.inj hw
    have hsame : { q.flags with appendedAcks := false } = q.flags := by
      rw [hf, ← hnone]
    have hacks : q = { q with acks := [] } := by rw [hq]
    rw [hd]
    exact congrArg Except.ok (hacks.trans (by rw [← hsame]; rfl))
  · obtain ⟨tail, ht, split⟩ := splitAcks_append hrest ha
    rw [Datagram.withAcks_of_tail hne ht, Except.ok.injEq] at hw
    have hflags := Flags.ofByte_setAcks flagByte
    have hsome : (!acks.isEmpty) = true := by simpa using hne
    have hrest' : rest ++ tail ≠ [] := by simp [hrest]
    have read : decode ((flagByte ||| Flags.appendedAcksBit) :: bigEndian 4 q.sequence.toNat ++
        UInt8.ofNat q.extra.length :: (q.extra ++ (rest ++ tail))) =
        .ok { q with flags := Flags.ofByte (flagByte ||| Flags.appendedAcksBit), acks } :=
      decode_frame hextra hrest' (by rw [hflags, ← hsome]; exact split)
        (by rw [hflags]; exact hz) hm
    rw [hsome, hf, ← hflags, ← hw, ← read]
    simp [Datagram.setFlag]

/-- What the edits of a datagram come to: `raw` is edited to `extended` by the acks, and either is
marked. Every edit is what is written of the edited packet, and can be read if `raw` could. -/
structure Edited (p : Packet) (acks : List UInt32) (raw extended : Bytes) : Prop where
  appended : withAcks raw acks = .ok extended
  commutes : withAcks (asResent raw) acks = .ok (asResent extended)
  written : { p with acks }.encode = .ok extended
  marked : { p with flags.resent := true }.encode = .ok (asResent raw)
  both : { p with acks, flags.resent := true }.encode = .ok (asResent extended)
  numbered : ∀ datagram ∈ [raw, extended, asResent raw, asResent extended],
    sequence? datagram = some p.sequence
  reads : ∀ q, decode raw = .ok q →
    decode extended = .ok { q with acks, flags.appendedAcks := !acks.isEmpty } ∧
    decode (asResent raw) = .ok { q with flags.resent := true } ∧
    decode (asResent extended) =
      .ok { q with acks, flags := { q.flags with resent := true, appendedAcks := !acks.isEmpty } }

/-- Editing a datagram comes to the same as writing the edited packet, whatever the packet says and
whether it can be read. -/
theorem edits_are_written (hp : p.acks = []) (he : p.encode = .ok raw) (ha : acks.length ≤ 255) :
    ∃ extended, p.Edited acks raw extended := by
  obtain ⟨extended, appended, written⟩ := encode_withAcks hp he ha
  have marked := encode_asResent he
  have both := encode_asResent written
  -- Either order of the edits writes the packet with the acks and the mark.
  have commutes : withAcks (asResent raw) acks = .ok (asResent extended) := by
    obtain ⟨other, hother, hsame⟩ :=
      encode_withAcks (p := { p with flags.resent := true }) hp marked ha
    rw [hother, ← hsame]
    exact both
  have numbered : ∀ datagram ∈ [raw, extended, asResent raw, asResent extended],
      sequence? datagram = some p.sequence := by
    simp only [List.forall_mem_cons, List.not_mem_nil, false_imp_iff, implies_true, and_true]
    exact ⟨sequence_of_encode he, @sequence_of_encode { p with acks } _ written,
      @sequence_of_encode { p with flags.resent := true } _ marked,
      @sequence_of_encode { p with acks, flags.resent := true } _ both⟩
  refine ⟨extended, appended, commutes, written, marked, both, numbered, ?_⟩
  intro q hd
  have read := decode_withAcks (Site.bare_of_encode hp he) hd ha appended
  exact ⟨read, decode_asResent hd, decode_asResent read⟩

def strangePacket : Packet where
  flags := { zeroCoded := true, reliable := true }
  sequence := 0x00FF0001
  extra := [0, 0, 7]
  message := .unknown ⟨.low 300, [0, 0, 0, 5]⟩

def strangeDatagram : Bytes :=
  [0xC0, 0, 0xFF, 0, 1, 3, 0, 0, 7, 0xFF, 0xFF, 1, 44, 0, 3, 5]

theorem edits_are_written_strangePacket :
    strangePacket.acks = [] ∧ strangePacket.encode = .ok strangeDatagram ∧ [0, 9].length ≤ 255 ∧
      ∃ extended, strangePacket.Edited [0, 9] strangeDatagram extended := by
  have he : strangePacket.encode = .ok strangeDatagram := by decide +kernel
  exact ⟨rfl, he, by decide, edits_are_written rfl he (by decide)⟩

end Packet
end ViewerCircuit
