import ViewerCircuit.Packet.Wire
import ViewerCircuit.Proofs.MessageArrival
import ViewerCircuit.Proofs.ZeroRuns

/-!
# How packets arrive

The body of a datagram ends where its acks begin, and only the last byte says where that is. A
packet whose counts fit is written, and what is read is the packet with its message as it arrives.
-/
namespace ViewerCircuit

theorem bind_ok {ε α β : Type} {x : Except ε α} {f : α → Except ε β} {b : β}
    (h : x.bind f = .ok b) : ∃ a, x = .ok a ∧ f a = .ok b := by
  cases x with
  | error e => cases h
  | ok a => exact ⟨a, rfl, h⟩

namespace Packet

theorem ofBigEndian_sequence (sequence : UInt32) :
    UInt32.ofNat (ofBigEndian (bigEndian 4 sequence.toNat)) = sequence := by
  rw [ofBigEndian_bigEndian, show span 4 = UInt32.size from rfl,
    Nat.mod_eq_of_lt sequence.toNat_lt, UInt32.ofNat_toNat]

theorem readAcks_written (acks : List UInt32) :
    readAcks (acks.flatMap fun ack => bigEndian ackLength ack.toNat) = acks := by
  induction acks with
  | nil => rfl
  | cons ack acks ih =>
    obtain ⟨a, b, c, d, hbytes⟩ : ∃ a b c d, bigEndian ackLength ack.toNat = [a, b, c, d] :=
      ⟨_, _, _, _, rfl⟩
    have hack : UInt32.ofNat (ofBigEndian [a, b, c, d]) = ack := by
      rw [← hbytes]
      exact ofBigEndian_sequence ack
    simp [hbytes, readAcks, hack, ih]

theorem length_written (acks : List UInt32) :
    (acks.flatMap fun ack => bigEndian ackLength ack.toNat).length = acks.length * ackLength := by
  induction acks with
  | nil => rfl
  | cons ack acks ih =>
    rw [List.flatMap_cons, List.length_append, ih, length_bigEndian, List.length_cons,
      Nat.succ_mul, Nat.add_comm]

theorem ackTail_of_ne_nil {acks : List UInt32} (hne : acks ≠ []) (h : acks.length ≤ 255) :
    ackTail acks = .ok (acks.flatMap (fun ack => bigEndian ackLength ack.toNat) ++
      [UInt8.ofNat acks.length]) := by
  have hlt : acks.length < 256 := Nat.lt_succ_of_le h
  rw [ackTail, if_neg (by simpa using hne), if_pos hlt]

/-- Acks that follow a body are split off it again. -/
theorem splitAcks_append {body : Bytes} (hbody : body ≠ []) {acks : List UInt32}
    (h : acks.length ≤ 255) : ∃ tail, ackTail acks = .ok tail ∧
      splitAcks (!acks.isEmpty) (body ++ tail) = .ok (body, acks) := by
  by_cases hne : acks = []
  · subst hne
    exact ⟨[], rfl, by simp [splitAcks]⟩
  · refine ⟨_, ackTail_of_ne_nil hne h, ?_⟩
    have hcount : (UInt8.ofNat acks.length).toNat = acks.length := by
      simp [Nat.mod_eq_of_lt (Nat.lt_succ_of_le h)]
    have hsome : (!acks.isEmpty) = true := by simpa using hne
    have hpos : 0 < body.length := List.length_pos_iff.2 hbody
    have hlength : (body ++ (acks.flatMap (fun ack => bigEndian ackLength ack.toNat) ++
        [UInt8.ofNat acks.length])).length = body.length + (acks.length * ackLength + 1) := by
      rw [List.length_append, List.length_append, length_written, List.length_singleton]
    have hlast : (body ++ (acks.flatMap (fun ack => bigEndian ackLength ack.toNat) ++
        [UInt8.ofNat acks.length])).getLast? = some (UInt8.ofNat acks.length) := by
      rw [← List.append_assoc, List.getLast?_concat]
    have hroom : ¬ body.length + (acks.length * ackLength + 1) <
        1 + (acks.length * ackLength + 1) := by omega
    simp only [splitAcks, hsome, if_true, hlast, Option.getD_some, hcount, hlength, hroom,
      if_false, Nat.add_sub_cancel, List.take_left', List.drop_left', List.dropLast_concat,
      readAcks_written]

variable {p : Packet} {plain : Bytes}

def wireBody (p : Packet) (plain : Bytes) : Bytes :=
  if p.flags.zeroCoded then ZeroCoding.encode plain else plain

theorem wireBody_plain (h : p.flags.zeroCoded = false) (plain : Bytes) :
    p.wireBody plain = plain := by
  simp [wireBody, h]

theorem wireBody_ne_nil (h : plain ≠ []) : p.wireBody plain ≠ [] := by
  unfold wireBody
  split
  · exact ZeroCoding.encode_ne_nil h
  · exact h

theorem unpack_wireBody (p : Packet) (plain : Bytes) :
    (if p.flags.zeroCoded then ZeroCoding.decode (p.wireBody plain)
      else .ok (p.wireBody plain)) = .ok plain := by
  cases hz : p.flags.zeroCoded with
  | false => simp [wireBody, hz]
  | true => simp [wireBody, hz, ZeroCoding.decode_encode]

theorem encode_of_write {tail : Bytes} (hextra : p.extra.length ≤ 255)
    (hw : p.message.write = .ok plain) (ht : ackTail p.acks = .ok tail) :
    p.encode = .ok (p.wireFlags.toByte :: bigEndian 4 p.sequence.toNat ++
      UInt8.ofNat p.extra.length :: (p.extra ++ (p.wireBody plain ++ tail))) := by
  have hlt : p.extra.length < 256 := Nat.lt_succ_of_le hextra
  simp [encode, hlt, hw, ht, wireBody, bind, Except.bind, pure, Except.pure]

/-- Reading stops at the extra header, whose length is known, and goes on from the end. -/
theorem decode_frame {flagByte : UInt8} {sequence : UInt32} {extra rest body : Bytes}
    {acks : List UInt32} {plain : Bytes} {m : Message} (hextra : extra.length ≤ 255)
    (hrest : rest ≠ [])
    (hs : splitAcks (Flags.ofByte flagByte).appendedAcks rest = .ok (body, acks))
    (hz : (if (Flags.ofByte flagByte).zeroCoded then ZeroCoding.decode body else .ok body) =
      .ok plain)
    (hm : Message.read plain = .ok m) :
    decode (flagByte :: bigEndian 4 sequence.toNat ++
      UInt8.ofNat extra.length :: (extra ++ rest)) =
      .ok { flags := Flags.ofByte flagByte, sequence, extra, acks, message := m } := by
  obtain ⟨s₁, s₂, s₃, s₄, hbytes⟩ :
      ∃ s₁ s₂ s₃ s₄, bigEndian 4 sequence.toNat = [s₁, s₂, s₃, s₄] := ⟨_, _, _, _, rfl⟩
  have hsequence : UInt32.ofNat (ofBigEndian [s₁, s₂, s₃, s₄]) = sequence := by
    rw [← hbytes]
    exact ofBigEndian_sequence sequence
  have hcount : (UInt8.ofNat extra.length).toNat = extra.length := by
    simp [Nat.mod_eq_of_lt (Nat.lt_succ_of_le hextra)]
  obtain ⟨first, more, hcons⟩ : ∃ first more, extra ++ rest = first :: more :=
    List.exists_cons_of_ne_nil (by simp [hrest])
  have hroom : ¬ (first :: more).length ≤ extra.length := by
    have hpos : 0 < rest.length := List.length_pos_iff.2 hrest
    rw [← hcons, List.length_append]
    omega
  have htake : (first :: more).take extra.length = extra := by
    rw [← hcons, List.take_left']
    rfl
  have hdrop : (first :: more).drop extra.length = rest := by
    rw [← hcons, List.drop_left']
    rfl
  rw [hbytes, hcons]
  simp only [List.cons_append, List.nil_append, decode, hcount, hroom, if_false, htake, hdrop, hs,
    hsequence, bind, Except.bind, pure, Except.pure]
  cases hzero : (Flags.ofByte flagByte).zeroCoded with
  | false =>
    obtain rfl : body = plain := by simpa [hzero] using hz
    simp [hm]
  | true =>
    have hplain : ZeroCoding.decode body = .ok plain := by simpa [hzero] using hz
    simp [hplain, hm]

/-- Four bytes are the number that is read from them. -/
theorem bigEndian_sequence (a b c d : UInt8) :
    bigEndian 4 (UInt32.ofNat (ofBigEndian [a, b, c, d])).toNat = [a, b, c, d] := by
  have hlt : ofBigEndian [a, b, c, d] < UInt32.size := ofBigEndian_lt [a, b, c, d]
  rw [UInt32.toNat_ofNat_of_lt' hlt]
  exact bigEndian_ofBigEndian [a, b, c, d]

/-- Whatever is read is framed in this way. -/
theorem frame_of_decode {raw : Bytes} (h : decode raw = .ok p) :
    ∃ flagByte rest body plain, p.extra.length ≤ 255 ∧ rest ≠ [] ∧
      raw = flagByte :: bigEndian 4 p.sequence.toNat ++
        UInt8.ofNat p.extra.length :: (p.extra ++ rest) ∧
      p.flags = Flags.ofByte flagByte ∧
      splitAcks (Flags.ofByte flagByte).appendedAcks rest = .ok (body, p.acks) ∧
      (if (Flags.ofByte flagByte).zeroCoded then ZeroCoding.decode body else .ok body) =
        .ok plain ∧
      Message.read plain = .ok p.message := by
  rcases raw with _ | ⟨flagByte, _ | ⟨s₁, _ | ⟨s₂, _ | ⟨s₃, _ | ⟨s₄, _ | ⟨extraLength, _ |
    ⟨first, more⟩⟩⟩⟩⟩⟩⟩
  case cons.cons.cons.cons.cons.cons.cons =>
    simp only [decode] at h
    split at h
    · cases h
    next hroom =>
    obtain ⟨⟨body, acks⟩, hs, h⟩ := bind_ok h
    have hbyte := extraLength.toNat_lt
    have hlength : ((first :: more).take extraLength.toNat).length = extraLength.toNat := by
      rw [List.length_take]
      omega
    have hle : ((first :: more).take extraLength.toNat).length ≤ 255 := by omega
    have hrest : (first :: more).drop extraLength.toNat ≠ [] := by
      rw [Ne, List.drop_eq_nil_iff]
      exact hroom
    split at h
    all_goals
      next hz =>
      obtain ⟨plain, hplain, h⟩ := bind_ok h
      obtain ⟨message, hm, h⟩ := bind_ok h
      cases h
      refine ⟨flagByte, _, body, plain, hle, hrest, ?_, rfl, hs, by simp [hz, hplain], hm⟩
      rw [bigEndian_sequence, hlength, List.take_append_drop, UInt8.ofNat_toNat]
      rfl
  all_goals cases h

/-- What is written reads as the packet with its flags as they are written, and with the message
that its body reads as. -/
theorem decode_of_write {m : Message} (hextra : p.extra.length ≤ 255) (hacks : p.acks.length ≤ 255)
    (hw : p.message.write = .ok plain) (hplain : plain ≠ []) (hr : Message.read plain = .ok m) :
    ∃ bytes, p.encode = .ok bytes ∧
      decode bytes = .ok { p with flags := p.wireFlags, message := m } := by
  have hbody : p.wireBody plain ≠ [] := wireBody_ne_nil hplain
  obtain ⟨tail, ht, hs⟩ := splitAcks_append hbody hacks
  have hflags : Flags.ofByte p.wireFlags.toByte = p.wireFlags := Flags.ofByte_toByte _
  have hrest : p.wireBody plain ++ tail ≠ [] := by simp [hbody]
  refine ⟨_, encode_of_write hextra hw ht, ?_⟩
  rw [decode_frame hextra hrest (by rw [hflags]; exact hs)
    (by rw [hflags]; exact unpack_wireBody p plain) hr, hflags]

theorem encode_parts {bytes : Bytes} (he : p.encode = .ok bytes) :
    ∃ plain tail, p.extra.length ≤ 255 ∧ p.message.write = .ok plain ∧ ackTail p.acks = .ok tail ∧
      bytes = p.wireFlags.toByte :: bigEndian 4 p.sequence.toNat ++
        UInt8.ofNat p.extra.length :: (p.extra ++ (p.wireBody plain ++ tail)) := by
  have written := he
  unfold encode at he
  split at he
  · next hextra =>
    obtain ⟨plain, hw, he⟩ := bind_ok he
    obtain ⟨tail, ht, -⟩ := bind_ok he
    have hle := Nat.le_of_lt_succ hextra
    exact ⟨plain, tail, hle, hw, ht,
      Except.ok.inj (written.symm.trans (encode_of_write hle hw ht))⟩
  · cases he

/-- A packet that can be written begins with its flags and its number. -/
theorem encode_head {bytes : Bytes} (he : p.encode = .ok bytes) :
    ∃ rest, bytes = p.wireFlags.toByte :: (bigEndian 4 p.sequence.toNat ++ rest) ∧ rest ≠ [] := by
  obtain ⟨plain, tail, -, -, -, hbytes⟩ := encode_parts he
  exact ⟨_, hbytes, List.cons_ne_nil _ _⟩

theorem sequence_of_encode {bytes : Bytes} (he : p.encode = .ok bytes) :
    Datagram.sequence? bytes = some p.sequence := by
  obtain ⟨rest, rfl, -⟩ := encode_head he
  obtain ⟨a, b, c, d, hbytes⟩ : ∃ a b c d, bigEndian 4 p.sequence.toNat = [a, b, c, d] :=
    ⟨_, _, _, _, rfl⟩
  have hsequence : UInt32.ofNat (ofBigEndian [a, b, c, d]) = p.sequence := by
    rw [← hbytes]
    exact ofBigEndian_sequence p.sequence
  rw [hbytes]
  exact congrArg some hsequence

structure Fits (p : Packet) : Prop where
  extra_le : p.extra.length ≤ 255
  acks_le : p.acks.length ≤ 255
  message : p.message.Fits

theorem encode_fits (h : p.Fits) : ∃ bytes, p.encode = .ok bytes := by
  obtain ⟨plain, hw, hplain, hr⟩ := Message.read_write h.message
  obtain ⟨bytes, he, -⟩ := decode_of_write h.extra_le h.acks_le hw hplain hr
  exact ⟨bytes, he⟩

/-- What is written of a packet that fits reads as the packet with its flags as they are written
and its message as it arrives. -/
theorem decode_of_encode (h : p.Fits) {bytes : Bytes} (he : p.encode = .ok bytes) :
    decode bytes = .ok { p with flags := p.wireFlags, message := p.message.arrived } := by
  obtain ⟨plain, hw, hplain, hr⟩ := Message.read_write h.message
  obtain ⟨written, he', hd⟩ := decode_of_write h.extra_le h.acks_le hw hplain hr
  obtain rfl := Except.ok.inj (he.symm.trans he')
  exact hd

/-- A packet that fits can be written, and what is written reads as the packet again. The flag
that announces acks is set exactly if there are some, whatever it was before. -/
theorem encode_decode (h : p.Fits) :
    ∃ bytes, p.encode = .ok bytes ∧
      decode bytes = .ok { p with
        flags := { p.flags with appendedAcks := !p.acks.isEmpty }
        message := p.message.arrived } := by
  obtain ⟨bytes, he⟩ := encode_fits h
  exact ⟨bytes, he, decode_of_encode h he⟩

def annotatedChat : Packet where
  flags := { zeroCoded := true, reliable := true }
  sequence := 0xFFFFFFFE
  extra := [0, 9]
  acks := [0, 0xFFFFFFFF]
  message := .chatFromSimulator { fromName := "Zoë Löwe", message := "naïve ☃" }

theorem encode_decode_annotatedChat : annotatedChat.Fits ∧
    ∃ bytes, annotatedChat.encode = .ok bytes ∧
      decode bytes = .ok { annotatedChat with
        flags := { zeroCoded := true, reliable := true, appendedAcks := true } } := by
  have hfits : annotatedChat.Fits :=
    ⟨by decide, by decide, ⟨by decide, by decide⟩, ⟨by decide, by decide⟩⟩
  exact ⟨hfits, encode_decode hfits⟩

end Packet
end ViewerCircuit
