import ViewerCircuit.ZeroCoding

/-!
# Zero runs

Decoding undoes zero coding. The encoder carries a count of pending zeros, so the statement about
it is made for every count that one run can hold.
-/
namespace ViewerCircuit.ZeroCoding

/-- A run of at most 255 zeros is read back, and then whatever follows it. -/
theorem decode_run {length : Nat} (h : length ≤ 255) {rest bytes : Bytes}
    (hr : decode rest = .ok bytes) :
    decode (run length ++ rest) = .ok (List.replicate length 0 ++ bytes) := by
  by_cases hz : length = 0
  · simp [run, hz, hr]
  · have hn : (UInt8.ofNat length).toNat = length := by simp; omega
    have hb : UInt8.ofNat length ≠ 0 := by
      intro e
      rw [e] at hn
      exact hz hn.symm
    simp [run, hz, decode, hb, hr, Except.map, hn]

theorem decode_cons_of_ne {b : UInt8} (h : b ≠ 0) (rest : Bytes) :
    decode (b :: rest) = (decode rest).map (b :: ·) := by
  rw [decode.eq_def]
  simp [h]

theorem decode_encodeAfter {pending : Nat} (h : pending ≤ 255) (bytes : Bytes) :
    decode (encodeAfter pending bytes) = .ok (List.replicate pending 0 ++ bytes) := by
  induction bytes generalizing pending with
  | nil =>
    rw [encodeAfter, ← List.append_nil (run pending)]
    exact decode_run h rfl
  | cons b rest ih =>
    by_cases hb : b = 0
    · subst hb
      by_cases hp : pending = 255
      · -- The run is full: it is written, and the zero at hand begins the next one.
        rw [encodeAfter, if_pos rfl, if_pos hp]
        exact decode_run h (ih (show 1 ≤ 255 by omega))
      · rw [encodeAfter, if_pos rfl, if_neg hp, ih (by omega), List.replicate_succ',
          List.append_assoc]
        rfl
    · have tail : decode (b :: encodeAfter 0 rest) = .ok (b :: rest) := by
        rw [decode_cons_of_ne hb, ih (Nat.zero_le 255)]
        rfl
      rw [encodeAfter, if_neg hb]
      exact decode_run h tail

theorem decode_encode (bytes : Bytes) : decode (encode bytes) = .ok bytes :=
  decode_encodeAfter (Nat.zero_le 255) bytes

theorem encode_ne_nil {bytes : Bytes} (h : bytes ≠ []) : encode bytes ≠ [] := by
  intro he
  have hd := decode_encode bytes
  rw [he] at hd
  exact h (Except.ok.inj hd).symm

end ViewerCircuit.ZeroCoding
