import Mathlib.Data.List.TakeWhile
import ViewerCircuit.Proofs.Carriage
import ViewerCircuit.Text.Field

/-!
# How text arrives

UTF-8 is read back character by character, because no character begins with the bytes of another
one. A text field gives back the text that was written, cut to the cap of the field and in front
of its first NUL.
-/
namespace ViewerCircuit.Text

open Codec

theorem frontChar?_encode (c : Char) (rest : Bytes) :
    frontChar? (String.utf8EncodeChar c ++ rest) = some c := by
  have hlen : (String.utf8EncodeChar c).length ≤ 4 := by
    rw [String.length_utf8EncodeChar]
    exact c.utf8Size_le_four
  rw [frontChar?, List.take_append, List.take_of_length_le hlen, List.toByteArray_append]
  exact ByteArray.utf8DecodeChar?_utf8EncodeChar_append

theorem decodeChars_encodeChars (cs : List Char) : decodeChars (encodeChars cs) = cs := by
  induction cs with
  | nil => simp [encodeChars, decodeChars]
  | cons c cs ih =>
    have hc : (String.utf8EncodeChar c).length = c.utf8Size := String.length_utf8EncodeChar c
    have hpos := c.utf8Size_pos
    have front := frontChar?_encode c (encodeChars cs)
    rw [encodeChars, List.flatMap_cons]
    change decodeChars (String.utf8EncodeChar c ++ encodeChars cs) = c :: cs
    cases he : String.utf8EncodeChar c with
    | nil => simp [he] at hc; omega
    | cons lead tail =>
      rw [he] at front hc
      have htail : tail.length = c.utf8Size - 1 := by simp at hc; omega
      rw [List.cons_append] at front ⊢
      rw [decodeChars, front]
      simp only [← htail, List.drop_left, ih]

theorem length_encodeChars_cons (c : Char) (cs : List Char) :
    (encodeChars (c :: cs)).length = c.utf8Size + (encodeChars cs).length := by
  simp [encodeChars]

theorem length_truncateChars_le (limit : Nat) (cs : List Char) :
    (encodeChars (truncateChars limit cs)).length ≤ limit := by
  induction cs generalizing limit with
  | nil => simp [truncateChars, encodeChars]
  | cons c cs ih =>
    rw [truncateChars]
    split
    · have := ih (limit - c.utf8Size)
      rw [length_encodeChars_cons]
      omega
    · simp [encodeChars]

/-- Text that fits is not cut. -/
theorem truncateChars_of_length_le {limit : Nat} {cs : List Char}
    (h : (encodeChars cs).length ≤ limit) : truncateChars limit cs = cs := by
  induction cs generalizing limit with
  | nil => rfl
  | cons c cs ih =>
    rw [length_encodeChars_cons] at h
    rw [truncateChars, if_pos (by omega), ih (by omega)]

/-- A byte of a character is zero only in the NUL. -/
theorem zero_not_mem_encodeChar {c : Char} (h : c ≠ '\x00') :
    (0 : UInt8) ∉ String.utf8EncodeChar c := by
  have hv : c.val.toNat ≠ 0 := by
    intro e
    apply h
    apply Char.ext
    exact UInt32.toNat_inj.1 e
  have nonzero : ∀ n, 0 < n → n < 256 → (0 : UInt8) ≠ UInt8.ofNat n := by
    intro n hp hn e
    have := congrArg UInt8.toNat e
    simp at this
    omega
  simp only [String.utf8EncodeChar]
  split
  · rw [List.mem_singleton]
    exact nonzero _ (by omega) (by omega)
  · split
    · simp only [List.mem_cons, List.not_mem_nil, or_false, not_or]
      exact ⟨nonzero _ (by omega) (by omega), nonzero _ (by omega) (by omega)⟩
    · split <;> simp only [List.mem_cons, List.not_mem_nil, or_false, not_or]
      · exact ⟨nonzero _ (by omega) (by omega), nonzero _ (by omega) (by omega),
          nonzero _ (by omega) (by omega)⟩
      · exact ⟨nonzero _ (by omega) (by omega), nonzero _ (by omega) (by omega),
          nonzero _ (by omega) (by omega), nonzero _ (by omega) (by omega)⟩

/-- The bytes in front of the first zero are those of the characters in front of the first NUL. -/
theorem takeWhile_encodeChars (cs : List Char) :
    (encodeChars cs ++ [0]).takeWhile (· ≠ 0) = encodeChars (cs.takeWhile (· ≠ '\x00')) := by
  induction cs with
  | nil => rfl
  | cons c cs ih =>
    by_cases hc : c = '\x00'
    · subst hc
      rfl
    · have front : ∀ b ∈ String.utf8EncodeChar c, decide (b ≠ 0) = true := by
        intro b hb
        exact decide_eq_true fun e => zero_not_mem_encodeChar hc (e ▸ hb)
      rw [List.takeWhile_cons_of_pos (by simpa using hc)]
      simp only [encodeChars, List.flatMap_cons, List.append_assoc] at ih ⊢
      rw [List.takeWhile_append_of_pos front, ih]

/-- The text that a field of `cap` bytes delivers. -/
def received (cap : Nat) (s : String) : String :=
  String.ofList ((truncateChars (cap - 1) s.toList).takeWhile (· ≠ '\x00'))

theorem ofField_terminated (cap : Nat) (s : String) :
    ofField (terminated cap s) = received cap s := by
  rw [ofField, terminated, encode, truncate, String.toList_ofList, takeWhile_encodeChars, decode,
    decodeChars_encodeChars, received]

theorem length_terminated_le {cap : Nat} (h : 0 < cap) (s : String) :
    (terminated cap s).length ≤ cap := by
  have := length_truncateChars_le (cap - 1) s.toList
  rw [terminated, encode, truncate, String.toList_ofList, List.length_append]
  simp only [List.length_cons, List.length_nil]
  omega

/-- A field that carries the terminated text delivers the text. -/
theorem carries_text {c : Codec Bytes} {text : Codec String} {cap : Nat} {s : String}
    (hw : text.write s = c.write (terminated cap s)) (hr : text.read = c.read.map ofField)
    (h : c.Carries (terminated cap s) (terminated cap s)) :
    text.Carries s (received cap s) := by
  obtain ⟨bytes, written, read⟩ := h
  refine ⟨bytes, hw.trans written, ?_⟩
  intro rest
  rw [hr, Reader.map_of_eq (read rest), ofField_terminated]

theorem carries_short (s : String) : shortCodec.Carries s (received shortCap s) := by
  have hlen : (terminated shortCap s).length ≤ 255 := length_terminated_le (by decide) s
  have hw : shortCodec.write s = variable1.write (terminated shortCap s) := by
    simp only [shortCodec]
  exact carries_text hw rfl (carries_variable1 hlen)

theorem writeLong_of_pos {cap : Nat} (h : 0 < cap) (s : String) :
    writeLong cap s = variable2.write (terminated (min cap 65535) s) := by
  unfold writeLong
  split
  · omega
  · next limit hl => rw [hl]

theorem writeLong_longCap (s : String) :
    longCodec.write s = variable2.write (terminated longCap s) := by
  simp only [longCodec]
  exact writeLong_of_pos (by decide) s

theorem carries_long (s : String) : longCodec.Carries s (received longCap s) := by
  have hlen : (terminated longCap s).length ≤ 1024 := length_terminated_le (by decide) s
  exact carries_text (writeLong_longCap s) rfl
    (carries_variable2 (Nat.le_trans hlen (by decide)))

structure Fits (cap : Nat) (s : String) : Prop where
  length_lt : s.utf8ByteSize < cap
  no_nul : '\x00' ∉ s.toList

theorem length_encode (s : String) : (encode s).length = s.utf8ByteSize := by
  have h : s.toList.utf8Encode = s.toByteArray := String.utf8Encode_toList
  rw [← String.size_toByteArray, ← h]
  simp [encode, encodeChars, List.utf8Encode]

theorem received_of_fits {cap : Nat} {s : String} (h : Fits cap s) : received cap s = s := by
  have hlen : (encodeChars s.toList).length ≤ cap - 1 := by
    have := h.length_lt
    have hs : (encodeChars s.toList).length = s.utf8ByteSize := length_encode s
    omega
  have hnul : s.toList.takeWhile (· ≠ '\x00') = s.toList := by
    have all : ∀ c ∈ s.toList, decide (c ≠ '\x00') = true := by
      intro c hc
      exact decide_eq_true fun e => h.no_nul (e ▸ hc)
    exact List.takeWhile_eq_self_iff.2 all
  rw [received, truncateChars_of_length_le hlen, hnul, String.ofList_toList]

theorem carries_short_of_fits {s : String} (h : Fits shortCap s) : shortCodec.Carries s s := by
  have := carries_short s
  rwa [received_of_fits h] at this

theorem carries_long_of_fits {s : String} (h : Fits longCap s) : longCodec.Carries s s := by
  have := carries_long s
  rwa [received_of_fits h] at this

/-- A character is at the front if its bytes are. -/
theorem encode_isPrefix_of_frontChar? {bytes : Bytes} {c : Char} (h : frontChar? bytes = some c) :
    String.utf8EncodeChar c <+: bytes := by
  obtain ⟨l, hl⟩ := ByteArray.exists_of_utf8DecodeChar?_eq_some h
  have hbytes := congrArg (fun a => a.data.toList) hl
  simp only [List.data_toByteArray, ByteArray.data_append, Array.toList_append] at hbytes
  have : String.utf8EncodeChar c <+: bytes.take 4 := ⟨_, hbytes.symm⟩
  exact this.trans (List.take_prefix _ _)

/-- Bytes other than zero read as characters other than the NUL. -/
theorem nul_not_mem_decodeChars (bytes : Bytes) (h : (0 : UInt8) ∉ bytes) :
    '\x00' ∉ decodeChars bytes := by
  induction bytes using decodeChars.induct with
  | case1 => simp [decodeChars]
  | case2 lead rest c hc ih =>
    rw [decodeChars, hc]
    have hne : c ≠ '\x00' := by
      rintro rfl
      obtain ⟨behind, hbehind⟩ := encode_isPrefix_of_frontChar? hc
      exact h (hbehind ▸ List.mem_append_left _ (by decide))
    simp only [List.mem_cons, not_or]
    exact ⟨hne.symm, ih fun hz => h (List.mem_cons_of_mem _ (List.mem_of_mem_drop hz))⟩
  | case3 lead rest hc ih =>
    rw [decodeChars, hc]
    simp only [List.mem_cons, not_or]
    exact ⟨by decide, ih fun hz => h (List.mem_cons_of_mem _ (List.mem_of_mem_drop hz))⟩

theorem nul_not_mem_ofField (bytes : Bytes) : '\x00' ∉ (ofField bytes).toList := by
  rw [ofField, decode, String.toList_ofList]
  apply nul_not_mem_decodeChars
  intro hz
  simpa using List.mem_takeWhile_imp hz

theorem truncateChars_subset (limit : Nat) (cs : List Char) : truncateChars limit cs ⊆ cs := by
  induction cs generalizing limit with
  | nil => exact List.Subset.refl _
  | cons c cs ih =>
    rw [truncateChars]
    split
    · exact List.cons_subset_cons c (ih _)
    · exact List.nil_subset _

/-- Text without a NUL is written again as it was, though it was cut. -/
theorem terminated_received {cap : Nat} {s : String} (h : '\x00' ∉ s.toList) :
    terminated cap (received cap s) = terminated cap s := by
  have hcut : (truncateChars (cap - 1) s.toList).takeWhile (· ≠ '\x00')
      = truncateChars (cap - 1) s.toList := by
    apply List.takeWhile_eq_self_iff.2
    intro c hc
    exact decide_eq_true fun e => h (truncateChars_subset _ _ (e ▸ hc))
  have htwice : truncateChars (cap - 1) (truncateChars (cap - 1) s.toList)
      = truncateChars (cap - 1) s.toList :=
    truncateChars_of_length_le (length_truncateChars_le _ _)
  simp only [terminated, truncate, received, hcut, String.toList_ofList, htwice]

end ViewerCircuit.Text
