import ViewerCircuit.Proofs.TextArrival

/-!
# Cuts between characters

A field cuts its text at the last place between two characters that leaves room for the NUL. Going
back from the cap byte by byte finds this place: a byte that does not continue a character begins
one. So the reader gets the longest text that fits, up to its first NUL.
-/
namespace ViewerCircuit.Text

/-- Place `n` is an end of the bytes, or the byte there does not continue a character. -/
def isBoundary (bytes : Bytes) (n : Nat) : Bool :=
  n == 0 || n == bytes.length || bytes[n]?.any (!isContinuation ·)

/-- The boundary that is found by going back from place `n`; the first place is one. -/
def boundaryBefore (bytes : Bytes) : Nat → Nat
  | 0 => 0
  | n + 1 => if isBoundary bytes (n + 1) then n + 1 else boundaryBefore bytes n

section

variable {bytes : Bytes} {k n : Nat}

theorem boundaryBefore_le (bytes : Bytes) (n : Nat) : boundaryBefore bytes n ≤ n := by
  induction n with
  | zero => exact Nat.le_refl 0
  | succ n ih =>
    rw [boundaryBefore]
    split
    · exact Nat.le_refl _
    · exact Nat.le_succ_of_le ih

theorem isBoundary_boundaryBefore (bytes : Bytes) (n : Nat) :
    isBoundary bytes (boundaryBefore bytes n) = true := by
  induction n with
  | zero => rfl
  | succ n ih =>
    rw [boundaryBefore]
    split
    · assumption
    · exact ih

/-- No boundary is passed over. -/
theorem le_boundaryBefore (hb : isBoundary bytes k = true) (h : k ≤ n) :
    k ≤ boundaryBefore bytes n := by
  induction n with
  | zero => exact h
  | succ n ih =>
    rw [boundaryBefore]
    split
    · exact h
    · next none =>
      refine ih (Nat.le_of_lt_succ (Nat.lt_of_le_of_ne h ?_))
      rintro rfl
      exact none hb

end

theorem isContinuation_iff (b : UInt8) :
    isContinuation b = true ↔ 0x80 ≤ b.toNat ∧ b.toNat ≤ 0xBF := by
  rw [isContinuation, Bool.and_eq_true, decide_eq_true_iff, decide_eq_true_iff,
    UInt8.le_iff_toNat_le, UInt8.le_iff_toNat_le]
  rfl

/-- A character has one byte that begins it; all others continue it. -/
theorem encodeChar_eq (c : Char) : ∃ lead tail, String.utf8EncodeChar c = lead :: tail ∧
    isContinuation lead = false ∧ ∀ b ∈ tail, isContinuation b = true := by
  have leading : ∀ v, v < 256 → v < 0x80 ∨ 0xBF < v → isContinuation (UInt8.ofNat v) = false := by
    intro v small outside
    rw [← Bool.not_eq_true, isContinuation_iff, UInt8.toNat_ofNat_of_lt' small]
    omega
  have trailing : ∀ v, isContinuation (UInt8.ofNat (v % 64 + 128)) = true := by
    intro v
    rw [isContinuation_iff, UInt8.toNat_ofNat_of_lt' (show v % 64 + 128 < 256 by omega)]
    omega
  simp only [String.utf8EncodeChar]
  split
  · exact ⟨_, _, rfl, leading _ (by omega) (by omega), List.forall_mem_nil _⟩
  split
  · exact ⟨_, _, rfl, leading _ (by omega) (by omega), List.forall_mem_singleton.2 (trailing _)⟩
  split
  · exact ⟨_, _, rfl, leading _ (by omega) (by omega),
      List.forall_mem_cons.2 ⟨trailing _, List.forall_mem_singleton.2 (trailing _)⟩⟩
  · exact ⟨_, _, rfl, leading _ (by omega) (by omega), List.forall_mem_cons.2 ⟨trailing _,
      List.forall_mem_cons.2 ⟨trailing _, List.forall_mem_singleton.2 (trailing _)⟩⟩⟩

variable {limit n : Nat} {c : Char} {cs front : List Char}

theorem encodeChars_cons (c : Char) (cs : List Char) :
    encodeChars (c :: cs) = String.utf8EncodeChar c ++ encodeChars cs := rfl

/-- The bytes of text begin at a boundary. -/
theorem not_isContinuation_head {b : UInt8} (h : (encodeChars cs)[0]? = some b) :
    isContinuation b = false := by
  cases cs with
  | nil => cases h
  | cons c cs =>
    obtain ⟨lead, tail, hc, hlead, -⟩ := encodeChar_eq c
    rw [encodeChars_cons, hc] at h
    obtain rfl := Option.some.inj h
    exact hlead

/-- Behind its first byte, a character has no boundary before its end. -/
theorem isBoundary_cons (hn : n ≠ 0) : isBoundary (encodeChars (c :: cs)) n = true ↔
    c.utf8Size ≤ n ∧ isBoundary (encodeChars cs) (n - c.utf8Size) = true := by
  obtain ⟨lead, tail, hc, -, continued⟩ := encodeChar_eq c
  have size : (String.utf8EncodeChar c).length = c.utf8Size := String.length_utf8EncodeChar c
  have total := length_encodeChars_cons c cs
  have first : (n == 0) = false := beq_false_of_ne hn
  rw [isBoundary, first, Bool.false_or, total, encodeChars_cons]
  rcases Nat.lt_or_ge n c.utf8Size with within | behind
  · -- The byte is one of those that continue the character.
    refine iff_of_false ?_ fun h => Nat.not_le.2 within h.1
    have inside : n < (String.utf8EncodeChar c).length := size ▸ within
    have last : (n == c.utf8Size + (encodeChars cs).length) = false :=
      beq_false_of_ne (by omega)
    rw [last, Bool.false_or, List.getElem?_append_left inside, hc, List.getElem?_cons, if_neg hn]
    cases there : tail[n - 1]? with
    | none => exact Bool.false_ne_true
    | some b => simp [continued b (List.mem_of_getElem? there)]
  · rw [and_iff_right behind, List.getElem?_append_right (size ▸ behind), size]
    obtain ⟨k, rfl⟩ := Nat.exists_eq_add_of_le behind
    have last : (c.utf8Size + k == c.utf8Size + (encodeChars cs).length) =
        (k == (encodeChars cs).length) := by simp
    rw [Nat.add_sub_cancel_left, last]
    rcases Nat.eq_zero_or_pos k with rfl | hpos
    · refine iff_of_true ?_ rfl
      cases head : (encodeChars cs)[0]? with
      | none =>
        rw [List.getElem?_eq_none_iff, Nat.le_zero] at head
        simp [head]
      | some b => simp [not_isContinuation_head head]
    · rw [isBoundary, beq_false_of_ne hpos.ne', Bool.false_or]

/-- The boundaries of text are the ends of its first characters. -/
theorem isBoundary_iff : isBoundary (encodeChars cs) n = true ↔
    ∃ front, front <+: cs ∧ (encodeChars front).length = n := by
  induction cs generalizing n with
  | nil =>
    rcases Nat.eq_zero_or_pos n with rfl | hpos
    · exact iff_of_true rfl ⟨[], List.prefix_refl _, rfl⟩
    · refine iff_of_false ?_ ?_
      · have empty : encodeChars [] = [] := rfl
        simp [empty, isBoundary, hpos.ne']
      · rintro ⟨front, there, rfl⟩
        rw [List.prefix_nil.1 there] at hpos
        exact Nat.lt_irrefl 0 hpos
  | cons c cs ih =>
    rcases Nat.eq_zero_or_pos n with rfl | hpos
    · exact iff_of_true rfl ⟨[], List.nil_prefix, rfl⟩
    · rw [isBoundary_cons hpos.ne', ih]
      constructor
      · rintro ⟨behind, front, there, length⟩
        refine ⟨c :: front, (List.prefix_cons_inj c).2 there, ?_⟩
        rw [length_encodeChars_cons]
        omega
      · rintro ⟨front, there, length⟩
        cases front with
        | nil =>
          cases length
          exact absurd hpos (Nat.lt_irrefl 0)
        | cons d front =>
          obtain ⟨rfl, inner⟩ := List.cons_prefix_cons.1 there
          rw [length_encodeChars_cons] at length
          exact ⟨by omega, front, inner, by omega⟩

theorem truncateChars_isPrefix (limit : Nat) (cs : List Char) : truncateChars limit cs <+: cs := by
  induction cs generalizing limit with
  | nil => exact List.prefix_refl _
  | cons c cs ih =>
    rw [truncateChars]
    split
    · exact (List.prefix_cons_inj c).2 (ih _)
    · exact List.nil_prefix

/-- No character is dropped that would still fit. -/
theorem isPrefix_truncateChars (there : front <+: cs) (fits : (encodeChars front).length ≤ limit) :
    front <+: truncateChars limit cs := by
  induction cs generalizing front limit with
  | nil => exact there
  | cons c cs ih =>
    cases front with
    | nil => exact List.nil_prefix
    | cons d front =>
      obtain ⟨rfl, inner⟩ := List.cons_prefix_cons.1 there
      rw [length_encodeChars_cons] at fits
      rw [truncateChars, if_pos (by omega)]
      exact (List.prefix_cons_inj d).2 (ih inner (by omega))

theorem encodeChars_isPrefix (there : front <+: cs) : encodeChars front <+: encodeChars cs := by
  obtain ⟨rest, rfl⟩ := there
  exact ⟨encodeChars rest, List.flatMap_append.symm⟩

/-- Text that is too long is cut at the boundary that going back from the limit finds. -/
theorem length_truncateChars (limit : Nat) (cs : List Char) :
    (encodeChars (truncateChars limit cs)).length =
      if (encodeChars cs).length ≤ limit then (encodeChars cs).length
      else boundaryBefore (encodeChars cs) limit := by
  split
  · next fits => rw [truncateChars_of_length_le fits]
  · obtain ⟨front, there, length⟩ :=
      isBoundary_iff.1 (isBoundary_boundaryBefore (encodeChars cs) limit)
    have fits : (encodeChars front).length ≤ limit := length ▸ boundaryBefore_le _ _
    apply Nat.le_antisymm
    · exact le_boundaryBefore (isBoundary_iff.2 ⟨_, truncateChars_isPrefix limit cs, rfl⟩)
        (length_truncateChars_le limit cs)
    · rw [← length]
      exact (encodeChars_isPrefix (isPrefix_truncateChars there fits)).length_le

/-- A cut of a text that splits no character, has at most `limit` bytes and is the longest one. -/
structure LongestCut (limit : Nat) (s cut : String) : Prop where
  front : cut.toList <+: s.toList
  fits : (encode cut).length ≤ limit
  longest : ∀ other : String, other.toList <+: s.toList → (encode other).length ≤ limit →
    other.toList <+: cut.toList

theorem truncate_longest (limit : Nat) (s : String) : LongestCut limit s (truncate s limit) := by
  have cut : (truncate s limit).toList = truncateChars limit s.toList := String.toList_ofList
  constructor
  · rw [cut]
    exact truncateChars_isPrefix limit s.toList
  · rw [encode, cut]
    exact length_truncateChars_le limit s.toList
  · intro other there fits
    rw [cut]
    exact isPrefix_truncateChars there fits

theorem encode_truncate (limit : Nat) (s : String) : encode (truncate s limit) =
    (encode s).take (if (encode s).length ≤ limit then (encode s).length
      else boundaryBefore (encode s) limit) := by
  have inside := encodeChars_isPrefix (truncateChars_isPrefix limit s.toList)
  have cut := List.prefix_iff_eq_take.1 inside
  rw [length_truncateChars] at cut
  rw [encode, truncate, String.toList_ofList]
  exact cut

def beforeNul (s : String) : String := String.ofList (s.toList.takeWhile (· ≠ '\x00'))

def fieldBytes (width : Nat) (text : String) : Bytes :=
  littleEndian width ((encode text).length + 1) ++ (encode text ++ [0])

/-- The writer never fails, and the reader finds the longest cut of the text that leaves room for
the NUL, up to its first NUL. -/
def Conveys (width cap : Nat) (write : String → Except EncodeError Bytes) (read : Reader String)
    (s : String) : Prop :=
  ∃ cut, LongestCut (cap - 1) s cut ∧ (encode cut).length + 1 ≤ cap ∧
    (encode cut).length + 1 < span width ∧ write s = .ok (fieldBytes width cut) ∧
    ∀ rest, read (fieldBytes width cut ++ rest) = (.ok (beforeNul cut), rest)

theorem counted_conveys {width cap : Nat} {write : String → Except EncodeError Bytes} {s : String}
    (hpos : 0 < cap) (room : cap < span width)
    (hw : write s = (Codec.counted width).write (terminated cap s)) :
    Conveys width cap write ((Codec.counted width).read.map ofField) s := by
  have fits := length_terminated_le hpos s
  have small := fits.trans_lt room
  obtain ⟨bytes, written, read⟩ := Codec.carries_counted small
  have payload : (terminated cap s).length = (encode (truncate s (cap - 1))).length + 1 := by
    rw [terminated, List.length_append, List.length_singleton]
  have framed : bytes = fieldBytes width (truncate s (cap - 1)) := by
    have direct : (Codec.counted width).write (terminated cap s) =
        .ok (littleEndian width (terminated cap s).length ++ terminated cap s) := if_pos small
    rw [fieldBytes, ← payload]
    exact Except.ok.inj (written.symm.trans direct)
  rw [payload] at fits small
  rw [framed] at written read
  refine ⟨truncate s (cap - 1), truncate_longest _ s, fits, small, hw.trans written, ?_⟩
  intro rest
  rw [Reader.map_of_eq (read rest), ofField_terminated, received, beforeNul, truncate,
    String.toList_ofList]

theorem short_conveys (s : String) : Conveys 1 shortCap shortCodec.write shortCodec.read s := by
  have hw : shortCodec.write s = Codec.variable1.write (terminated shortCap s) := by
    simp only [shortCodec]
  exact counted_conveys (by decide) (by decide) hw

theorem long_conveys (s : String) {cap : Nat} (h : 0 < cap) :
    Conveys 2 (min cap 65535) (writeLong cap) longCodec.read s := by
  have room : min cap 65535 < span 2 := Nat.lt_succ_of_le (Nat.min_le_right _ _)
  exact counted_conveys (by omega) room (writeLong_of_pos h s)

/-- What becomes of text in fields: short ones, and long ones of `cap` bytes at most. The cut is
made where going back from the limit finds a boundary. -/
structure Fields (cap : Nat) (s : String) : Prop where
  short : Conveys 1 shortCap shortCodec.write shortCodec.read s
  long : Conveys 2 (min cap 65535) (writeLong cap) longCodec.read s
  cut : ∀ limit, LongestCut limit s (truncate s limit)
  searched : ∀ limit, encode (truncate s limit) = (encode s).take
    (if (encode s).length ≤ limit then (encode s).length else boundaryBefore (encode s) limit)

theorem fields_convey_text (s : String) {cap : Nat} (h : 0 < cap) : Fields cap s where
  short := short_conveys s
  long := long_conveys s h
  cut limit := truncate_longest limit s
  searched limit := encode_truncate limit s

/-- With six bytes, there is no room for the last character but one, and the reader stops at the
NUL inside. -/
theorem fields_convey_text_straddling : 0 < 6 ∧ Fields 6 "ä\x00€z" ∧
    (writeLong 6 "ä\x00€z").toOption = some [4, 0, 0xC3, 0xA4, 0, 0] :=
  ⟨by decide, fields_convey_text "ä\x00€z" (by decide), by decide +kernel⟩

end ViewerCircuit.Text
