import Mathlib.Data.List.Chain
import ViewerCircuit.Proofs.ZeroRuns

/-!
# The shortest coding

Zero-coded bytes are a sequence of pieces, and every sequence of pieces decodes. The encoder writes
one whose runs are full wherever more zeros follow: no coding of the same bytes is shorter, and no
other one has full runs.
-/
namespace ViewerCircuit.ZeroCoding

inductive Piece where
  | byte (b : UInt8) (h : b ≠ 0)
  | zeros (count : UInt8) (h : count ≠ 0)

namespace Piece

def coded : Piece → Bytes
  | byte b _ => [b]
  | zeros count _ => [0, count]

def plain : Piece → Bytes
  | byte b _ => [b]
  | zeros count _ => List.replicate count.toNat 0

/-- Zeros follow zeros only where the first run is full. -/
def MayPrecede : Piece → Piece → Prop
  | zeros count _, zeros _ _ => count = 255
  | _, _ => True

end Piece

def coded (ps : List Piece) : Bytes := ps.flatMap Piece.coded

def plain (ps : List Piece) : Bytes := ps.flatMap Piece.plain

def FullRuns (ps : List Piece) : Prop := ps.IsChain Piece.MayPrecede

variable {x y output : Bytes} {ps : List Piece} {pending : Nat}

theorem coded_byte {b : UInt8} (h : b ≠ 0) (ps : List Piece) :
    coded (.byte b h :: ps) = b :: coded ps := rfl

theorem toNat_ne_zero {count : UInt8} (h : count ≠ 0) : count.toNat ≠ 0 :=
  fun e => h (UInt8.toNat_inj.1 e)

theorem coded_zeros {count : UInt8} (h : count ≠ 0) (ps : List Piece) :
    coded (.zeros count h :: ps) = run count.toNat ++ coded ps := by
  rw [run, if_neg (toNat_ne_zero h), UInt8.ofNat_toNat]
  rfl

theorem plain_byte {b : UInt8} (h : b ≠ 0) (ps : List Piece) :
    plain (.byte b h :: ps) = b :: plain ps := rfl

theorem plain_zeros {count : UInt8} (h : count ≠ 0) (ps : List Piece) :
    plain (.zeros count h :: ps) = List.replicate count.toNat 0 ++ plain ps := rfl

theorem decodeOnto_eq (output y : Bytes) :
    decodeOnto output y = (decode y).map (output ++ ·) := by
  induction y using decode.induct generalizing output with
  | case1 => simp [decodeOnto, decode, Except.map]
  | case2 => rfl
  | case3 => rfl
  | case4 length rest h ih =>
    rw [decodeOnto, decode]
    simp only [h, if_true, if_false, ih]
    cases decode rest <;> simp [Except.map]
  | case5 b rest h ih =>
    rw [decodeOnto.eq_def, decode_cons_of_ne h]
    simp only [h, if_false, ih]
    cases decode rest <;> simp [Except.map]

theorem decode_coded (ps : List Piece) : decode (coded ps) = .ok (plain ps) := by
  induction ps with
  | nil => rfl
  | cons p ps ih =>
    cases p with
    | byte b h =>
      rw [coded_byte, decode_cons_of_ne h, ih]
      rfl
    | zeros count h =>
      rw [coded_zeros]
      exact decode_run (Nat.le_of_lt_succ count.toNat_lt) ih

theorem pieces_of_decode (h : decode y = .ok x) : ∃ ps, y = coded ps ∧ x = plain ps := by
  induction y using decode.induct generalizing x with
  | case1 => exact ⟨[], rfl, (Except.ok.inj h).symm⟩
  | case2 => cases h
  | case3 => cases h
  | case4 count rest hcount ih =>
    rw [decode] at h
    simp only [hcount, if_true, if_false] at h
    cases hd : decode rest with
    | error e => rw [hd] at h; cases h
    | ok z =>
      rw [hd] at h
      obtain ⟨ps, rfl, rfl⟩ := ih hd
      exact ⟨.zeros count hcount :: ps, rfl, (Except.ok.inj h).symm⟩
  | case5 b rest hb ih =>
    rw [decode_cons_of_ne hb] at h
    cases hd : decode rest with
    | error e => rw [hd] at h; cases h
    | ok z =>
      rw [hd] at h
      obtain ⟨ps, rfl, rfl⟩ := ih hd
      exact ⟨.byte b hb :: ps, rfl, (Except.ok.inj h).symm⟩

/-- Zeros at hand join the pending ones, until these fill a run. -/
theorem encodeAfter_replicate {more : Nat} (hp : pending ≤ 255) (hm : more ≤ 255) (rest : Bytes) :
    encodeAfter pending (List.replicate more 0 ++ rest) =
      if pending + more ≤ 255 then encodeAfter (pending + more) rest
      else run 255 ++ encodeAfter (pending + more - 255) rest := by
  induction more generalizing pending with
  | zero => simp [hp]
  | succ more ih =>
    rw [List.replicate_succ, List.cons_append, encodeAfter, if_pos rfl]
    by_cases hfull : pending = 255
    · have beyond : pending + (more + 1) - 255 = 1 + more := by omega
      rw [if_pos hfull, ih (by decide) (by omega), if_pos (by omega), if_neg (by omega), beyond,
        hfull]
    · have joined : pending + (more + 1) = pending + 1 + more := by omega
      rw [if_neg hfull, ih (by omega) (by omega), joined]

theorem length_run_le (count : Nat) : (run count).length ≤ 2 := by
  unfold run
  split <;> simp

theorem length_run_of_pos {count : Nat} (h : 0 < count) : (run count).length = 2 := by
  rw [run, if_neg (Nat.ne_of_gt h)]
  rfl

/-- Whatever pieces make up the bytes, the encoder needs no more for them than they do. -/
theorem length_encodeAfter_le (hp : pending ≤ 255) (ps : List Piece) :
    (encodeAfter pending (plain ps)).length ≤ (run pending).length + (coded ps).length := by
  induction ps generalizing pending with
  | nil => exact Nat.le_add_right _ _
  | cons p ps ih =>
    cases p with
    | byte b h =>
      have tail := ih (Nat.zero_le 255)
      rw [show (run 0).length = 0 from rfl] at tail
      rw [plain_byte, encodeAfter, if_neg h, coded_byte, List.length_append, List.length_cons,
        List.length_cons]
      omega
    | zeros count h =>
      have hpos : 0 < count.toNat := Nat.pos_of_ne_zero (toNat_ne_zero h)
      have hle : count.toNat ≤ 255 := Nat.le_of_lt_succ count.toNat_lt
      have hrun := length_run_of_pos hpos
      rw [plain_zeros, encodeAfter_replicate hp hle, coded_zeros, List.length_append]
      split
      · next hjoin =>
        have tail := ih hjoin
        have := length_run_le (pending + count.toNat)
        omega
      · -- Two runs are written where the pieces have one, but then zeros were pending.
        have hrest : pending + count.toNat - 255 ≤ 255 := by omega
        have tail := ih hrest
        have hpending : (run pending).length = 2 := length_run_of_pos (by omega)
        have hfull := length_run_le 255
        have := length_run_le (pending + count.toNat - 255)
        rw [List.length_append]
        omega

def BeginsPlain (ps : List Piece) : Prop := ∀ count h, ps.head? ≠ some (.zeros count h)

theorem FullRuns.zeros {count : UInt8} {h : count ≠ 0} (hf : FullRuns ps)
    (hc : count = 255 ∨ BeginsPlain ps) : FullRuns (.zeros count h :: ps) := by
  refine List.isChain_cons.2 ⟨fun p hp => ?_, hf⟩
  cases p with
  | byte b hb => trivial
  | zeros other ho => exact hc.resolve_right fun begins => begins other ho hp

theorem FullRuns.of_zeros {count : UInt8} {h : count ≠ 0} (hf : FullRuns (.zeros count h :: ps)) :
    count = 255 ∨ BeginsPlain ps := by
  by_cases hc : count = 255
  · exact .inl hc
  · exact .inr fun other ho hhead => hc ((List.isChain_cons.1 hf).1 _ hhead)

/-- The encoder writes pieces with full runs as they are, if the pending zeros are a full run too or
no zeros follow them. -/
theorem encodeAfter_fullRuns (hf : FullRuns ps)
    (hp : pending = 0 ∨ pending = 255 ∨ pending ≤ 255 ∧ BeginsPlain ps) :
    encodeAfter pending (plain ps) = run pending ++ coded ps := by
  induction ps generalizing pending with
  | nil => exact (List.append_nil _).symm
  | cons p ps ih =>
    have hrest : FullRuns ps := hf.tail
    cases p with
    | byte b h =>
      rw [plain_byte, encodeAfter, if_neg h, ih hrest (.inl rfl)]
      rfl
    | zeros count h =>
      have hpos : 0 < count.toNat := Nat.pos_of_ne_zero (toNat_ne_zero h)
      have hle : count.toNat ≤ 255 := Nat.le_of_lt_succ count.toNat_lt
      have rest : encodeAfter count.toNat (plain ps) = run count.toNat ++ coded ps := by
        refine ih hrest (.inr ?_)
        exact hf.of_zeros.imp (congrArg UInt8.toNat) fun begins => ⟨hle, begins⟩
      rw [plain_zeros, encodeAfter_replicate (by omega) hle, coded_zeros]
      rcases hp with rfl | rfl | ⟨-, begins⟩
      · rw [if_pos (by omega), Nat.zero_add, rest]
        rfl
      · rw [if_neg (by omega), Nat.add_sub_cancel_left, rest]
      · exact absurd rfl (begins count h)

theorem encode_plain (hf : FullRuns ps) : encode (plain ps) = coded ps :=
  encodeAfter_fullRuns hf (.inl rfl)

theorem FullRuns.flush (hf : FullRuns ps) (hp : pending ≤ 255)
    (hc : pending = 255 ∨ BeginsPlain ps) :
    ∃ qs, FullRuns qs ∧ plain qs = List.replicate pending 0 ++ plain ps := by
  by_cases hnone : pending = 0
  · exact ⟨ps, hf, by rw [hnone]; rfl⟩
  · have hcount : (UInt8.ofNat pending).toNat = pending := by simp; omega
    have hne : UInt8.ofNat pending ≠ 0 := fun e => hnone (by rw [← hcount, e]; rfl)
    refine ⟨.zeros _ hne :: ps, hf.zeros (hc.imp_left fun h => by rw [h]; rfl), ?_⟩
    rw [plain_zeros, hcount]

/-- Pending zeros and the bytes after them can be cut into pieces with full runs. -/
theorem exists_fullRuns (hp : pending ≤ 255) (bytes : Bytes) :
    ∃ ps, FullRuns ps ∧ plain ps = List.replicate pending 0 ++ bytes := by
  induction bytes generalizing pending with
  | nil =>
    have hnil : FullRuns [] := .nil
    exact hnil.flush hp (.inr (by simp [BeginsPlain]))
  | cons b bytes ih =>
    by_cases hb : b = 0
    · subst hb
      by_cases hfull : pending = 255
      · have hone : 1 ≤ 255 := by decide
        obtain ⟨ps, hf, hps⟩ := ih hone
        obtain ⟨qs, hq, hqs⟩ := hf.flush hp (.inl hfull)
        exact ⟨qs, hq, by rw [hqs, hps]; rfl⟩
      · have hmore : pending + 1 ≤ 255 := by omega
        obtain ⟨ps, hf, hps⟩ := ih hmore
        refine ⟨ps, hf, ?_⟩
        rw [hps, List.replicate_succ', List.append_assoc]
        rfl
    · obtain ⟨ps, hf, hps⟩ := ih (Nat.zero_le 255)
      have hbyte : FullRuns (.byte b hb :: ps) :=
        List.isChain_cons.2 ⟨fun _ _ => trivial, hf⟩
      obtain ⟨qs, hq, hqs⟩ := hbyte.flush hp (.inr (by simp [BeginsPlain]))
      exact ⟨qs, hq, by rw [hqs, plain_byte, hps]; rfl⟩

/-- Among all codings of the bytes, the encoder writes the one with full runs. -/
theorem eq_encode_iff (h : decode y = .ok x) : y = encode x ↔ ∃ ps, y = coded ps ∧ FullRuns ps := by
  constructor
  · rintro rfl
    obtain ⟨ps, hf, rfl⟩ := exists_fullRuns (Nat.zero_le 255) x
    exact ⟨ps, encode_plain hf, hf⟩
  · rintro ⟨ps, rfl, hf⟩
    obtain rfl := Except.ok.inj ((decode_coded ps).symm.trans h)
    exact (encode_plain hf).symm

theorem length_encode_le (h : decode y = .ok x) : (encode x).length ≤ y.length := by
  obtain ⟨ps, rfl, rfl⟩ := pieces_of_decode h
  exact (length_encodeAfter_le (Nat.zero_le 255) ps).trans_eq (Nat.zero_add _)

/-- What is encoded decodes onto any output. Exactly the sequences of pieces decode, each to its
bytes and zeros, and of all that decode to the same bytes the encoder's is a shortest one, and the
only one with full runs. -/
theorem coding_is_shortest (x y output : Bytes) :
    decodeOnto output (encode x) = .ok (output ++ x) ∧
    ((∃ z, decodeOnto output y = .ok z) ↔ ∃ ps, y = coded ps) ∧
    (∀ ps, decodeOnto output (coded ps) = .ok (output ++ plain ps)) ∧
    (decodeOnto output y = .ok (output ++ x) →
      (encode x).length ≤ y.length ∧ (y = encode x ↔ ∃ ps, y = coded ps ∧ FullRuns ps)) := by
  have onto : ∀ {y z : Bytes}, decodeOnto output y = .ok z ↔
      ∃ x, decode y = .ok x ∧ output ++ x = z := by
    intro y z
    rw [decodeOnto_eq]
    cases decode y <;> simp [Except.map]
  refine ⟨onto.2 ⟨x, decode_encode x, rfl⟩, ⟨?_, ?_⟩, ?_, ?_⟩
  · rintro ⟨z, hz⟩
    obtain ⟨x, hx, -⟩ := onto.1 hz
    obtain ⟨ps, hps, -⟩ := pieces_of_decode hx
    exact ⟨ps, hps⟩
  · rintro ⟨ps, rfl⟩
    exact ⟨_, onto.2 ⟨_, decode_coded ps, rfl⟩⟩
  · intro ps
    exact onto.2 ⟨_, decode_coded ps, rfl⟩
  · intro h
    obtain ⟨z, hz, he⟩ := onto.1 h
    obtain rfl := List.append_cancel_left he
    exact ⟨length_encode_le hz, eq_encode_iff hz⟩

/-- A coding of 256 zeros that is as short as the encoder's, but begins with a run that is not
full. -/
def splitRun : Bytes := [0, 1, 0, 255]

theorem coding_is_shortest_splitRun :
    decodeOnto [9] splitRun = .ok ([9] ++ List.replicate 256 0) ∧
      (encode (List.replicate 256 0)).length ≤ splitRun.length ∧
      ¬ ∃ ps, splitRun = coded ps ∧ FullRuns ps := by
  have h : decodeOnto [9] splitRun = .ok ([9] ++ List.replicate 256 0) := by decide +kernel
  obtain ⟨-, -, -, shortest⟩ := coding_is_shortest (List.replicate 256 0) splitRun [9]
  obtain ⟨hle, hiff⟩ := shortest h
  exact ⟨h, hle, fun hf => absurd (hiff.2 hf) (by decide +kernel)⟩

end ViewerCircuit.ZeroCoding
