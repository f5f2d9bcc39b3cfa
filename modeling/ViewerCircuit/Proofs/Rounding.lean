import Mathlib.Algebra.Order.Field.Power
import Mathlib.Algebra.Order.Floor.Semifield
import Mathlib.Data.Int.Log
import Mathlib.Data.Rat.Floor
import Mathlib.Tactic.FieldSimp
import Mathlib.Tactic.Linarith
import Mathlib.Tactic.Ring

/-!
# Rounding to double precision

Sums, products and quotients of doubles are the exact results, rounded. A positive number has a grid
of numbers with 53 binary digits around it, and becomes the nearest one of them; of two, the even
one. Rounding never changes the order of two numbers, and keeps the numbers of the grid.
-/
namespace ViewerCircuit.Rounding

open Float.Model.UnpackedFloat

/-- What rounding has to know of `q`: its whole part, the first binary digit behind the point, and
if there are more. -/
def extend (q : ℚ) : ExtendedMantissa where
  mantissa := ⌊q⌋₊
  roundBit := ⌊2 * q⌋₊ % 2 != 0
  stickyBit := decide ((⌊2 * q⌋₊ : ℚ) ≠ 2 * q)

def nearest (q : ℚ) : ℕ := (extend q).roundedMantissa

section

variable {q r : ℚ} {n : ℕ}

theorem floor_eq (q : ℚ) : ⌊q⌋₊ = ⌊2 * q⌋₊ / 2 := by
  have halved : q = 2 * q / (2 : ℕ) := by
    push_cast
    ring
  conv_lhs => rw [halved, Nat.floor_div_natCast]

theorem whole_iff (q : ℚ) : (⌊q⌋₊ : ℚ) = q ↔ ⌊2 * q⌋₊ % 2 = 0 ∧ (⌊2 * q⌋₊ : ℚ) = 2 * q := by
  constructor
  · intro h
    have doubled : 2 * q = ((2 * ⌊q⌋₊ : ℕ) : ℚ) := by
      push_cast
      rw [h]
    rw [doubled, Nat.floor_natCast]
    exact ⟨Nat.mul_mod_right 2 _, rfl⟩
  · rintro ⟨heven, h⟩
    have doubled : ((2 * ⌊q⌋₊ : ℕ) : ℚ) = 2 * q := by
      rw [floor_eq q, Nat.mul_div_cancel' (Nat.dvd_of_mod_eq_zero heven), h]
    push_cast at doubled
    linarith

theorem extend_half (q : ℚ) : (extend q).shiftRightOne = extend (q / 2) := by
  have double : 2 * (q / 2) = q := by ring
  have floors := floor_eq (q / 2)
  rw [double] at floors
  simp only [extend, ExtendedMantissa.shiftRightOne, double, floors, ExtendedMantissa.mk.injEq,
    true_and]
  rw [Bool.eq_iff_iff]
  simp only [Bool.or_eq_true, decide_eq_true_eq, bne_iff_ne, ne_eq, whole_iff q, not_and_or]

theorem extend_shift (q : ℚ) (n : ℕ) : extend q >>> n = extend (q / 2 ^ n) := by
  induction n with
  | zero => rw [pow_zero, div_one]; rfl
  | succ n ih =>
    have next : extend q >>> (n + 1) = (extend q >>> n).shiftRightOne := rfl
    rw [next, ih, extend_half, div_div, pow_succ]

theorem extend_natCast (n : ℕ) : extend n = .ofMantissaAndAccuracy n .exact := by
  have doubled : (2 : ℚ) * n = ((2 * n : ℕ) : ℚ) := by push_cast; rfl
  simp only [extend, ExtendedMantissa.ofMantissaAndAccuracy, doubled, Nat.floor_natCast,
    Nat.mul_mod_right, ne_eq, not_true_eq_false, decide_false, bne_self_eq_false]

/-- The remainder of a division tells what has to be known behind the point. -/
theorem extend_fraction {num den : ℕ} (h : num < den) : extend (n + num / den) =
    .ofMantissaAndAccuracy n (accuracyOfFraction num den) := by
  have hden : (0 : ℚ) < den := by
    have : 0 < den := by omega
    exact_mod_cast this
  have floor : ⌊2 * (n + num / den : ℚ)⌋₊ = 2 * n + 2 * num / den := by
    have split : 2 * (n + num / den : ℚ) = ((2 * num : ℕ) : ℚ) / den + (2 * n : ℕ) := by
      push_cast
      ring
    rw [split, Nat.floor_add_natCast (by positivity), Nat.floor_div_eq_div, add_comm]
  have whole : ((2 * n + 2 * num / den : ℕ) : ℚ) = 2 * (n + num / den : ℚ) ↔
      2 * num / den * den = 2 * num := by
    rw [← Nat.cast_inj (R := ℚ)]
    push_cast
    field_simp
    constructor <;> intro h <;> linarith
  simp only [extend, floor_eq (n + num / den : ℚ), floor, ne_eq, whole, Nat.mul_add_mod]
  rcases Nat.eq_zero_or_pos num with rfl | hpos
  · simp [accuracyOfFraction, ExtendedMantissa.ofMantissaAndAccuracy]
  · rw [accuracyOfFraction, if_neg hpos.ne']
    rcases lt_trichotomy (2 * num) den with hlt | heq | hgt
    · rw [Nat.compare_eq_lt.2 hlt, Nat.div_eq_of_lt hlt]
      simp [ExtendedMantissa.ofMantissaAndAccuracy, hpos.ne']
    · have half : 2 * num / den = 1 := by rw [heq, Nat.div_self (by omega)]
      rw [Nat.compare_eq_eq.2 heq, half, heq]
      simp [ExtendedMantissa.ofMantissaAndAccuracy, Nat.mul_add_div]
    · have half : 2 * num / den = 1 := Nat.div_eq_of_lt_le (by omega) (by omega)
      rw [Nat.compare_eq_gt.2 hgt, half]
      simp [ExtendedMantissa.ofMantissaAndAccuracy, Nat.mul_add_div, hgt.ne]

theorem nearest_eq (q : ℚ) : nearest q =
    if ⌊2 * q⌋₊ % 2 = 0 then ⌊q⌋₊
    else if (⌊2 * q⌋₊ : ℚ) = 2 * q then ⌊q⌋₊ + ⌊q⌋₊ % 2
    else ⌊q⌋₊ + 1 := by
  rw [nearest, ExtendedMantissa.roundedMantissa]
  rcases Nat.mod_two_eq_zero_or_one ⌊2 * q⌋₊ with hbit | hbit <;>
    by_cases hwhole : (⌊2 * q⌋₊ : ℚ) = 2 * q <;>
    simp [extend, hbit, hwhole, ExtendedMantissa.accuracy, Accuracy.roundToNearestEven]

theorem nearest_natCast (n : ℕ) : nearest n = n := by
  rw [nearest, extend_natCast]
  rfl

theorem floor_le_nearest (q : ℚ) : ⌊q⌋₊ ≤ nearest q := by
  rw [nearest_eq]
  split_ifs <;> omega

theorem nearest_le_floor (q : ℚ) : nearest q ≤ (⌊2 * q⌋₊ + 1) / 2 := by
  rw [nearest_eq]
  have := floor_eq q
  split_ifs <;> omega

theorem nearest_mono (hq : 0 ≤ q) (h : q ≤ r) : nearest q ≤ nearest r := by
  have floors : ⌊2 * q⌋₊ ≤ ⌊2 * r⌋₊ := Nat.floor_mono (by linarith)
  rcases floors.lt_or_eq with hlt | heq
  · have above := floor_le_nearest r
    have below := nearest_le_floor q
    have := floor_eq r
    omega
  · -- With the same digits, only what follows behind them can make a difference.
    have tie : (⌊2 * r⌋₊ : ℚ) = 2 * r → (⌊2 * q⌋₊ : ℚ) = 2 * q := by
      intro hr
      have floor_le : (⌊2 * q⌋₊ : ℚ) ≤ 2 * q := Nat.floor_le (by linarith)
      rw [heq] at floor_le ⊢
      linarith
    rw [nearest_eq q, nearest_eq r, floor_eq q, floor_eq r, ← heq]
    rw [← heq] at tie
    split_ifs with heven hq hr hr
    · exact le_rfl
    · exact le_rfl
    · omega
    · exact absurd (tie hr) hq
    · exact le_rfl

/-- Less than a half behind the point is dropped. -/
theorem nearest_of_lt_half (h : n ≤ q) (hlt : q < n + 1 / 2) : nearest q = n := by
  have digits : ⌊2 * q⌋₊ = 2 * n := by
    rw [Nat.floor_eq_iff (by have := n.cast_nonneg (α := ℚ); linarith)]
    push_cast
    constructor <;> linarith
  rw [nearest_eq, if_pos (by omega), floor_eq, digits, Nat.mul_div_cancel_left n two_pos]

end

def grid (z : ℚ) : ℤ := max (Int.log 2 z - 52) (-1074)

def magnitude (z : ℚ) : ℚ := nearest (z / 2 ^ grid z) * 2 ^ grid z

section

variable {y z : ℚ} {m : ℕ} {e : ℤ}

theorem lt_of_grid (z : ℚ) : z / 2 ^ grid z < 2 ^ 53 := by
  have below : z < (2 : ℚ) ^ (Int.log 2 z + 1) := Int.lt_zpow_succ_log_self one_lt_two z
  have exponents : Int.log 2 z + 1 ≤ 53 + grid z := by
    have := le_max_left (Int.log 2 z - 52) (-1074)
    rw [grid]
    omega
  rw [div_lt_iff₀ (by positivity)]
  calc z < (2 : ℚ) ^ (Int.log 2 z + 1) := below
    _ ≤ (2 : ℚ) ^ (53 + grid z) := zpow_le_zpow_right₀ one_le_two exponents
    _ = 2 ^ 53 * 2 ^ grid z := by rw [zpow_add₀ two_ne_zero, zpow_ofNat]

theorem magnitude_nonneg (z : ℚ) : 0 ≤ magnitude z := by
  rw [magnitude]
  positivity

@[simp] theorem magnitude_zero : magnitude 0 = 0 := by
  rw [magnitude, zero_div, show nearest 0 = 0 from nearest_natCast 0, Nat.cast_zero, zero_mul]

theorem digits_le (hz : 0 ≤ z) : nearest (z / 2 ^ grid z) ≤ 2 ^ 53 := by
  rw [← nearest_natCast (2 ^ 53)]
  apply nearest_mono (by positivity)
  push_cast
  exact (lt_of_grid z).le

theorem le_digits (hz : 0 < z) (hnormal : -1074 < grid z) :
    2 ^ 52 ≤ nearest (z / 2 ^ grid z) := by
  have exponent : Int.log 2 z = 52 + grid z := by
    rw [grid] at hnormal ⊢
    omega
  have above : (2 : ℚ) ^ Int.log 2 z ≤ z := Int.zpow_log_le_self one_lt_two hz
  rw [← nearest_natCast (2 ^ 52)]
  apply nearest_mono (by positivity)
  rw [le_div_iff₀ (by positivity)]
  rw [exponent, zpow_add₀ two_ne_zero] at above
  exact_mod_cast above

theorem grid_mono (hy : 0 < y) (h : y ≤ z) : grid y ≤ grid z := by
  have := Int.log_mono_right (b := 2) hy h
  rw [grid, grid]
  omega

theorem magnitude_mono (hy : 0 ≤ y) (h : y ≤ z) : magnitude y ≤ magnitude z := by
  rcases hy.eq_or_lt with rfl | hpos
  · rw [magnitude_zero]
    exact magnitude_nonneg z
  · rcases (grid_mono hpos h).lt_or_eq with hlt | heq
    · -- The power of two that begins the grid of `z` is between them.
      have floor : -1074 ≤ grid y := le_max_right _ _
      have upper : (nearest (y / 2 ^ grid y) : ℚ) ≤ 2 ^ 53 := by exact_mod_cast digits_le hy
      have lower : (2 : ℚ) ^ 52 ≤ nearest (z / 2 ^ grid z) := by
        exact_mod_cast le_digits (hpos.trans_le h) (by omega)
      calc magnitude y ≤ 2 ^ 53 * 2 ^ grid y := by
            rw [magnitude]
            gcongr
        _ = 2 ^ 52 * 2 ^ (grid y + 1) := by rw [zpow_add₀ two_ne_zero]; ring
        _ ≤ 2 ^ 52 * 2 ^ grid z := by
          gcongr
          · exact one_le_two
          · omega
        _ ≤ magnitude z := by
          rw [magnitude]
          gcongr
    · rw [magnitude, magnitude, heq]
      have : nearest (y / 2 ^ grid z) ≤ nearest (z / 2 ^ grid z) :=
        nearest_mono (by positivity) (by gcongr)
      gcongr

/-- Numbers of the format are kept. -/
theorem magnitude_fixed (hm : m < 2 ^ 53) (he : -1074 ≤ e) : magnitude (m * 2 ^ e) = m * 2 ^ e := by
  rcases Nat.eq_zero_or_pos m with rfl | hpos
  · simp
  · obtain ⟨z, hz⟩ : ∃ z : ℚ, m * 2 ^ e = z := ⟨_, rfl⟩
    have zpos : 0 < z := by
      rw [← hz]
      positivity
    have coarse : grid z ≤ e := by
      have below : z < (2 : ℚ) ^ (53 + e) := by
        rw [← hz, zpow_add₀ two_ne_zero]
        have : (m : ℚ) < 2 ^ (53 : ℤ) := by exact_mod_cast hm
        gcongr
      have := (Int.lt_zpow_iff_log_lt one_lt_two zpos).1 (by exact_mod_cast below)
      rw [grid]
      omega
    obtain ⟨k, hk⟩ := Int.eq_ofNat_of_zero_le (sub_nonneg.2 coarse)
    have whole : z / 2 ^ grid z = ((m * 2 ^ k : ℕ) : ℚ) := by
      have scaled : z / 2 ^ grid z = m * 2 ^ (e - grid z) := by
        rw [zpow_sub₀ two_ne_zero, ← mul_div_assoc, hz]
      rw [scaled, hk]
      push_cast
      rfl
    rw [hz, magnitude, whole, nearest_natCast, ← whole, div_mul_cancel₀ _ (by positivity)]

/-- Less than one is lost when it is added to a number without binary digits behind the point. -/
theorem magnitude_absorbs (hm : m < 2 ^ 53) (hnormal : 2 ^ 52 ≤ m) (he : 1 ≤ e) (hy : 0 ≤ y)
    (hlt : y < 1) : magnitude (m * 2 ^ e + y) = m * 2 ^ e := by
  have two_le : (2 : ℚ) ≤ 2 ^ e := by
    calc (2 : ℚ) = 2 ^ (1 : ℤ) := (zpow_one 2).symm
      _ ≤ 2 ^ e := zpow_le_zpow_right₀ one_le_two he
  have same : grid (m * 2 ^ e + y) = e := by
    have pos : 0 < (m * 2 ^ e + y : ℚ) := by positivity
    have above : Int.log 2 (m * 2 ^ e + y : ℚ) < 53 + e := by
      have room : (m + 1 : ℚ) * 2 ^ e ≤ 2 ^ 53 * 2 ^ e := by
        have : (m + 1 : ℚ) ≤ 2 ^ 53 := by exact_mod_cast hm
        gcongr
      rw [add_one_mul] at room
      rw [← Int.lt_zpow_iff_log_lt one_lt_two pos, Nat.cast_ofNat, zpow_add₀ two_ne_zero,
        zpow_ofNat]
      linarith
    have below : 52 + e ≤ Int.log 2 (m * 2 ^ e + y : ℚ) := by
      have normal : (2 : ℚ) ^ 52 * 2 ^ e ≤ m * 2 ^ e := by
        have : (2 : ℚ) ^ 52 ≤ m := by exact_mod_cast hnormal
        gcongr
      rw [← Int.zpow_le_iff_le_log one_lt_two pos, Nat.cast_ofNat, zpow_add₀ two_ne_zero,
        zpow_ofNat]
      linarith
    rw [grid]
    omega
  have split : (m * 2 ^ e + y) / 2 ^ e = m + y / 2 ^ e := by
    field_simp
  rw [magnitude, same, split, nearest_of_lt_half (n := m)]
  · have : 0 ≤ y / 2 ^ e := by positivity
    linarith
  · have : y / 2 ^ e < 1 / 2 := by
      rw [div_lt_iff₀ (by positivity)]
      linarith
    linarith

end

end ViewerCircuit.Rounding
