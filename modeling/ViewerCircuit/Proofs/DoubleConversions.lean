import ViewerCircuit.Number.F32
import ViewerCircuit.Proofs.DoubleOrder

/-!
# Conversions of doubles

A single that is finite becomes the double of the same value. A double becomes a whole number of 32
bits: what is behind the point is dropped, and what is not a number becomes zero.
-/
namespace ViewerCircuit

namespace F32

def IsZero (x : F32) : Prop := x.bits = 0 ∨ x.bits = 0x80000000

instance (x : F32) : Decidable x.IsZero := inferInstanceAs (Decidable (_ ∨ _))

theorem IsZero.isFinite {x : F32} (h : x.IsZero) : x.isFinite = true := by
  rcases h with h | h <;> rw [F32.isFinite, h] <;> decide

def value (x : F32) : ℚ :=
  (if x.isNegative then -1 else 1) * (x.mantissa * 2 ^ (x.exponentField - 1 : ℕ) / 2 ^ 149)

variable (x : F32)

theorem mantissa_lt : x.mantissa < 2 ^ 24 := by
  unfold mantissa
  dsimp only
  split <;> omega

theorem exponentField_lt : x.exponentField < 2 ^ 8 := Nat.mod_lt _ (by decide)

/-- Only zero has no digits. -/
theorem mantissa_eq_zero_iff : x.mantissa = 0 ↔ x.IsZero := by
  have size : x.bits.toNat < 2 ^ 32 := x.bits.toNat_lt
  rw [IsZero, ← UInt32.toNat_inj, ← UInt32.toNat_inj]
  unfold mantissa exponentField
  simp only [UInt32.reduceToNat]
  split <;> omega

theorem value_eq_zero_iff : x.value = 0 ↔ x.IsZero := by
  rw [← mantissa_eq_zero_iff, value]
  cases x.isNegative <;> simp

end F32

namespace Rounding

open Float.Model Float.Model.UnpackedFloat

variable {x : Float}

theorem isInf_iff : x.isInf = true ↔ ∃ s, x.toModel.unpack = .infinity s := by
  show x.toModel.unpack.isInf = true ↔ _
  cases x.toModel.unpack <;> simp [UnpackedFloat.isInf]

/-- Numbers with the digits and the exponents of singles are not rounded. -/
theorem rounded_dyadic {m k d : ℕ} (digits : m < 2 ^ 24) (hk : k < 2 ^ 8) (hd : d < 2 ^ 8) :
    (m * 2 ^ k / 2 ^ d : ℚ) < limit ∧ rounded (m * 2 ^ k / 2 ^ d) = m * 2 ^ k / 2 ^ d := by
  have below : (m * 2 ^ k / 2 ^ d : ℚ) < limit := by
    calc (m * 2 ^ k / 2 ^ d : ℚ) ≤ m * 2 ^ k :=
          div_le_self (by positivity) (one_le_pow₀ one_le_two)
      _ < 2 ^ 24 * 2 ^ k := by
          have : (m : ℚ) < 2 ^ 24 := by exact_mod_cast digits
          gcongr
      _ = 2 ^ (24 + k) := (pow_add 2 24 k).symm
      _ < limit := two_pow_lt_limit (by omega)
  have written : (m * 2 ^ k / 2 ^ d : ℚ) = m * 2 ^ (k - d : ℤ) := by
    rw [zpow_sub₀ two_ne_zero, zpow_natCast, zpow_natCast, mul_div_assoc]
  refine ⟨below, ?_⟩
  rw [written] at below ⊢
  exact rounded_fixed (digits.trans (by decide)) (by omega) below.le

theorem rank_one_shiftLeft {d : ℕ} (hd : d < 1024) :
    rank (Float.ofNat (1 <<< d)) = 2 ^ d ∧ |rank (Float.ofNat (1 <<< d))| < limit := by
  have value : rank (Float.ofNat (1 <<< d)) = 2 ^ d := by
    rw [rank_ofNat, Nat.one_shiftLeft, Nat.cast_pow, Nat.cast_ofNat, rounded_two_pow hd]
  rw [value, abs_of_pos (by positivity)]
  exact ⟨rfl, two_pow_lt_limit hd⟩

theorem rank_dyadic {m k d : ℕ} (digits : m < 2 ^ 24) (hk : k < 2 ^ 8) (hd : d < 2 ^ 8) :
    rank (Float.ofNat (m <<< k) / Float.ofNat (1 <<< d)) = m * 2 ^ k / 2 ^ d := by
  obtain ⟨below, exact⟩ := rounded_dyadic (d := 0) digits hk (by decide)
  obtain ⟨divisor, small⟩ := rank_one_shiftLeft (hd.trans (by decide))
  have numerator : rank (Float.ofNat (m <<< k)) = m * 2 ^ k := by
    rw [pow_zero, div_one] at exact
    rw [rank_ofNat, Nat.shiftLeft_eq, Nat.cast_mul, Nat.cast_pow, Nat.cast_ofNat, exact]
  rw [pow_zero, div_one] at below
  rw [rank_div (by rw [numerator, abs_of_nonneg (by positivity)]; exact below) small
    (by rw [divisor]; positivity), numerator, divisor]
  exact (rounded_dyadic digits hk hd).2

/-- Moved to the exponent zero, a number loses what is behind the point. -/
theorem roundToInt_eq (s : Sign) (m : ℕ) (e : ℤ) :
    roundToInt s m e = s.apply ⌊(m * 2 ^ e : ℚ)⌋₊ := by
  have shifted : ∀ (n k : ℕ), (ExtendedMantissa.ofMantissaAndAccuracy n .exact >>> k).mantissa =
      ⌊(n / 2 ^ k : ℚ)⌋₊ := by
    intro n k
    rw [← extend_natCast, extend_shift]
    rfl
  simp only [roundToInt, decreaseExponent, shiftToExponent, shifted, Nat.shiftLeft_eq]
  rcases le_total 0 e with h | h
  · obtain ⟨k, rfl⟩ := Int.eq_ofNat_of_zero_le h
    simp
  · obtain ⟨k, hk⟩ := Int.eq_ofNat_of_zero_le (neg_nonneg.2 h)
    obtain rfl : e = -(k : ℤ) := by omega
    simp [div_eq_mul_inv]

theorem toNat_toUInt32 (h : 0 ≤ rank x) (hx : rank x < 2 ^ 32) :
    x.toUInt32.toNat = ⌊rank x⌋₊ := by
  have hfinite : |rank x| < limit := by
    rw [abs_of_nonneg h]
    exact hx.trans (two_pow_lt_limit (by decide))
  have canonical := canonical_of_rank hfinite
  show (UInt32.ofNatClamp (toInt 0 (UInt32.size - 1) x.toModel.unpack).toNat).toNat = _
  have whole : (toInt 0 (UInt32.size - 1) x.toModel.unpack).toNat = ⌊rank x⌋₊ := by
    unfold rank at h ⊢
    generalize x.toModel.unpack = u at h canonical
    cases canonical with
    | zero s => simp [toInt, place]
    | @finite s m e hm =>
      cases s with
      | negative => exact absurd (place_negative hm) (not_lt.2 h)
      | positive =>
        rw [toInt, roundToInt_eq, place, factor, one_mul, Sign.apply, Int.toNat_natCast]
  have small : ⌊rank x⌋₊ < UInt32.size := by
    rw [Nat.floor_lt h]
    exact_mod_cast hx
  rw [whole, UInt32.ofNatClamp, dif_pos small, UInt32.toNat_ofNatLT]

theorem toUInt32_notANumber (h : x.toModel.unpack = .notANumber) : x.toUInt32 = 0 := by
  show x.toModel.unpack.toUInt32 = 0
  rw [h]
  rfl

end Rounding

namespace F32

open Rounding

variable {x : F32} {y : Float}

/-- Conversion changes no number. -/
theorem rank_toFloat (h : x.toFloat? = some y) : |rank y| < limit ∧ rank y = x.value := by
  have hk : x.exponentField - 1 < 2 ^ 8 := (Nat.sub_le _ _).trans_lt x.exponentField_lt
  have magnitude := rank_dyadic (d := 149) x.mantissa_lt hk (by decide)
  have small :
      |rank (Float.ofNat (x.mantissa <<< (x.exponentField - 1)) / Float.ofNat (1 <<< 149))| <
      limit := by
    rw [magnitude, abs_of_nonneg (by positivity)]
    exact (rounded_dyadic x.mantissa_lt hk (by decide)).1
  unfold toFloat? at h
  split at h
  · obtain rfl := Option.some.inj h
    unfold value
    cases x.isNegative with
    | false =>
      refine ⟨small, ?_⟩
      rw [if_neg Bool.false_ne_true, magnitude, if_neg Bool.false_ne_true, one_mul]
    | true =>
      have opposite := rank_neg small
      rw [if_pos rfl, opposite, abs_neg, if_pos rfl, magnitude, neg_one_mul]
      exact ⟨magnitude ▸ small, rfl⟩
  · cases h

/-- An eighth of a number is exact, too. -/
theorem rank_toFloat_eighth (h : x.toFloat? = some y) :
    |rank (y / 8)| < limit ∧ rank (y / 8) = x.value / 8 := by
  obtain ⟨small, number⟩ := rank_toFloat h
  have hk : x.exponentField - 1 < 2 ^ 8 := (Nat.sub_le _ _).trans_lt x.exponentField_lt
  obtain ⟨below, fixed⟩ := rounded_dyadic (d := 152) x.mantissa_lt hk (by decide)
  obtain ⟨divisor, finite⟩ := rank_one_shiftLeft (d := 3) (by decide)
  have eighth : rank (y / 8) = rounded (x.value / 8) := by
    have quotient := rank_div small finite (by rw [divisor]; positivity)
    rw [divisor, number] at quotient
    exact quotient
  have shifted : x.value / 8 = (if x.isNegative then -1 else 1) *
      (x.mantissa * 2 ^ (x.exponentField - 1) / 2 ^ 152) := by
    rw [value]
    ring
  rw [eighth, shifted]
  cases x.isNegative with
  | false =>
    rw [if_neg Bool.false_ne_true, one_mul, fixed, abs_of_nonneg (by positivity)]
    exact ⟨below, rfl⟩
  | true =>
    rw [if_pos rfl, neg_one_mul, rounded_neg, fixed, abs_neg, abs_of_nonneg (by positivity)]
    exact ⟨below, rfl⟩

end F32
end ViewerCircuit
