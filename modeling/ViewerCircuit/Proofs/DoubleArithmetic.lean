import ViewerCircuit.Proofs.Doubles

/-!
# Arithmetic on doubles

The sum, the product and the quotient of two numbers are the exact ones, rounded; what is too large
is infinite. The double of a whole number is that number, rounded in the same way.
-/
namespace ViewerCircuit.Rounding

open Float.Model Float.Model.UnpackedFloat

/-- The double nearest to a number, as its place. -/
def rounded (z : ℚ) : ℚ := saturate (signed z)

theorem rounded_mono {y z : ℚ} (h : y ≤ z) : rounded y ≤ rounded z :=
  saturate_mono (signed_mono h)

theorem rounded_le (z : ℚ) : rounded z ≤ limit :=
  max_le (neg_le_self limit_pos.le) (min_le_right _ _)

@[simp] theorem rounded_zero : rounded 0 = 0 := by
  rw [rounded, signed_zero, saturate_of_abs_le (abs_zero.trans_le limit_pos.le)]

theorem rounded_nonneg {z : ℚ} (h : 0 ≤ z) : 0 ≤ rounded z := by
  rw [← rounded_zero]
  exact rounded_mono h

theorem rounded_neg (z : ℚ) : rounded (-z) = -rounded z := by
  rw [rounded, rounded, signed_neg, saturate_neg]

/-- Numbers with few digits are not rounded. -/
theorem rounded_fixed {m : ℕ} {e : ℤ} (digits : m < 2 ^ 53) (least : -1074 ≤ e)
    (h : (m * 2 ^ e : ℚ) ≤ limit) : rounded (m * 2 ^ e) = m * 2 ^ e := by
  have hpos : (0 : ℚ) ≤ m * 2 ^ e := by positivity
  rw [rounded, signed_of_nonneg hpos, magnitude_fixed digits least,
    saturate_of_abs_le ((abs_of_nonneg hpos).trans_le h)]

theorem rounded_natCast {n : ℕ} (h : n < 2 ^ 53) : rounded n = n := by
  have below : (n : ℚ) ≤ limit := by
    have : (n : ℚ) < 2 ^ 53 := by exact_mod_cast h
    exact (this.trans (two_pow_lt_limit (by decide))).le
  have fixed := rounded_fixed (e := 0) h (by decide)
  rw [zpow_zero, mul_one] at fixed
  exact fixed below

theorem rounded_two_pow {k : ℕ} (h : k < 1024) : rounded (2 ^ k) = 2 ^ k := by
  have fixed := rounded_fixed (m := 1) (e := k) (by decide) (by omega)
  rw [Nat.cast_one, one_mul, zpow_natCast] at fixed
  exact fixed (two_pow_lt_limit h).le

/-- The place of a double on the line of the fractions. -/
def rank (x : Float) : ℚ := place x.toModel.unpack

variable {x y : Float}

theorem le_iff : x ≤ y ↔ rank x ≤ rank y ∧ rank y ≤ limit := by
  show decide (x.toModel ≤ y.toModel) = true ↔ _
  rw [decide_eq_true_iff]
  exact le_iff_place (unpack_readable _) (unpack_readable _)

theorem lt_iff : x < y ↔ rank x < rank y ∧ rank y ≤ limit := by
  show decide (x.toModel < y.toModel) = true ↔ _
  rw [decide_eq_true_iff]
  exact lt_iff_place (unpack_readable _) (unpack_readable _)

theorem rank_cases (x : Float) : x.toModel.unpack = .notANumber ∨
    (∃ s, x.toModel.unpack = .infinity s) ∨ |rank x| < limit := by
  have readable := unpack_readable x.toModel
  rw [rank]
  generalize x.toModel.unpack = u at readable
  cases readable with
  | notANumber => exact .inl rfl
  | infinity s => exact .inr (.inl ⟨s, rfl⟩)
  | number _ bounded => exact .inr (.inr bounded)

theorem canonical_of_rank (h : |rank x| < limit) : Canonical x.toModel.unpack := by
  have readable := unpack_readable x.toModel
  rw [rank] at h
  generalize x.toModel.unpack = u at readable h
  cases readable with
  | notANumber => exact absurd ((le_abs_self _).trans_lt h) (not_lt.2 limit_lt_notANumber.le)
  | infinity s =>
    rw [place, abs_factor, abs_of_pos limit_pos] at h
    exact absurd h (lt_irrefl limit)
  | number canonical _ => exact canonical

theorem neg_spec {u : UnpackedFloat} (hu : Canonical u) :
    Canonical u.neg ∧ place u.neg = -place u := by
  have opposite : ∀ s : Sign, factor (-s) = -factor s := by
    intro s
    cases s <;> rfl
  cases hu with
  | zero s => exact ⟨.zero _, neg_zero.symm⟩
  | finite s hm digits least leading =>
    refine ⟨.finite _ hm digits least leading, ?_⟩
    show factor (-s) * _ = -(factor s * _)
    rw [opposite, neg_mul]

theorem rank_neg (h : |rank x| < limit) : rank (-x) = -rank x := by
  obtain ⟨canonical, value⟩ := neg_spec (canonical_of_rank h)
  have packed := place_pack canonical
  rw [value, saturate_of_abs_le (by rw [abs_neg]; exact h.le)] at packed
  exact packed

theorem rounded_rank (h : |rank x| < limit) : rounded (rank x) = rank x := by
  have fixed : signed (rank x) = rank x := signed_place (canonical_of_rank h)
  rw [rounded, fixed, saturate_of_abs_le h.le]

theorem decreased (m : ℕ) {d e : ℤ} (h : d ≤ e) :
    (((decreaseExponent m e d).1 : ℕ) : ℚ) * 2 ^ d = m * 2 ^ e := by
  obtain ⟨k, hk⟩ := Int.eq_ofNat_of_zero_le (sub_nonneg.2 h)
  rw [decreaseExponent, hk, Int.toNat_natCast, Nat.shiftLeft_eq, show e = k + d by omega,
    zpow_add₀ two_ne_zero, zpow_natCast]
  push_cast
  ring

theorem factor_mul (s t : Sign) : factor (s * t) = factor s * factor t := by
  cases s <;> cases t <;> decide +kernel

theorem factor_div (s t : Sign) : factor (s / t) = factor s / factor t := by
  cases s <;> cases t <;> decide +kernel

theorem zero_spec (s : Sign) {z : ℚ} (h : z = 0) :
    Canonical (.zero s) ∧ place (.zero s) = signed z := by
  rw [h, signed_zero]
  exact ⟨.zero s, rfl⟩

section

variable {u v : UnpackedFloat}

theorem add_spec (hu : Canonical u) (hv : Canonical v) :
    Canonical (UnpackedFloat.add Format.binary64 u v) ∧
      place (UnpackedFloat.add Format.binary64 u v) = signed (place u + place v) := by
  cases hu with
  | zero s =>
    cases hv with
    | zero t => cases s <;> cases t <;> exact zero_spec _ (add_zero 0)
    | finite t hn digits least leading =>
      have same := Canonical.finite t hn digits least leading
      rw [show place (.zero s) = 0 from rfl, zero_add, signed_place same]
      exact ⟨same, rfl⟩
  | @finite s m d hm digits least leading =>
    cases hv with
    | zero t =>
      have same := Canonical.finite s hm digits least leading
      rw [show place (.zero t) = 0 from rfl, add_zero, signed_place same]
      exact ⟨same, rfl⟩
    | @finite t n e hn =>
      have sum : place (.finite s m d hm) + place (.finite t n e hn) =
          ((s.apply (decreaseExponent m d (min d e)).1 +
            t.apply (decreaseExponent n e (min d e)).1 : ℤ) : ℚ) * 2 ^ min d e := by
        rw [Int.cast_add, apply_cast, apply_cast, add_mul, mul_assoc, mul_assoc,
          decreased m (min_le_left d e), decreased n (min_le_right d e), place, place]
      rw [sum]
      exact normalize_spec _ _ _

theorem mul_finite (s t : Sign) {m n : ℕ} (d e : ℤ) (hm : 0 < m) (hn : 0 < n) :
    UnpackedFloat.mul Format.binary64 (.finite s m d hm) (.finite t n e hn) =
      roundWithAccuracy Format.binary64 (s * t) (m * n) (d + e) .exact := rfl

theorem mul_spec (hu : Canonical u) (hv : Canonical v) :
    Canonical (UnpackedFloat.mul Format.binary64 u v) ∧
      place (UnpackedFloat.mul Format.binary64 u v) = signed (place u * place v) := by
  cases hu with
  | zero s => cases hv <;> exact zero_spec _ (zero_mul _)
  | @finite s m d hm mdigits mleast mleading =>
    cases hv with
    | zero t => exact zero_spec _ (mul_zero _)
    | @finite t n e hn ndigits nleast nleading =>
      have product : place (.finite s m d hm) * place (.finite t n e hn) =
          factor (s * t) * ((m * n : ℕ) * 2 ^ (d + e)) := by
        rw [place, place, factor_mul, zpow_add₀ two_ne_zero]
        push_cast
        ring
      have fits : d + e ≤ max ((m * n).log2 + (d + e) - 52) (-1074) := by
        by_cases hsmall : d = -1074 ∧ e = -1074
        · omega
        · -- One factor has all its digits.
          have hlarge : 2 ^ 52 ≤ m * n := by
            rcases mleading with h | h
            · exact h.trans (Nat.le_mul_of_pos_right m hn)
            · exact (nleading.resolve_right fun he => hsmall ⟨h, he⟩).trans
                (Nat.le_mul_of_pos_left n hm)
          have := (Nat.le_log2 (by positivity)).2 hlarge
          omega
      rw [product, signed_factor _ (by positivity), mul_finite]
      exact roundWithAccuracy_spec _ (by positivity) (extend_natCast _).symm fits

/-- A division has as many digits as are needed before the remainder is rounded. -/
theorem quotient_digits {m n k : ℕ} {d e g : ℤ} (hm : 0 < m) (hn : 0 < n) (hk : d - e - g = k)
    (hg : g ≤ max (m.log2 + d - (n.log2 + e) - 53) (-1074)) :
    g ≤ max ((m <<< k / n).log2 + g - 52) (-1074) := by
  by_cases hlow : g ≤ -1074
  · exact le_max_of_le_right hlow
  · have digits : (m <<< k).log2 = m.log2 + k := log2_shiftLeft hm k
    have hpos : m <<< k ≠ 0 := by
      rw [Nat.shiftLeft_eq]
      positivity
    have enough : 2 ^ 52 ≤ m <<< k / n := by
      rw [Nat.le_div_iff_mul_le hn]
      calc 2 ^ 52 * n ≤ 2 ^ 52 * 2 ^ (n.log2 + 1) := Nat.mul_le_mul_left _ n.lt_log2_self.le
        _ = 2 ^ (52 + (n.log2 + 1)) := (pow_add 2 _ _).symm
        _ ≤ 2 ^ (m <<< k).log2 := Nat.pow_le_pow_right two_pos (by omega)
        _ ≤ m <<< k := Nat.log2_self_le hpos
    have := (Nat.le_log2 (by omega)).2 enough
    omega

theorem div_spec (hu : Canonical u) (hv : Canonical v) (h : place v ≠ 0) :
    Canonical (UnpackedFloat.div Format.binary64 u v) ∧
      place (UnpackedFloat.div Format.binary64 u v) = signed (place u / place v) := by
  cases hv with
  | zero t => exact absurd rfl h
  | @finite t n e hn =>
    cases hu with
    | zero s => exact zero_spec _ (zero_div _)
    | @finite s m d hm =>
      obtain ⟨g, hg⟩ : ∃ g, min (d - e) (Format.binary64.targetExponent
          (totalExponent m d - totalExponent n e)) = g := ⟨_, rfl⟩
      have target : Format.binary64.targetExponent (totalExponent m d - totalExponent n e) =
          max (m.log2 + d - (n.log2 + e) - 53) (-1074) := by
        simp only [Format.targetExponent, totalExponent, Format.mantissaBits, Format.minExponent]
        norm_num
        omega
      obtain ⟨k, hk⟩ : ∃ k : ℕ, d - e - g = k := Int.eq_ofNat_of_zero_le (by omega)
      have fits := quotient_digits hm hn hk (target ▸ hg ▸ min_le_right _ _)
      obtain ⟨l, hl⟩ : ∃ l, m <<< k = l := ⟨_, rfl⟩
      rw [hl] at fits
      have parts : ((l / n : ℕ) : ℚ) + (l % n : ℕ) / n = l / n := by
        have : (n : ℚ) * (l / n : ℕ) + (l % n : ℕ) = l := by exact_mod_cast Nat.div_add_mod l n
        field_simp
        linarith
      have quotient : place (.finite s m d hm) / place (.finite t n e hn) =
          factor (s / t) * ((l / n : ℚ) * 2 ^ g) := by
        rw [place, place, factor_div, ← hl, Nat.shiftLeft_eq, show d = e + g + k by omega,
          zpow_add₀ two_ne_zero, zpow_add₀ two_ne_zero, zpow_natCast]
        push_cast
        field_simp
      have result : UnpackedFloat.div Format.binary64 (.finite s m d hm) (.finite t n e hn) =
          roundWithAccuracy Format.binary64 (s / t) (l / n) g (accuracyOfFraction (l % n) n) := by
        simp only [UnpackedFloat.div, divCore, hg, hk, Int.toNat_natCast, hl]
      rw [quotient, signed_factor _ (by positivity), ← parts, result]
      exact roundWithAccuracy_spec _ (by positivity) (extend_fraction (Nat.mod_lt l hn)).symm fits

end

theorem rank_add (hx : |rank x| < limit) (hy : |rank y| < limit) :
    rank (x + y) = rounded (rank x + rank y) := by
  obtain ⟨canonical, value⟩ := add_spec (canonical_of_rank hx) (canonical_of_rank hy)
  exact (place_pack canonical).trans (congrArg saturate value)

theorem rank_mul (hx : |rank x| < limit) (hy : |rank y| < limit) :
    rank (x * y) = rounded (rank x * rank y) := by
  obtain ⟨canonical, value⟩ := mul_spec (canonical_of_rank hx) (canonical_of_rank hy)
  exact (place_pack canonical).trans (congrArg saturate value)

theorem rank_div (hx : |rank x| < limit) (hy : |rank y| < limit) (h : rank y ≠ 0) :
    rank (x / y) = rounded (rank x / rank y) := by
  obtain ⟨canonical, value⟩ := div_spec (canonical_of_rank hx) (canonical_of_rank hy) h
  exact (place_pack canonical).trans (congrArg saturate value)

/-- Large whole numbers are read with zeros behind the point, so that there are digits to round. -/
theorem ofScientific_spec {n : ℕ} (h : 2 ^ 53 ≤ n) :
    Canonical (UnpackedFloat.ofScientific Format.binary64 n 0) ∧
      place (UnpackedFloat.ofScientific Format.binary64 n 0) = signed n := by
  have digits : 53 ≤ n.log2 := (Nat.le_log2 (by omega)).2 h
  have hsmall : ¬ (0 : ℤ) < -((2 ^ Format.binary64.exponentBits : ℤ) + n.log2) :=
    not_lt.2 (neg_nonpos.2 (by positivity))
  unfold UnpackedFloat.ofScientific
  split_ifs with hzero hlarge hle
  · omega
  · exact absurd hlarge (by decide)
  · obtain ⟨m, hm⟩ : ∃ m, n <<< Format.binary64.mantissaBits * 10 ^ (0 : ℤ).toNat = m := ⟨_, rfl⟩
    have shifted : m = n <<< 53 := by
      rw [← hm]
      exact mul_one _
    have value : (m : ℚ) * 2 ^ (-(Format.binary64.mantissaBits : ℤ) + 0) = n := by
      have bits : -(Format.binary64.mantissaBits : ℤ) + 0 = -53 := rfl
      rw [bits, shifted, Nat.shiftLeft_eq, zpow_neg, zpow_ofNat]
      push_cast
      exact mul_inv_cancel_right₀ (by positivity) _
    have fits : -(Format.binary64.mantissaBits : ℤ) + 0 ≤
        max (m.log2 + (-(Format.binary64.mantissaBits : ℤ) + 0) - 52) (-1074) := by
      rw [shifted, log2_shiftLeft (by omega)]
      omega
    obtain ⟨canonical, hplace⟩ := roundWithAccuracy_spec .positive m.cast_nonneg
      (extend_natCast _).symm fits
    rw [mul_finite, hm, signed_of_nonneg n.cast_nonneg]
    refine ⟨canonical, hplace.trans ?_⟩
    rw [value, factor, one_mul]
  · exact absurd le_rfl hle

theorem rank_one : rank (Float.ofBits 0x3FF0000000000000) = 1 := by
  have read : (Float.ofBits 0x3FF0000000000000).toModel.unpack =
      .finite .positive (2 ^ 52) (-52) (by decide) := by rfl
  rw [rank, read, place, factor]
  norm_num

/-- Whole numbers that the format has are converted directly, and larger ones by way of their
digits. -/
theorem rank_ofNat (n : ℕ) : rank (Float.ofNat n) = rounded n := by
  by_cases h : n < 2 ^ 53
  · have small : |rounded n| < limit := by
      rw [rounded_natCast h, abs_of_nonneg n.cast_nonneg]
      have : (n : ℚ) < 2 ^ 53 := by exact_mod_cast h
      exact this.trans (two_pow_lt_limit (by decide))
    have converted : rank n.toUInt64.toFloat = rounded n := by
      obtain ⟨canonical, value⟩ := normalize_spec n 0 .positive
      have hn : n.toUInt64.toNat = n := UInt64.toNat_ofNat_of_lt (h.trans (by decide))
      have read : rank n.toUInt64.toFloat = place (Float.Model.pack
          (UnpackedFloat.normalize Format.binary64 n.toUInt64.toNat 0 .positive)).unpack := rfl
      rw [hn] at read
      rw [read, place_pack canonical, value, zpow_zero, mul_one, rounded, Int.cast_natCast]
    have one : |rank (Float.ofBits 0x3FF0000000000000)| < limit := by
      rw [rank_one, abs_one, ← pow_zero 2]
      exact two_pow_lt_limit (by decide)
    have read : Float.ofNat n = n.toUInt64.toFloat * Float.ofBits 0x3FF0000000000000 :=
      dif_pos (show n < 2 ^ 53 ∧ 0 ≤ 22 from ⟨h, by decide⟩)
    rw [read, rank_mul (converted ▸ small) one, rank_one, mul_one, converted, rounded_natCast h,
      rounded_natCast h]
  · have read : rank (Float.ofNat n) =
        place (Float.Model.pack (UnpackedFloat.ofScientific Format.binary64 n 0)).unpack :=
      congrArg rank (dif_neg (show ¬ (n < 2 ^ 53 ∧ 0 ≤ 22) from fun hn => h hn.1))
    obtain ⟨canonical, value⟩ := ofScientific_spec (not_lt.1 h)
    rw [read, place_pack canonical, value, rounded]

end ViewerCircuit.Rounding
