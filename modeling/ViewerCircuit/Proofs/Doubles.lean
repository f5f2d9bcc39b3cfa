import Mathlib
import ViewerCircuit.Proofs.Rounding

/-!
# Doubles as numbers

Every double has a place on the line of the fractions, infinities beyond all numbers and what is not
a number beyond these. The format writes each number in one way, with a mantissa of 53 binary digits
unless the exponent is the least one. Rounding leads to numbers that are written so; packing keeps
them, and makes those infinite that are too large; and the order of doubles is that of their places.
-/
namespace ViewerCircuit.Rounding

open Float.Model Float.Model.UnpackedFloat

/-- The least number that is too large for the format. -/
@[irreducible] def limit : ℚ := 2 ^ 1024

theorem limit_pos : 0 < limit := by
  rw [limit]
  positivity

theorem two_pow_lt_limit {k : ℕ} (h : k < 1024) : (2 : ℚ) ^ k < limit := by
  rw [limit]
  exact pow_lt_pow_right₀ one_lt_two h

def factor : Sign → ℚ
  | .positive => 1
  | .negative => -1

theorem factor_cases (s : Sign) : factor s = 1 ∨ factor s = -1 := by
  cases s
  · exact .inr rfl
  · exact .inl rfl

theorem abs_factor (s : Sign) (z : ℚ) : |factor s * z| = |z| := by
  rcases factor_cases s with h | h <;> simp [h]

def place : UnpackedFloat → ℚ
  | .notANumber => 2 * limit
  | .infinity s => factor s * limit
  | .zero _ => 0
  | .finite s m e _ => factor s * (m * 2 ^ e)

/-- The way in which the format writes numbers, except that the exponent may be too large for it. -/
inductive Canonical : UnpackedFloat → Prop
  | zero (s : Sign) : Canonical (.zero s)
  | finite (s : Sign) {m : ℕ} {e : ℤ} (hm : 0 < m) (digits : m < 2 ^ 53) (least : -1074 ≤ e)
      (leading : 2 ^ 52 ≤ m ∨ e = -1074) : Canonical (.finite s m e hm)

def signed (z : ℚ) : ℚ := if z < 0 then -magnitude (-z) else magnitude z

theorem signed_of_nonneg {z : ℚ} (hz : 0 ≤ z) : signed z = magnitude z := if_neg (not_lt.2 hz)

@[simp] theorem signed_zero : signed 0 = 0 := by rw [signed_of_nonneg le_rfl, magnitude_zero]

theorem signed_factor (s : Sign) {z : ℚ} (hz : 0 ≤ z) :
    signed (factor s * z) = factor s * magnitude z := by
  cases s with
  | positive => rw [factor, one_mul, one_mul, signed_of_nonneg hz]
  | negative =>
    rcases hz.eq_or_lt with rfl | hpos
    · simp
    · rw [factor, neg_one_mul, neg_one_mul, signed, if_pos (neg_lt_zero.2 hpos), neg_neg]

theorem signed_neg (z : ℚ) : signed (-z) = -signed z := by
  unfold signed
  rcases lt_trichotomy z 0 with hlt | rfl | hgt
  · rw [if_neg (by linarith), if_pos hlt, neg_neg]
  · simp
  · rw [if_pos (by linarith), if_neg (by linarith), neg_neg]

theorem signed_mono {y z : ℚ} (h : y ≤ z) : signed y ≤ signed z := by
  unfold signed
  split_ifs with hy hz hz
  · exact neg_le_neg (magnitude_mono (by linarith) (by linarith))
  · have := magnitude_nonneg (-y)
    have := magnitude_nonneg z
    linarith
  · linarith
  · exact magnitude_mono (not_lt.1 hy) h

/-- Numbers of the format stay what they are. -/
theorem signed_place {u : UnpackedFloat} (hu : Canonical u) : signed (place u) = place u := by
  cases hu with
  | zero s => exact signed_zero
  | finite s hm digits least =>
    rw [place, signed_factor s (by positivity), magnitude_fixed digits least]

section

variable {q : ℚ} {m : ℕ} {e : ℤ}

theorem target_eq (m : ℕ) (e : ℤ) : Format.binary64.targetExponent (totalExponent m e) =
    max (m.log2 + e - 52) (-1074) := by
  simp only [Format.targetExponent, totalExponent, Format.mantissaBits, Format.minExponent]
  norm_num
  omega

theorem shift_target {acc : Accuracy} (hacc : .ofMantissaAndAccuracy m acc = extend q) {g : ℤ}
    (hg : max (m.log2 + e - 52) (-1074) = g) (he : e ≤ g) :
    shiftToTargetExponent Format.binary64 m e acc = (extend (q * 2 ^ e / 2 ^ g), g) := by
  obtain ⟨k, hk⟩ := Int.eq_ofNat_of_zero_le (sub_nonneg.2 he)
  have shifted : q / 2 ^ k = q * 2 ^ e / 2 ^ g := by
    rw [show g = e + k by omega, zpow_add₀ two_ne_zero, zpow_natCast]
    field_simp
  simp only [shiftToTargetExponent, shiftToExponent, target_eq, hg, hk, hacc]
  rw [Int.toNat_natCast, extend_shift, shifted]
  congr 1
  omega

theorem shift_none {acc : Accuracy} (h : max (m.log2 + e - 52) (-1074) ≤ e) :
    shiftToTargetExponent Format.binary64 m e acc = (.ofMantissaAndAccuracy m acc, e) := by
  simp only [shiftToTargetExponent, shiftToExponent, target_eq,
    Int.toNat_of_nonpos (sub_nonpos.2 h)]
  exact congrArg (Prod.mk _) (add_zero e)

theorem floor_of_accuracy {acc : Accuracy} (h : .ofMantissaAndAccuracy m acc = extend q) :
    ⌊q⌋₊ = m := by
  have whole := congrArg ExtendedMantissa.mantissa h
  cases acc with
  | exact => exact whole.symm
  | inexact o => cases o <;> exact whole.symm

/-- The number of digits of the mantissa tells the grid. -/
theorem grid_eq (hq : 0 < q) (hm : ⌊q⌋₊ = m) (he : e ≤ max (m.log2 + e - 52) (-1074)) :
    max (m.log2 + e - 52) (-1074) = grid (q * 2 ^ e) := by
  have hpos : 0 < q * 2 ^ e := by positivity
  have upper : q < m + 1 := hm ▸ Nat.lt_floor_add_one q
  rcases Nat.eq_zero_or_pos m with rfl | hm0
  · have small : Int.log 2 (q * 2 ^ e) < e := by
      have below : q * 2 ^ e < 1 * 2 ^ e := by
        have : q < 1 := by simpa using upper
        gcongr
      rw [← Int.lt_zpow_iff_log_lt one_lt_two hpos, Nat.cast_ofNat]
      linarith
    rw [Nat.log2_zero, Nat.cast_zero] at he ⊢
    rw [grid]
    omega
  · have lower : (m : ℚ) ≤ q := hm ▸ Nat.floor_le hq.le
    have above : m.log2 + e ≤ Int.log 2 (q * 2 ^ e) := by
      have : (2 : ℚ) ^ m.log2 ≤ m := by exact_mod_cast Nat.log2_self_le hm0.ne'
      rw [← Int.zpow_le_iff_le_log one_lt_two hpos, Nat.cast_ofNat, zpow_add₀ two_ne_zero,
        zpow_natCast]
      gcongr
      linarith
    have below : Int.log 2 (q * 2 ^ e) < (m.log2 + 1 : ℕ) + e := by
      have : (m + 1 : ℚ) ≤ 2 ^ (m.log2 + 1) := by exact_mod_cast Nat.lt_log2_self
      rw [← Int.lt_zpow_iff_log_lt one_lt_two hpos, Nat.cast_ofNat, zpow_add₀ two_ne_zero,
        zpow_natCast]
      gcongr
      linarith
    rw [grid]
    omega

/-- The digits that are left on the grid: 53 at most, or the next power of two. -/
theorem grid_digits (hq : 0 ≤ q) (hm : ⌊q⌋₊ = m) {g : ℤ} (hg : max (m.log2 + e - 52) (-1074) = g)
    (he : e ≤ g) : nearest (q * 2 ^ e / 2 ^ g) ≤ 2 ^ 53 ∧
      (2 ^ 52 ≤ nearest (q * 2 ^ e / 2 ^ g) ∨ g = -1074) ∧
      (nearest (q * 2 ^ e / 2 ^ g) : ℚ) * 2 ^ g = magnitude (q * 2 ^ e) := by
  rcases hq.eq_or_lt with rfl | hpos
  · have hzero : nearest (0 * 2 ^ e / 2 ^ g) = 0 := by
      rw [zero_mul, zero_div]
      exact nearest_natCast 0
    rw [Nat.floor_zero] at hm
    rw [← hm, Nat.log2_zero, Nat.cast_zero] at hg
    rw [hzero, zero_mul, magnitude_zero, Nat.cast_zero, zero_mul]
    exact ⟨Nat.zero_le _, .inr (by omega), rfl⟩
  · have zpos : 0 < q * 2 ^ e := by positivity
    rw [← (grid_eq hpos hm (hg ▸ he)).symm.trans hg]
    refine ⟨digits_le zpos.le, ?_, rfl⟩
    rcases (le_max_right _ _ : -1074 ≤ grid (q * 2 ^ e)).eq_or_lt with heq | hlt
    · exact .inr heq.symm
    · exact .inl (le_digits zpos hlt)

/-- The result of an operation is the exact one, rounded. Here `q` is the mantissa together with
what is behind the point. -/
theorem roundWithAccuracy_spec (s : Sign) {acc : Accuracy} (hq : 0 ≤ q)
    (hacc : .ofMantissaAndAccuracy m acc = extend q) (he : e ≤ max (m.log2 + e - 52) (-1074)) :
    Canonical (roundWithAccuracy Format.binary64 s m e acc) ∧
      place (roundWithAccuracy Format.binary64 s m e acc) = factor s * magnitude (q * 2 ^ e) := by
  obtain ⟨g, hg⟩ : ∃ g, max (m.log2 + e - 52) (-1074) = g := ⟨_, rfl⟩
  obtain ⟨r, hr⟩ : ∃ r, nearest (q * 2 ^ e / 2 ^ g) = r := ⟨_, rfl⟩
  have first := shift_target hacc hg (hg ▸ he)
  have least : -1074 ≤ g := hg ▸ le_max_right _ _
  obtain ⟨hmax, leading, value⟩ := grid_digits hq (floor_of_accuracy hacc) hg (hg ▸ he)
  rw [hr] at hmax leading value
  rw [nearest] at hr
  rw [← value]
  rcases hmax.lt_or_eq with hlt | heq
  · have small : r.log2 ≤ 52 := by
      rcases Nat.eq_zero_or_pos r with rfl | hpos
      · rw [Nat.log2_zero]
        exact Nat.zero_le 52
      · have := (Nat.log2_lt hpos.ne').2 hlt
        omega
    have second : shiftToTargetExponent Format.binary64 r g .exact =
        (.ofMantissaAndAccuracy r .exact, g) := shift_none (by omega)
    simp only [roundWithAccuracy, first, hr, second, ExtendedMantissa.ofMantissaAndAccuracy]
    split_ifs with hzero
    · rw [hzero, Nat.cast_zero, zero_mul, mul_zero]
      exact ⟨.zero s, rfl⟩
    · exact ⟨.finite s _ hlt least leading, rfl⟩
  · -- All digits were rounded up, and the power of two above takes one digit less.
    have next : max (r.log2 + g - 52) (-1074) = g + 1 := by
      rw [heq, Nat.log2_two_pow]
      omega
    have second := shift_target (extend_natCast r).symm next (by omega)
    have half : (r : ℚ) * 2 ^ g / 2 ^ (g + 1) = (2 ^ 52 : ℕ) := by
      rw [heq, zpow_add₀ two_ne_zero, zpow_one]
      push_cast
      field_simp
      norm_num
    rw [half, extend_natCast] at second
    simp only [roundWithAccuracy, first, hr, second, ExtendedMantissa.ofMantissaAndAccuracy]
    rw [dif_neg (by decide)]
    refine ⟨.finite s _ (by decide) (by omega) (.inl le_rfl), ?_⟩
    show factor s * ((2 ^ 52 : ℕ) * 2 ^ (g + 1)) = factor s * (r * 2 ^ g)
    rw [← half, div_mul_cancel₀ _ (by positivity)]

theorem log2_shiftLeft (hm : 0 < m) (k : ℕ) : (m <<< k).log2 = m.log2 + k := by
  induction k with
  | zero => rfl
  | succ k ih =>
    have hpos : 0 < m <<< k := by
      rw [Nat.shiftLeft_eq]
      positivity
    rw [Nat.shiftLeft_succ, Nat.log2_two_mul hpos.ne', ih, add_assoc]

/-- Where there are too few digits, zeros are appended before. -/
theorem round_spec (s : Sign) (hm : 0 < m) (e : ℤ) :
    Canonical (UnpackedFloat.round Format.binary64 s m e) ∧
      place (UnpackedFloat.round Format.binary64 s m e) = signed (factor s * (m * 2 ^ e)) := by
  obtain ⟨k, hk⟩ : ∃ k, (e - max (m.log2 + e - 52) (-1074)).toNat = k := ⟨_, rfl⟩
  have digits := log2_shiftLeft hm k
  have value : ((m <<< k : ℕ) : ℚ) * 2 ^ (e - k) = m * 2 ^ e := by
    rw [Nat.shiftLeft_eq, zpow_sub₀ two_ne_zero, zpow_natCast]
    push_cast
    field_simp
  rw [signed_factor s (by positivity), ← value, UnpackedFloat.round]
  simp only [decreaseExponent, target_eq, hk]
  apply roundWithAccuracy_spec s (by positivity) (extend_natCast _).symm
  rw [digits]
  omega

theorem apply_cast (s : Sign) (n : ℕ) : ((s.apply n : ℤ) : ℚ) = factor s * n := by
  cases s <;> simp [Sign.apply, factor]

theorem normalize_spec (m e : ℤ) (s : Sign) :
    Canonical (UnpackedFloat.normalize Format.binary64 m e s) ∧
      place (UnpackedFloat.normalize Format.binary64 m e s) = signed (m * 2 ^ e) := by
  have sign_apply : ∀ (t : Sign) (n : ℕ), t.apply n = m →
      (m : ℚ) * 2 ^ e = factor t * (n * 2 ^ e) := by
    intro t n h
    rw [← h, apply_cast, mul_assoc]
  rw [UnpackedFloat.normalize]
  rcases lt_trichotomy m 0 with hlt | rfl | hgt
  · have habs : ((-m).toNat : ℤ) = -m := Int.toNat_of_nonneg (by omega)
    rw [Int.compare_eq_lt.2 hlt, sign_apply .negative (-m).toNat (by rw [Sign.apply]; omega)]
    exact round_spec _ (by omega) _
  · rw [Int.compare_eq_eq.2 rfl, Int.cast_zero, zero_mul, signed_zero]
    exact ⟨.zero s, rfl⟩
  · have habs : (m.toNat : ℤ) = m := Int.toNat_of_nonneg hgt.le
    rw [Int.compare_eq_gt.2 hgt, sign_apply .positive m.toNat habs]
    exact round_spec _ (by omega) _

end

section

theorem toNat_leading (mantissa : BitVec 52) :
    (1#1 ++ mantissa).toNat = 2 ^ 52 + mantissa.toNat := by
  rw [BitVec.toNat_append, ← Nat.shiftLeft_add_eq_or_of_lt mantissa.isLt]
  rfl

variable (s : Sign) {exponent : BitVec 11} (mantissa : BitVec 52)

theorem unpack_normal (hspecial : exponent ≠ -1#_) (hzero : exponent ≠ 0#_) :
    ∃ h, UnpackedFloat.unpack Format.binary64 (packComponents _ s exponent mantissa) =
      .finite s (2 ^ 52 + mantissa.toNat) (exponent.toNat - 1075) h := by
  refine ⟨by omega, ?_⟩
  simp only [UnpackedFloat.unpack, unpackMantissa_packComponents, unpackExponent_packComponents,
    unpackSign_packComponents, Sign.ofBitVec_toBitVec, if_neg hspecial, if_neg hzero,
    finite.injEq, true_and]
  exact ⟨toNat_leading mantissa, rfl⟩

theorem unpack_subnormal (hpos : mantissa ≠ 0#_) :
    ∃ h, UnpackedFloat.unpack Format.binary64 (packComponents _ s 0#11 mantissa) =
      .finite s mantissa.toNat (-1074) h := by
  refine ⟨by rwa [BitVec.toNat_pos, BitVec.pos_iff_ne_zero], ?_⟩
  simp only [UnpackedFloat.unpack, unpackMantissa_packComponents, unpackExponent_packComponents,
    unpackSign_packComponents, Sign.ofBitVec_toBitVec,
    if_neg (show ¬ (0#11 = -1#11) by decide), if_true, dif_neg hpos]
  rfl

theorem unpack_infinity :
    UnpackedFloat.unpack Format.binary64 (packedInfinity _ s) = .infinity s := by
  simp only [UnpackedFloat.unpack, packedInfinity, unpackMantissa_packComponents,
    unpackExponent_packComponents, unpackSign_packComponents, Sign.ofBitVec_toBitVec, if_true]
  rfl

end

/-- What is packed is what is read again, except that large numbers become infinite. -/
theorem unpack_pack_finite (s : Sign) {m : ℕ} {e : ℤ} (hm : 0 < m) (digits : m < 2 ^ 53)
    (least : -1074 ≤ e) (leading : 2 ^ 52 ≤ m ∨ e = -1074) :
    (Float.Model.pack (.finite s m e hm)).unpack =
      if 972 ≤ e then .infinity s else .finite s m e hm := by
  obtain ⟨biased, hbiased⟩ := Int.eq_ofNat_of_zero_le (show 0 ≤ e + 1075 by omega)
  have hfield : (e + Format.binary64.exponentBias + (52 : ℕ)).toNat = biased := by
    have : (Format.binary64.exponentBias : ℤ) = 1023 := rfl
    omega
  have hlog : m.log2 + 1 = Format.binary64.mantissaBits ↔ 2 ^ 52 ≤ m := by
    have : m.log2 + 1 = Format.binary64.mantissaBits ↔ m.log2 = 52 := Nat.add_right_cancel_iff
    rw [this, Nat.log2_eq_iff hm.ne']
    omega
  show UnpackedFloat.unpack Format.binary64 (UnpackedFloat.pack Format.binary64 _) = _
  simp only [UnpackedFloat.pack, hfield, hlog]
  split_ifs with hover hlarge hlead hlarge hlead
  · exact unpack_infinity s
  · omega
  · omega
  · -- The leading digit is not stored.
    have hexponent : (BitVec.ofNat 11 biased).toNat = biased := by
      rw [BitVec.toNat_ofNat, Nat.mod_eq_of_lt (by omega)]
    have hrest : (BitVec.ofNat 52 m).toNat = m - 2 ^ 52 := by
      rw [BitVec.toNat_ofNat]
      omega
    have other : ∀ k < 2048, biased ≠ k → BitVec.ofNat 11 biased ≠ BitVec.ofNat 11 k := by
      intro k hk hne heq
      have := congrArg BitVec.toNat heq
      rw [hexponent, BitVec.toNat_ofNat] at this
      omega
    obtain ⟨_, hread⟩ := unpack_normal s (BitVec.ofNat 52 m) (other 2047 (by decide) (by omega))
      (other 0 (by decide) (by omega))
    rw [hread, finite.injEq, hrest, hexponent]
    exact ⟨rfl, by omega, by omega⟩
  · omega
  · have hrest : (BitVec.ofNat 52 m).toNat = m := by
      rw [BitVec.toNat_ofNat, Nat.mod_eq_of_lt (by omega)]
    have hpos : BitVec.ofNat 52 m ≠ 0#52 := by
      intro h
      rw [h] at hrest
      exact hm.ne hrest
    obtain ⟨_, hread⟩ := unpack_subnormal s _ hpos
    rw [hread, finite.injEq, hrest]
    exact ⟨rfl, rfl, by omega⟩

theorem finite_lt_limit {m : ℕ} {e : ℤ} (digits : m < 2 ^ 53) (he : e ≤ 971) :
    (m * 2 ^ e : ℚ) < limit := by
  calc (m * 2 ^ e : ℚ) < 2 ^ 53 * 2 ^ e := by
        have : (m : ℚ) < 2 ^ 53 := by exact_mod_cast digits
        gcongr
    _ ≤ 2 ^ 53 * 2 ^ (971 : ℤ) := by
        gcongr
        exact one_le_two
    _ = limit := by rw [zpow_ofNat, ← pow_add, limit]

def saturate (z : ℚ) : ℚ := max (-limit) (min z limit)

theorem saturate_mono {y z : ℚ} (h : y ≤ z) : saturate y ≤ saturate z := by
  unfold saturate
  gcongr

theorem saturate_of_abs_le {z : ℚ} (h : |z| ≤ limit) : saturate z = z := by
  obtain ⟨hlow, hhigh⟩ := abs_le.1 h
  rw [saturate, min_eq_left hhigh, max_eq_right hlow]

theorem saturate_neg (z : ℚ) : saturate (-z) = -saturate z := by
  have ends : -limit ≤ limit := neg_le_self limit_pos.le
  rw [saturate, saturate, max_min_distrib_left, max_eq_right ends, ← min_neg_neg, ← max_neg_neg,
    neg_neg, max_comm, min_comm]

theorem place_infinity :
    place (.infinity .positive) = limit ∧ place (.infinity .negative) = -limit := by
  simp [place, factor]

theorem place_pack {u : UnpackedFloat} (hu : Canonical u) :
    place (Float.Model.pack u).unpack = saturate (place u) := by
  cases hu with
  | zero s =>
    rw [show (Float.Model.pack (.zero s)).unpack = .zero s by cases s <;> rfl]
    exact (saturate_of_abs_le (abs_zero.trans_le limit_pos.le)).symm
  | @finite s m e hm digits least leading =>
    rw [unpack_pack_finite s hm digits least leading]
    split_ifs with hlarge
    · have beyond : limit ≤ m * 2 ^ e := by
        calc limit = 2 ^ 52 * 2 ^ (972 : ℤ) := by rw [zpow_ofNat, ← pow_add, limit]
          _ ≤ m * 2 ^ e := by
            have : (2 : ℚ) ^ 52 ≤ m := by exact_mod_cast (show 2 ^ 52 ≤ m by omega)
            gcongr
            exact one_le_two
      have := limit_pos
      cases s with
      | negative =>
        rw [place_infinity.2, place, factor, neg_one_mul, saturate, min_eq_left (by linarith),
          max_eq_left (by linarith)]
      | positive =>
        rw [place_infinity.1, place, factor, one_mul, saturate, min_eq_right beyond,
          max_eq_right (by linarith)]
    · refine (saturate_of_abs_le ?_).symm
      rw [place, abs_factor, abs_of_nonneg (by positivity)]
      exact (finite_lt_limit digits (by omega)).le

inductive Readable : UnpackedFloat → Prop
  | notANumber : Readable .notANumber
  | infinity (s : Sign) : Readable (.infinity s)
  | number {u : UnpackedFloat} (canonical : Canonical u) (bounded : |place u| < limit) : Readable u

theorem unpack_readable (x : Float.Model) : Readable x.unpack := by
  obtain ⟨exponent, hexponent⟩ :
      ∃ v : BitVec 11, @unpackExponent Format.binary64 x.toBits.toBitVec = v := ⟨_, rfl⟩
  obtain ⟨mantissa, hmantissa⟩ :
      ∃ v : BitVec 52, @unpackMantissa Format.binary64 x.toBits.toBitVec = v := ⟨_, rfl⟩
  have bias : (Format.binary64.exponentBias : ℤ) = 1023 := rfl
  have field : exponent.toNat < 2 ^ 11 := exponent.isLt
  have digits : mantissa.toNat < 2 ^ 52 := mantissa.isLt
  have readable : ∀ (s : Sign) {m : ℕ} {e : ℤ} (hm : 0 < m), m < 2 ^ 53 → -1074 ≤ e → e ≤ 971 →
      (2 ^ 52 ≤ m ∨ e = -1074) → Readable (.finite s m e hm) := by
    intro s m e hm hdigits hleast hgreatest hleading
    refine .number (.finite s hm hdigits hleast hleading) ?_
    rw [place, abs_factor, abs_of_nonneg (by positivity)]
    exact finite_lt_limit hdigits hgreatest
  unfold Float.Model.unpack UnpackedFloat.unpack
  dsimp only
  split_ifs with hspecial hinf hzero hm
  · exact .infinity _
  · exact .notANumber
  · exact .number (.zero _) (abs_zero.trans_lt limit_pos)
  · have hfield : exponent.toNat = 0 := by rw [← hexponent, hzero]; rfl
    apply readable <;> simp only [hexponent, hmantissa, hfield] <;> omega
  · rw [hexponent] at hspecial hzero
    have hlow : exponent.toNat ≠ 0 := fun h => hzero (BitVec.toNat_inj.1 h)
    have hhigh : exponent.toNat ≠ 2047 := fun h => hspecial (BitVec.toNat_inj.1 h)
    apply readable <;> simp only [hexponent, hmantissa, toNat_leading] <;> omega

/-- For numbers as the format writes them, the exponents decide first, and then the mantissas. -/
theorem compare_digits {m n : ℕ} {d e : ℤ} (hm : m < 2 ^ 53) (hn : n < 2 ^ 53) (hd : -1074 ≤ d)
    (he : -1074 ≤ e) (hmd : 2 ^ 52 ≤ m ∨ d = -1074) (hne : 2 ^ 52 ≤ n ∨ e = -1074) :
    (compare d e).then (compare m n) = compare (m * 2 ^ d : ℚ) (n * 2 ^ e) := by
  have smaller : ∀ {m n : ℕ} {d e : ℤ}, m < 2 ^ 53 → (2 ^ 52 ≤ n ∨ e = -1074) → -1074 ≤ d →
      d < e → (m * 2 ^ d : ℚ) < n * 2 ^ e := by
    intro m n d e hm hn hd hlt
    have hn : 2 ^ 52 ≤ n := by omega
    calc (m * 2 ^ d : ℚ) < 2 ^ 53 * 2 ^ d := by
          have : (m : ℚ) < 2 ^ 53 := by exact_mod_cast hm
          gcongr
      _ = 2 ^ 52 * 2 ^ (d + 1) := by rw [zpow_add₀ two_ne_zero]; ring
      _ ≤ 2 ^ 52 * 2 ^ e := by
          gcongr
          · exact one_le_two
          · omega
      _ ≤ n * 2 ^ e := by
          have : (2 : ℚ) ^ 52 ≤ n := by exact_mod_cast hn
          gcongr
  rcases lt_trichotomy d e with hlt | rfl | hgt
  · rw [compare_lt_iff_lt.2 hlt, compare_lt_iff_lt.2 (smaller hm hne hd hlt)]
    rfl
  · have power : (0 : ℚ) < 2 ^ d := by positivity
    rw [compare_eq_iff_eq.2 rfl]
    rcases lt_trichotomy m n with hlt | rfl | hgt
    · rw [compare_lt_iff_lt.2 hlt, compare_lt_iff_lt.2 (by gcongr)]
      rfl
    · rw [compare_eq_iff_eq.2 rfl, compare_eq_iff_eq.2 rfl]
      rfl
    · rw [compare_gt_iff_gt.2 hgt, compare_gt_iff_gt.2 (by gcongr)]
      rfl
  · rw [compare_gt_iff_gt.2 hgt, compare_gt_iff_gt.2 (smaller hn hmd he hgt)]
    rfl

theorem compare_neg (a b : ℚ) : compare (-a) (-b) = (compare a b).swap := by
  rcases lt_trichotomy a b with hlt | rfl | hgt
  · rw [compare_lt_iff_lt.2 hlt, compare_gt_iff_gt.2 (neg_lt_neg hlt)]
    rfl
  · rw [compare_eq_iff_eq.2 rfl, compare_eq_iff_eq.2 rfl]
    rfl
  · rw [compare_gt_iff_gt.2 hgt, compare_lt_iff_lt.2 (neg_lt_neg hgt)]
    rfl

section

variable {u v : UnpackedFloat} {m : ℕ} {e : ℤ}

theorem place_positive (hm : 0 < m) : 0 < place (.finite .positive m e hm) := by
  rw [place, factor, one_mul]
  positivity

theorem place_negative (hm : 0 < m) : place (.finite .negative m e hm) < 0 := by
  rw [place, factor, neg_one_mul, neg_lt_zero]
  positivity

theorem compare_canonical (hu : Canonical u) (hv : Canonical v) :
    u.compare v = some (compare (place u) (place v)) := by
  cases hu with
  | zero s =>
    cases hv with
    | zero t => exact congrArg some (compare_eq_iff_eq.2 rfl).symm
    | finite t hn =>
      cases t with
      | negative => exact congrArg some (compare_gt_iff_gt.2 (place_negative hn)).symm
      | positive => exact congrArg some (compare_lt_iff_lt.2 (place_positive hn)).symm
  | finite s hm mdigits mleast mleading =>
    cases hv with
    | zero t =>
      cases s with
      | negative => exact congrArg some (compare_lt_iff_lt.2 (place_negative hm)).symm
      | positive => exact congrArg some (compare_gt_iff_gt.2 (place_positive hm)).symm
    | finite t hn ndigits nleast nleading =>
      have digits := compare_digits mdigits ndigits mleast nleast mleading nleading
      cases s <;> cases t
      · rw [place, place, factor, neg_one_mul, neg_one_mul, compare_neg, ← digits]
        rfl
      · exact congrArg some
          (compare_lt_iff_lt.2 ((place_negative hm).trans (place_positive hn))).symm
      · exact congrArg some
          (compare_gt_iff_gt.2 ((place_negative hn).trans (place_positive hm))).symm
      · rw [place, place, factor, one_mul, one_mul, ← digits]
        rfl

theorem compare_infinity (hv : Canonical v) :
    UnpackedFloat.compare (.infinity .positive) v = some .gt ∧
    UnpackedFloat.compare (.infinity .negative) v = some .lt ∧
    UnpackedFloat.compare v (.infinity .positive) = some .lt ∧
    UnpackedFloat.compare v (.infinity .negative) = some .gt := by
  cases hv <;> exact ⟨rfl, rfl, rfl, rfl⟩

theorem Readable.place_le (hu : Readable u) (h : u ≠ .notANumber) : place u ≤ limit := by
  have := limit_pos
  cases hu with
  | notANumber => exact absurd rfl h
  | infinity s =>
    cases s with
    | negative => linarith [place_infinity.2]
    | positive => exact place_infinity.1.le
  | number _ bounded => exact (abs_lt.1 bounded).2.le

theorem limit_lt_notANumber : limit < place .notANumber := by
  rw [place]
  linarith [limit_pos]

/-- Numbers and infinities compare as their places do. -/
theorem compare_eq_some (hu : Readable u) (hv : Readable v) (hu0 : u ≠ .notANumber)
    (hv0 : v ≠ .notANumber) : u.compare v = some (compare (place u) (place v)) := by
  have ends : place (.infinity .negative) < place (.infinity .positive) := by
    rw [place_infinity.1, place_infinity.2]
    linarith [limit_pos]
  cases hu with
  | notANumber => exact absurd rfl hu0
  | infinity s =>
    cases hv with
    | notANumber => exact absurd rfl hv0
    | infinity t =>
      cases s <;> cases t
      · exact congrArg some (compare_eq_iff_eq.2 rfl).symm
      · exact congrArg some (compare_lt_iff_lt.2 ends).symm
      · exact congrArg some (compare_gt_iff_gt.2 ends).symm
      · exact congrArg some (compare_eq_iff_eq.2 rfl).symm
    | number canonical bounded =>
      obtain ⟨greatest, least, -⟩ := compare_infinity canonical
      obtain ⟨above, below⟩ := abs_lt.1 bounded
      cases s with
      | negative => rw [least, place_infinity.2, compare_lt_iff_lt.2 above]
      | positive => rw [greatest, place_infinity.1, compare_gt_iff_gt.2 below]
  | number canonical bounded =>
    cases hv with
    | notANumber => exact absurd rfl hv0
    | infinity t =>
      obtain ⟨-, -, greatest, least⟩ := compare_infinity canonical
      obtain ⟨above, below⟩ := abs_lt.1 bounded
      cases t with
      | negative => rw [least, place_infinity.2, compare_gt_iff_gt.2 above]
      | positive => rw [greatest, place_infinity.1, compare_lt_iff_lt.2 below]
    | number other _ => exact compare_canonical canonical other

/-- What is not a number does not compare. -/
theorem compare_eq (hu : Readable u) (hv : Readable v) : u.compare v =
    if place u ≤ limit ∧ place v ≤ limit then some (compare (place u) (place v)) else none := by
  by_cases hu0 : u = .notANumber
  · subst hu0
    exact (if_neg fun h => not_lt.2 h.1 limit_lt_notANumber).symm
  by_cases hv0 : v = .notANumber
  · subst hv0
    rw [if_neg fun h => not_lt.2 h.2 limit_lt_notANumber]
    cases u <;> rfl
  · rw [if_pos ⟨hu.place_le hu0, hv.place_le hv0⟩, compare_eq_some hu hv hu0 hv0]

/-- The order of doubles is that of their places, but what is not a number is not below itself. -/
theorem le_iff_place (hu : Readable u) (hv : Readable v) :
    u.le v = true ↔ place u ≤ place v ∧ place v ≤ limit := by
  rw [UnpackedFloat.le, compare_eq hu hv]
  split_ifs with h
  · rw [Option.any_some, Ordering.isLE_iff_ne_gt, and_iff_left h.2]
    exact compare_gt_iff_gt.not.trans not_lt
  · exact iff_of_false Bool.false_ne_true fun hle => h ⟨hle.1.trans hle.2, hle.2⟩

theorem lt_iff_place (hu : Readable u) (hv : Readable v) :
    u.lt v = true ↔ place u < place v ∧ place v ≤ limit := by
  rw [UnpackedFloat.lt, compare_eq hu hv]
  split_ifs with h
  · rw [beq_iff_eq, Option.some.injEq, compare_lt_iff_lt, and_iff_left h.2]
  · exact iff_of_false Bool.false_ne_true fun hlt => h ⟨hlt.1.le.trans hlt.2, hlt.2⟩

end

end ViewerCircuit.Rounding
