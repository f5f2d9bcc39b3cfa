import ViewerCircuit.Proofs.DoubleArithmetic

/-!
# The order of sums and products

A sum of doubles grows with what is added, and a product with its factors where they are not
negative. This includes infinite doubles and what is not a number, which stand above all others.
-/
namespace ViewerCircuit.Rounding

open Float.Model Float.Model.UnpackedFloat

section

variable {u : UnpackedFloat}

theorem add_notANumber (u : UnpackedFloat) :
    UnpackedFloat.add Format.binary64 u .notANumber = .notANumber := by
  cases u <;> rfl

theorem notANumber_add (u : UnpackedFloat) :
    UnpackedFloat.add Format.binary64 .notANumber u = .notANumber := by
  cases u <;> rfl

theorem infinity_add (s : Sign) (hu : Canonical u) :
    UnpackedFloat.add Format.binary64 (.infinity s) u = .infinity s := by
  cases hu <;> rfl

theorem add_infinity (s : Sign) (hu : Canonical u) :
    UnpackedFloat.add Format.binary64 u (.infinity s) = .infinity s := by
  cases hu <;> rfl

theorem infinity_add_infinity (s : Sign) :
    UnpackedFloat.add Format.binary64 (.infinity s) (.infinity s) = .infinity s := by
  cases s <;> rfl

theorem notANumber_mul (u : UnpackedFloat) :
    UnpackedFloat.mul Format.binary64 .notANumber u = .notANumber := by
  cases u <;> rfl

theorem infinity_mul_zero (s t : Sign) :
    UnpackedFloat.mul Format.binary64 (.infinity s) (.zero t) = .notANumber := rfl

theorem infinity_mul_finite (s t : Sign) {m : ℕ} (e : ℤ) (hm : 0 < m) :
    UnpackedFloat.mul Format.binary64 (.infinity s) (.finite t m e hm) = .infinity (s * t) := rfl

theorem zero_mul_infinity (s t : Sign) :
    UnpackedFloat.mul Format.binary64 (.zero s) (.infinity t) = .notANumber := rfl

theorem finite_mul_infinity (s t : Sign) {m : ℕ} (e : ℤ) (hm : 0 < m) :
    UnpackedFloat.mul Format.binary64 (.finite s m e hm) (.infinity t) = .infinity (s * t) := rfl

theorem unpack_pack_notANumber : (Float.Model.pack .notANumber).unpack = .notANumber := rfl

theorem unpack_pack_infinity (s : Sign) :
    (Float.Model.pack (.infinity s)).unpack = .infinity s := by
  cases s <;> rfl

end

variable {x x' y y' z : Float}

theorem unpack_add (x y : Float) : (x + y).toModel.unpack = (Float.Model.pack
    (UnpackedFloat.add Format.binary64 x.toModel.unpack y.toModel.unpack)).unpack := rfl

theorem unpack_mul (x y : Float) : (x * y).toModel.unpack = (Float.Model.pack
    (UnpackedFloat.mul Format.binary64 x.toModel.unpack y.toModel.unpack)).unpack := rfl

theorem rank_notANumber (h : x.toModel.unpack = .notANumber) : rank x = 2 * limit := by
  rw [rank, h, place]

theorem rank_infinity {s : Sign} (h : x.toModel.unpack = .infinity s) :
    rank x = factor s * limit := by
  rw [rank, h, place]

theorem rank_bounds (x : Float) : -limit ≤ rank x ∧ rank x ≤ 2 * limit := by
  have := limit_pos
  rcases rank_cases x with hnan | ⟨s, hinf⟩ | hfinite
  · rw [rank_notANumber hnan]
    exact ⟨by linarith, le_rfl⟩
  · rw [rank_infinity hinf]
    rcases factor_cases s with h | h <;> rw [h] <;> constructor <;> linarith
  · obtain ⟨hlow, hhigh⟩ := abs_lt.1 hfinite
    exact ⟨hlow.le, by linarith⟩

theorem nonneg_cases (h : 0 ≤ rank x) : x.toModel.unpack = .notANumber ∨
    x.toModel.unpack = .infinity .positive ∨ |rank x| < limit := by
  rcases rank_cases x with hnan | ⟨s, hinf⟩ | hfinite
  · exact .inl hnan
  · cases s with
    | positive => exact .inr (.inl hinf)
    | negative =>
      rw [rank_infinity hinf, factor] at h
      linarith [limit_pos]
  · exact .inr (.inr hfinite)

/-- What is not finite stays what it is when a number is added. -/
theorem rank_add_of_not_finite (hx : ¬ |rank x| < limit) (hy : |rank y| < limit) :
    rank (x + y) = rank x := by
  rw [rank, rank, unpack_add]
  rcases rank_cases x with hnan | ⟨s, hinf⟩ | hfinite
  · rw [hnan, notANumber_add, unpack_pack_notANumber]
  · rw [hinf, infinity_add s (canonical_of_rank hy), unpack_pack_infinity]
  · exact absurd hfinite hx

theorem rank_le_add_infinity (hy : y.toModel.unpack = .infinity .positive) :
    rank x ≤ rank (x + y) ∧ (|rank x| < limit → rank (x + y) = limit) := by
  rcases rank_cases x with hnan | ⟨s, hinf⟩ | hfinite
  · have same : rank (x + y) = rank x := by
      rw [rank, rank, unpack_add, hnan, notANumber_add, unpack_pack_notANumber]
    refine ⟨same.ge, fun hfinite => ?_⟩
    rw [rank_notANumber hnan] at hfinite
    linarith [le_abs_self (2 * limit), limit_pos]
  · cases s with
    | negative =>
      have least : rank x = -limit := by rw [rank_infinity hinf, factor, neg_one_mul]
      refine ⟨least.trans_le (rank_bounds _).1, fun hfinite => ?_⟩
      rw [least, abs_neg, abs_of_pos limit_pos] at hfinite
      exact absurd hfinite (lt_irrefl _)
    | positive =>
      have same : rank (x + y) = rank x := by
        rw [rank, rank, unpack_add, hinf, hy, infinity_add_infinity, unpack_pack_infinity]
      refine ⟨same.ge, fun _ => ?_⟩
      rw [same, rank_infinity hinf, factor, one_mul]
  · have infinite : rank (x + y) = limit := by
      rw [rank, unpack_add, hy, add_infinity _ (canonical_of_rank hfinite), unpack_pack_infinity,
        place_infinity.1]
    refine ⟨?_, fun _ => infinite⟩
    rw [infinite]
    exact (abs_lt.1 hfinite).2.le

/-- Behind a double that is not negative, another one is finite only if it is. -/
theorem finite_of_le (hy : 0 ≤ rank y) (h : rank y ≤ rank y') (hfinite : |rank y'| < limit) :
    |rank y| < limit :=
  (abs_of_nonneg hy).trans_lt (h.trans_lt (abs_lt.1 hfinite).2)

/-- Behind an infinity, there is only this infinity and numbers. -/
theorem le_infinity_cases (hy : 0 ≤ rank y) (h : rank y ≤ rank y')
    (hinf : y'.toModel.unpack = .infinity .positive) :
    y.toModel.unpack = .infinity .positive ∨ |rank y| < limit := by
  refine (nonneg_cases hy).resolve_left fun hnan => ?_
  rw [rank_notANumber hnan, rank_infinity hinf, factor, one_mul] at h
  linarith [limit_pos]

theorem rank_add_mono (hy : 0 ≤ rank y) (h : rank y ≤ rank y') :
    rank (x + y) ≤ rank (x + y') := by
  rcases nonneg_cases (hy.trans h) with hnan' | hinf' | hfinite'
  · have undefined : rank (x + y') = 2 * limit := by
      apply rank_notANumber
      rw [unpack_add, hnan', add_notANumber, unpack_pack_notANumber]
    rw [undefined]
    exact (rank_bounds _).2
  · rcases le_infinity_cases hy h hinf' with hinf | hfinite
    · rw [rank, rank, unpack_add, unpack_add, hinf, hinf']
    · by_cases hx : |rank x| < limit
      · rw [rank_add hx hfinite, (rank_le_add_infinity hinf').2 hx]
        exact rounded_le _
      · rw [rank_add_of_not_finite hx hfinite]
        exact (rank_le_add_infinity hinf').1
  · have hfinite := finite_of_le hy h hfinite'
    by_cases hx : |rank x| < limit
    · rw [rank_add hx hfinite, rank_add hx hfinite']
      exact rounded_mono (by linarith)
    · rw [rank_add_of_not_finite hx hfinite, rank_add_of_not_finite hx hfinite']

theorem limit_le_infinity_mul (hx : x.toModel.unpack = .infinity .positive) (hy : 0 ≤ rank y)
    (hfinite : |rank y| < limit) : limit ≤ rank (x * y) := by
  have canonical := canonical_of_rank hfinite
  rw [rank] at hy
  rw [rank, unpack_mul, hx]
  generalize y.toModel.unpack = v at hy canonical
  cases canonical with
  | zero t =>
    rw [infinity_mul_zero, unpack_pack_notANumber]
    exact limit_lt_notANumber.le
  | finite t hm =>
    cases t with
    | negative => exact absurd (place_negative hm) (not_lt.2 hy)
    | positive =>
      rw [infinity_mul_finite, unpack_pack_infinity]
      exact place_infinity.1.ge

/-- Infinity leaves the sign of what it multiplies, and nothing of zero. -/
theorem mul_infinity_cases (hx : |rank x| < limit) (hy : y.toModel.unpack = .infinity .positive) :
    rank x = 0 ∧ (x * y).toModel.unpack = .notANumber ∨
      rank x ≠ 0 ∧ ∃ s, (x * y).toModel.unpack = .infinity s := by
  have canonical := canonical_of_rank hx
  rw [rank, unpack_mul, hy]
  generalize x.toModel.unpack = u at canonical
  cases canonical with
  | zero s =>
    rw [zero_mul_infinity, unpack_pack_notANumber]
    exact .inl ⟨rfl, rfl⟩
  | finite s hm =>
    rw [finite_mul_infinity, unpack_pack_infinity]
    refine .inr ⟨?_, _, rfl⟩
    cases s with
    | negative => exact (place_negative hm).ne
    | positive => exact (place_positive hm).ne'

theorem rank_mul_mono (hx : 0 ≤ rank x) (h : rank x ≤ rank x') (hy : 0 ≤ rank y)
    (hfinite : |rank y| < limit) : rank (x * y) ≤ rank (x' * y) := by
  rcases nonneg_cases (hx.trans h) with hnan' | hinf' | hfinite'
  · have undefined : rank (x' * y) = 2 * limit := by
      apply rank_notANumber
      rw [unpack_mul, hnan', notANumber_mul, unpack_pack_notANumber]
    rw [undefined]
    exact (rank_bounds _).2
  · rcases le_infinity_cases hx h hinf' with hinf | hfinite_x
    · rw [rank, rank, unpack_mul, unpack_mul, hinf, hinf']
    · rw [rank_mul hfinite_x hfinite]
      exact (rounded_le _).trans (limit_le_infinity_mul hinf' hy hfinite)
  · rw [rank_mul (finite_of_le hx h hfinite') hfinite, rank_mul hfinite' hfinite]
    exact rounded_mono (by gcongr)

theorem rank_ofNat_zero : rank (Float.ofNat 0) = 0 := by
  rw [rank_ofNat, Nat.cast_zero, rounded_zero]

theorem rank_ofNat_zero_lt : |rank (Float.ofNat 0)| < limit := by
  rw [rank_ofNat_zero, abs_zero]
  exact limit_pos

theorem rank_le_add (hy : 0 ≤ rank y) : rank x ≤ rank (x + y) := by
  have same : rank (x + Float.ofNat 0) = rank x := by
    by_cases hx : |rank x| < limit
    · rw [rank_add hx rank_ofNat_zero_lt, rank_ofNat_zero, add_zero, rounded_rank hx]
    · exact rank_add_of_not_finite hx rank_ofNat_zero_lt
  rw [← same]
  exact rank_add_mono rank_ofNat_zero.ge (rank_ofNat_zero.trans_le hy)

theorem rank_mul_nonneg (hx : 0 ≤ rank x) (hy : 0 ≤ rank y) (hfinite : |rank y| < limit) :
    0 ≤ rank (x * y) := by
  have zero : rank (Float.ofNat 0 * y) = 0 := by
    rw [rank_mul rank_ofNat_zero_lt hfinite, rank_ofNat_zero, zero_mul, rounded_zero]
  rw [← zero]
  exact rank_mul_mono rank_ofNat_zero.ge (rank_ofNat_zero.trans_le hx) hy hfinite

theorem rank_ofNat_nonneg (n : ℕ) : 0 ≤ rank (Float.ofNat n) := by
  rw [rank_ofNat]
  exact rounded_nonneg n.cast_nonneg

theorem ofNat_le {m n : ℕ} (h : m ≤ n) : Float.ofNat m ≤ Float.ofNat n := by
  rw [le_iff, rank_ofNat, rank_ofNat]
  exact ⟨rounded_mono (by exact_mod_cast h), rounded_le _⟩

theorem le_min_iff (h : x ≤ z) : x ≤ min y z ↔ rank x ≤ rank y := by
  obtain ⟨hxz, hz⟩ := le_iff.1 h
  show x ≤ (if y ≤ z then y else z) ↔ _
  split
  · next hle => rw [le_iff, and_iff_left ((le_iff.1 hle).1.trans hz)]
  · next hle =>
    rw [le_iff, and_iff_left hz, not_le] at hle
    exact iff_of_true h (hxz.trans hle.le)

theorem le_max_of_le (h : x ≤ z) (hy : rank y ≤ limit) : x ≤ max y z := by
  obtain ⟨hxz, hz⟩ := le_iff.1 h
  show x ≤ (if y ≤ z then z else y)
  split
  · exact h
  · next hle =>
    rw [le_iff, and_iff_left hz, not_le] at hle
    exact le_iff.2 ⟨hxz.trans hle.le, hy⟩

end ViewerCircuit.Rounding
