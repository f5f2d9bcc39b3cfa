import ViewerCircuit.Proofs.DoubleOrder
import ViewerCircuit.Proofs.QueueSearch

/-!
# Budgets in doubles

A bucket computes with doubles: durations become seconds, seconds times the rate become bytes, and
all of it is rounded. It stays true that longer waits never accrue less, because the fraction of a
second never reaches the next second, and is lost where the seconds are too many to have fractions.
So the budget of a bucket that waits does not shrink.
-/
namespace ViewerCircuit

namespace Rounding

open Float.Model Float.Model.UnpackedFloat

theorem rank_1e9 : rank 1e9 = 1000000000 := by
  have read : (1e9 : Float).toModel.unpack =
      .finite .positive (1000000000 * 2 ^ 23) (-23) (by decide) := by rfl
  rw [rank, read, place, factor]
  norm_num

theorem rank_second_fraction : rank (Float.ofNat 999999999 / 1e9) < 1 := by
  have read : (Float.ofNat 999999999 / 1e9).toModel.unpack =
      .finite .positive 9007199245733793 (-53) (by decide) := by rfl
  rw [rank, read, place, factor]
  norm_num

theorem rank_ofNat_lt {n : ℕ} (h : n < 2 ^ 53) : |rank (Float.ofNat n)| < limit := by
  rw [rank_ofNat, rounded_natCast h, abs_of_nonneg n.cast_nonneg]
  have : (n : ℚ) < 2 ^ 53 := by exact_mod_cast h
  exact this.trans (two_pow_lt_limit (by decide))

theorem mod_second_lt (t : ℕ) : t % Time.second < Time.second := Nat.mod_lt t (by decide)

/-- What is left of a time after its whole seconds, in seconds. -/
def fraction (t : ℕ) : ℚ := rounded ((t % Time.second : ℕ) / 1000000000)

theorem rank_fraction (t : ℕ) : rank (Float.ofNat (t % Time.second) / 1e9) = fraction t := by
  have small : t % Time.second < 2 ^ 53 := (mod_second_lt t).trans (by decide)
  have number : rank (Float.ofNat (t % Time.second)) = (t % Time.second : ℕ) := by
    rw [rank_ofNat, rounded_natCast small]
  have divisor : |rank 1e9| < limit := by
    rw [rank_1e9, abs_of_pos (by norm_num)]
    exact lt_of_le_of_lt (by norm_num) (two_pow_lt_limit (k := 30) (by decide))
  rw [rank_div (rank_ofNat_lt small) divisor (by rw [rank_1e9]; norm_num), rank_1e9, number,
    fraction]

theorem fraction_nonneg (t : ℕ) : 0 ≤ fraction t := rounded_nonneg (by positivity)

theorem fraction_le {s t : ℕ} (h : s % Time.second ≤ t % Time.second) :
    fraction s ≤ fraction t := by
  have : ((s % Time.second : ℕ) : ℚ) ≤ (t % Time.second : ℕ) := by exact_mod_cast h
  exact rounded_mono (by gcongr)

theorem fraction_lt_one (t : ℕ) : fraction t < 1 := by
  have largest : fraction t ≤ fraction 999999999 :=
    fraction_le (Nat.le_of_lt_succ (mod_second_lt t))
  rw [← rank_fraction 999999999] at largest
  exact largest.trans_lt rank_second_fraction

/-- Fractions of a second are lost where doubles do not have any binary digits behind the point. -/
theorem rounded_absorbs {n : ℕ} (h : 2 ^ 53 ≤ n) (hfinite : rounded n < limit) {z : ℚ} (hz : 0 ≤ z)
    (hlt : z < 1) : rounded (rounded n + z) = rounded n := by
  have hrank := rank_ofNat n
  have hpos : 0 ≤ rounded n := rounded_nonneg n.cast_nonneg
  have hnumber : |rank (Float.ofNat n)| < limit := by
    rw [hrank, abs_of_nonneg hpos]
    exact hfinite
  have hlarge : (2 : ℚ) ^ 53 ≤ rounded n := by
    rw [← rounded_two_pow (k := 53) (by decide)]
    exact rounded_mono (by exact_mod_cast h)
  have canonical := canonical_of_rank hnumber
  rw [rank] at hrank
  generalize (Float.ofNat n).toModel.unpack = u at hrank canonical
  cases canonical with
  | zero s =>
    rw [← hrank, place] at hlarge
    norm_num at hlarge
  | @finite s m e hm digits least leading =>
    cases s with
    | negative =>
      have := place_negative (e := e) hm
      linarith
    | positive =>
      rw [place, factor, one_mul] at hrank
      have hexponent : 1 ≤ e := by
        by_contra hsmall
        have hdigits : (m : ℚ) < 2 ^ 53 := by exact_mod_cast digits
        have hpower : (2 : ℚ) ^ e ≤ 1 := zpow_le_one_of_nonpos₀ one_le_two (by omega)
        have := mul_le_of_le_one_right m.cast_nonneg hpower
        linarith
      rw [rounded, signed_of_nonneg (add_nonneg hpos hz), ← hrank,
        magnitude_absorbs digits (by omega) hexponent hz hlt, hrank,
        saturate_of_abs_le ((abs_of_nonneg hpos).trans_le hfinite.le)]

theorem rounded_le_add {n : ℕ} (hfinite : rounded n < limit) {z : ℚ} (hz : 0 ≤ z) :
    rounded n ≤ rounded (rounded n + z) := by
  have hnumber : |rank (Float.ofNat n)| < limit := by
    rw [rank_ofNat, abs_of_nonneg (rounded_nonneg n.cast_nonneg)]
    exact hfinite
  calc rounded n = rounded (rounded n) := by rw [← rank_ofNat, rounded_rank hnumber]
    _ ≤ rounded (rounded n + z) := rounded_mono (by linarith)

/-- A fraction of a second never reaches beyond the next second. -/
theorem rounded_add_le {m n : ℕ} (h : m < n) (hfinite : rounded m < limit) {z : ℚ} (hz : 0 ≤ z)
    (hlt : z < 1) : rounded (rounded m + z) ≤ rounded n := by
  have next : (m : ℚ) + 1 ≤ n := by exact_mod_cast h
  by_cases hsmall : m < 2 ^ 53
  · rw [rounded_natCast hsmall]
    exact rounded_mono (by linarith)
  · rw [rounded_absorbs (not_lt.1 hsmall) hfinite hz hlt]
    exact rounded_mono (by linarith)

/-- In seconds, a time is its whole seconds and the fraction, each rounded. -/
theorem rank_seconds (t : ℕ) : rank (Clock.seconds t) =
    if rounded (t / Time.second : ℕ) < limit then
      rounded (rounded (t / Time.second : ℕ) + fraction t)
    else limit := by
  have hsmall : |rank (Float.ofNat (t % Time.second) / 1e9)| < limit := by
    rw [rank_fraction, abs_of_nonneg (fraction_nonneg t)]
    exact (fraction_lt_one t).trans (two_pow_lt_limit (k := 0) (by decide))
  have hwhole := rank_ofNat (t / Time.second)
  have hpos := rank_ofNat_nonneg (t / Time.second)
  rw [← hwhole, ← rank_fraction]
  show rank (Float.ofNat (t / Time.second) + Float.ofNat (t % Time.second) / 1e9) = _
  split
  · next h => rw [rank_add ((abs_of_nonneg hpos).trans_lt h) hsmall]
  · next h =>
    have hspecial : ¬ |rank (Float.ofNat (t / Time.second))| < limit := by
      rwa [abs_of_nonneg hpos]
    rw [rank_add_of_not_finite hspecial hsmall, hwhole]
    exact le_antisymm (rounded_le _) (not_lt.1 (hwhole ▸ h))

theorem rank_seconds_mono {s t : ℕ} (h : s ≤ t) :
    rank (Clock.seconds s) ≤ rank (Clock.seconds t) := by
  have hwhole : s / Time.second ≤ t / Time.second := Nat.div_le_div_right h
  have hrounded : rounded (s / Time.second : ℕ) ≤ rounded (t / Time.second : ℕ) :=
    rounded_mono (by exact_mod_cast hwhole)
  rw [rank_seconds, rank_seconds]
  split_ifs with hs ht ht
  · rcases hwhole.lt_or_eq with hlt | heq
    · calc rounded (rounded (s / Time.second : ℕ) + fraction s)
          ≤ rounded (t / Time.second : ℕ) :=
            rounded_add_le hlt hs (fraction_nonneg s) (fraction_lt_one s)
        _ ≤ rounded (rounded (t / Time.second : ℕ) + fraction t) :=
            rounded_le_add ht (fraction_nonneg t)
    · have hrest : s % Time.second ≤ t % Time.second := by
        have := Nat.div_add_mod s Time.second
        have := Nat.div_add_mod t Time.second
        rw [heq] at *
        omega
      rw [heq]
      exact rounded_mono (by linarith [fraction_le hrest])
  · exact rounded_le _
  · exact absurd (hrounded.trans_lt ht) hs
  · exact le_rfl

theorem rank_seconds_nonneg (t : ℕ) : 0 ≤ rank (Clock.seconds t) := by
  rw [rank_seconds]
  split
  · exact rounded_nonneg (add_nonneg (rounded_nonneg (Nat.cast_nonneg _)) (fraction_nonneg t))
  · exact limit_pos.le

/-- Durations of less than 2 ^ 64 seconds are finite. -/
theorem rank_seconds_lt {t : ℕ} (h : t < 2 ^ 64 * Time.second) :
    rank (Clock.seconds t) < limit := by
  have hwhole : rounded (t / Time.second : ℕ) ≤ 2 ^ 64 := by
    have hdiv : t / Time.second < 2 ^ 64 := Nat.div_lt_of_lt_mul (by rwa [mul_comm] at h)
    rw [← rounded_two_pow (k := 64) (by decide)]
    exact rounded_mono (by exact_mod_cast hdiv.le)
  have room : rounded (t / Time.second : ℕ) + fraction t ≤ 2 ^ 65 := by
    have : (2 : ℚ) ^ 65 = 2 ^ 64 + 2 ^ 64 := by ring
    linarith [fraction_lt_one t, one_le_pow₀ (one_le_two : (1 : ℚ) ≤ 2) (n := 64)]
  rw [rank_seconds, if_pos (hwhole.trans_lt (two_pow_lt_limit (by decide)))]
  calc rounded (rounded (t / Time.second : ℕ) + fraction t) ≤ rounded (2 ^ 65) := rounded_mono room
    _ = 2 ^ 65 := rounded_two_pow (by decide)
    _ < limit := two_pow_lt_limit (by decide)

end Rounding

namespace Bucket

open Rounding

variable {b : Bucket Nat Float} {s t size : Nat}

theorem rank_rate_lt (rate : UInt32) : |rank (Float.ofNat rate.toNat)| < limit :=
  rank_ofNat_lt (rate.toNat_lt.trans (by decide))

theorem ofNat_le_capacityAt {burst minCapacity : Nat} (rate : UInt32)
    (hburst : burst < 2 ^ 64 * Time.second) (h : size ≤ minCapacity) :
    Float.ofNat size ≤ capacityAt rate burst minCapacity := by
  apply le_max_of_le (ofNat_le h)
  have hseconds := (abs_of_nonneg (rank_seconds_nonneg burst)).trans_lt (rank_seconds_lt hburst)
  exact (rank_mul (rank_rate_lt rate) hseconds).trans_le (rounded_le _)

def accrued (b : Bucket Nat Float) (t : Nat) : Float :=
  Clock.seconds (t - b.lastRefill) * Float.ofNat b.rate.toNat

theorem accrued_mono (b : Bucket Nat Float) (h : s ≤ t) :
    rank (b.accrued s) ≤ rank (b.accrued t) :=
  rank_mul_mono (rank_seconds_nonneg _) (rank_seconds_mono (Nat.sub_le_sub_right h _))
    (rank_ofNat_nonneg _) (rank_rate_lt _)

theorem accrued_nonneg (b : Bucket Nat Float) (t : Nat) : 0 ≤ rank (b.accrued t) :=
  rank_mul_nonneg (rank_seconds_nonneg _) (rank_ofNat_nonneg _) (rank_rate_lt _)

theorem refill_tokens (h : b.lastRefill < t) :
    (b.refill t).tokens = min (b.tokens + b.accrued t) b.capacity :=
  congrArg tokens (if_neg (not_le.2 h))

structure Holds (b : Bucket Nat Float) (size : Nat) : Prop where
  fits : size ≤ b.minCapacity
  burst : b.burst < 2 ^ 64 * Time.second
  capacity_eq : b.capacity = capacityAt b.rate b.burst b.minCapacity

theorem Holds.le_capacity (h : b.Holds size) : Float.ofNat size ≤ b.capacity := by
  rw [h.capacity_eq]
  exact ofNat_le_capacityAt b.rate h.burst h.fits

theorem Holds.refill (h : b.Holds size) (now : Nat) : (b.refill now).Holds size := by
  obtain ⟨hrate, hcapacity, hburst, hmin, -⟩ := b.refill_spec now
  refine ⟨hmin.symm ▸ h.fits, hburst.symm ▸ h.burst, ?_⟩
  rw [hcapacity, hrate, hburst, hmin]
  exact h.capacity_eq

theorem Holds.consume {paid : Bucket Nat Float} {bytes : Nat} (h : b.Holds size)
    (hp : b.consume? bytes = some paid) : paid.Holds size := by
  by_cases hr : b.required bytes ≤ b.tokens
  · rw [consume?, if_pos hr] at hp
    obtain rfl := Option.some.inj hp
    exact ⟨h.fits, h.burst, h.capacity_eq⟩
  · rw [consume?, if_neg hr] at hp
    cases hp

theorem Holds.withRate (h : b.Holds size) (rate : UInt32) (now : Nat) :
    (b.withRate rate now).Holds size := by
  obtain ⟨-, -, hburst, hmin, -⟩ := b.refill_spec now
  refine ⟨hmin.symm ▸ h.fits, hburst.symm ▸ h.burst, ?_⟩
  show capacityAt rate b.burst b.minCapacity =
    capacityAt rate (b.refill now).burst (b.refill now).minCapacity
  rw [hburst, hmin]

structure Affords (b : Bucket Nat Float) (now size : Nat) : Prop where
  holds : b.Holds size
  enough : Float.ofNat size ≤ (b.refill now).tokens

theorem Affords.covers (h : b.Affords s size) : b.Covers s size := by
  have hrequired : b.required size = Float.ofNat size := if_pos h.holds.le_capacity
  rw [Covers, hrequired]
  exact h.enough

/-- The budget of a bucket does not shrink while it waits. -/
theorem Affords.later (h : b.Affords s size) (hs : s ≤ t) : b.Affords t size := by
  have fits := h.holds.le_capacity
  have enough := h.enough
  refine ⟨h.holds, ?_⟩
  by_cases ht : t ≤ b.lastRefill
  · rw [refill, if_pos ht]
    rwa [refill, if_pos (hs.trans ht)] at enough
  · rw [refill_tokens (not_le.1 ht), le_min_iff fits]
    by_cases hlast : s ≤ b.lastRefill
    · rw [refill, if_pos hlast] at enough
      exact (le_iff.1 enough).1.trans (rank_le_add (b.accrued_nonneg t))
    · rw [refill_tokens (not_le.1 hlast), le_min_iff fits] at enough
      exact enough.trans (rank_add_mono (b.accrued_nonneg s) (b.accrued_mono hs))

theorem Affords.refill (h : b.Affords s size) (hs : s ≤ t) : (b.refill t).Affords t size := by
  refine ⟨h.holds.refill t, ?_⟩
  rw [refill_refill]
  exact (h.later hs).enough

/-- Whatever the new rate is, the budget for a packet that fits is kept. -/
theorem Affords.withRate (h : b.Affords s size) (hs : s ≤ t) (rate : UInt32) :
    (b.withRate rate t).Affords t size := by
  have changed := h.holds.withRate rate t
  have kept : ((b.withRate rate t).refill t).tokens = (b.withRate rate t).tokens :=
    congrArg tokens (if_pos (b.refill_spec t).2.2.2.2)
  refine ⟨changed, ?_⟩
  rw [kept]
  exact (le_min_iff changed.le_capacity).2 (le_iff.1 (h.later hs).enough).1

end Bucket
end ViewerCircuit
