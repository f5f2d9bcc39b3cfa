import ViewerCircuit.Proofs.RateConformance

/-!
# How long a queue sleeps

With exact fractions for bytes and seconds, a search that finds no packet comes back with the time
after which one can leave. It is the shortest of the times that the waiting packets need, each a
millisecond at least: at that time a packet leaves, and before it none can.
-/
namespace ViewerCircuit

namespace Bucket

variable {b : Bucket ℚ ℚ} {now later earlier : ℚ} {size : Nat}

theorem refill_lastRefill (h : b.lastRefill ≤ now) : (b.refill now).lastRefill = now := by
  by_cases hn : now ≤ b.lastRefill
  · rw [refill, if_pos hn]
    exact le_antisymm h hn
  · rw [refill, if_neg hn]

theorem refill_later (h : b.lastRefill < later) : b.refill later =
    { b with
      tokens := min (b.tokens + (later - b.lastRefill) * b.rate.toNat) b.capacity
      lastRefill := later } :=
  if_neg (not_le.2 h)

theorem millisecond_le_timeUntil (b : Bucket ℚ ℚ) (size : Nat) : 1 / 1000 ≤ b.timeUntil size := by
  rw [timeUntil]
  split
  · exact le_rfl
  · exact le_max_right _ _

/-- What is missing accrues at the rate. -/
theorem timeUntil_eq (hrate : b.rate ≠ 0) (hmissing : b.tokens < b.required size) :
    b.timeUntil size = max ((b.required size - b.tokens) / b.rate.toNat) (1 / 1000) := by
  refine if_neg ?_
  rintro (hle | hzero)
  · have missing : b.required size - b.tokens ≤ ((0 : Nat) : ℚ) := hle
    rw [Nat.cast_zero] at missing
    linarith
  · exact hrate hzero

theorem rate_pos (hrate : b.rate ≠ 0) : (0 : ℚ) < b.rate.toNat := by
  rw [Nat.cast_pos, Nat.pos_iff_ne_zero]
  intro hzero
  exact hrate (UInt32.toNat_inj.1 hzero)

theorem covers_iff_lt (h : b.lastRefill < later) : b.Covers later size ↔
    b.required size ≤ b.tokens + (later - b.lastRefill) * b.rate.toNat := by
  have capped : b.required size ≤ b.capacity := min_le_right _ _
  rw [Covers, refill_later h, le_min_iff]
  exact and_iff_left capped

theorem covers_iff_le (h : later ≤ b.lastRefill) :
    b.Covers later size ↔ b.required size ≤ b.tokens := by
  rw [Covers, refill, if_pos h]

/-- Also for more bytes than its capacity, the bucket does not have to wait longer. -/
theorem covers_of_timeUntil_le (hrate : b.rate ≠ 0) (hmissing : b.tokens < b.required size)
    (h : b.lastRefill + b.timeUntil size ≤ later) : b.Covers later size := by
  have floor := b.millisecond_le_timeUntil size
  have waited : (b.required size - b.tokens) / b.rate.toNat ≤ later - b.lastRefill := by
    have accrued := le_max_left ((b.required size - b.tokens) / b.rate.toNat) (1 / 1000)
    rw [← timeUntil_eq hrate hmissing] at accrued
    linarith
  rw [covers_iff_lt (by linarith)]
  rw [div_le_iff₀ (rate_pos hrate)] at waited
  linarith

theorem not_covers_of_lt_timeUntil (hrate : b.rate ≠ 0) (hmissing : b.tokens < b.required size)
    (hfloor : 1 / 1000 < b.timeUntil size) (h : earlier < b.lastRefill + b.timeUntil size) :
    ¬ b.Covers earlier size := by
  rcases le_or_gt earlier b.lastRefill with hle | hlt
  · rw [covers_iff_le hle, not_le]
    exact hmissing
  · -- Above the floor, the time is the one in which the missing bytes accrue.
    have exact_time : b.timeUntil size = (b.required size - b.tokens) / b.rate.toNat := by
      rw [timeUntil_eq hrate hmissing] at hfloor ⊢
      exact max_eq_left ((lt_max_iff.1 hfloor).resolve_right (lt_irrefl _)).le
    have short : earlier - b.lastRefill < (b.required size - b.tokens) / b.rate.toNat := by
      linarith
    rw [covers_iff_lt hlt, not_le]
    rw [lt_div_iff₀ (rate_pos hrate)] at short
    linarith

end Bucket

namespace Queue

variable {q : Queue ℚ ℚ} {now w later earlier : ℚ} {c : Category} {cs : List Category}
  {best : Option ℚ} {o : Outgoing} {rest : List Outgoing}

/-- How long the first packet of `c` needs from now on. -/
def timeFor (q : Queue ℚ ℚ) (now : ℚ) (c : Category) (o : Outgoing) : ℚ :=
  ((q.buckets.get c).refill now).timeUntil o.bytes.length

theorem refill_timeFor (d : Category) (p : Outgoing) :
    (q.refill now c).timeFor now d p = q.timeFor now d p := by
  rw [timeFor, refill_get_refill, timeFor]

/-- The time with which a search comes back is the shortest one. -/
theorem search_time (h : (search now cs best q).1 = .wait w) :
    (∀ t, best = some t → w ≤ t) ∧
      (∀ c ∈ cs, ∀ o rest, q.outgoing.get c = o :: rest → w ≤ q.timeFor now c o) ∧
      (best = some w ∨
        ∃ c ∈ cs, ∃ o rest, q.outgoing.get c = o :: rest ∧ w = q.timeFor now c o) := by
  induction cs generalizing best q with
  | nil =>
    cases best with
    | none => cases h
    | some t =>
      obtain rfl := Dequeued.wait.inj h
      refine ⟨fun s hs => (Option.some.inj hs).le, ?_, .inl rfl⟩
      intro c hc
      cases hc
  | cons d cs ih =>
    rw [List.forall_mem_cons, List.exists_mem_cons_iff]
    cases hd : q.outgoing.get d with
    | nil =>
      rw [search_skip hd] at h
      obtain ⟨hbest, hall, hsome⟩ := ih h
      refine ⟨hbest, ⟨?_, hall⟩, hsome.imp_right .inr⟩
      intro o rest ho
      cases ho
    | cons p others =>
      by_cases hc : (q.buckets.get d).Covers now p.bytes.length
      · rw [search_stop hd hc] at h
        cases h
      · rw [search_pass hd hc] at h
        obtain ⟨hbest, hall, hsome⟩ := ih h
        simp only [refill_timeFor] at hall hsome
        have shortest := hbest _ rfl
        refine ⟨?_, ⟨?_, hall⟩, ?_⟩
        · rintro t rfl
          exact shortest.trans (min_le_left _ _)
        · intro o rest ho
          obtain ⟨rfl, -⟩ := List.cons.inj ho
          cases best with
          | none => exact shortest
          | some t => exact shortest.trans (min_le_right _ _)
        · rcases hsome with hw | hlater
          · have hw := Option.some.inj hw
            cases best with
            | none => exact .inr (.inl ⟨p, others, rfl, hw.symm⟩)
            | some t =>
              rcases min_choice t (q.timeFor now d p) with ht | ht
              · exact .inl (congrArg some (ht.symm.trans hw))
              · exact .inr (.inl ⟨p, others, rfl, hw.symm.trans ht⟩)
          · exact .inr (.inr hlater)

theorem release_outgoing_iff (q : Queue ℚ ℚ) (now : ℚ) :
    (∃ o, (q.release now).1 = .outgoing o) ↔ ∃ c, q.Releasable now c := by
  simp only [release, search_outgoing_iff, Category.mem_roundFrom, true_and]

/-- What a search that found no packet leaves for the next one: the same packets, and the buckets
refilled where they wait. -/
theorem release_wait (h : (q.release now).1 = .wait w) : (q.release now).2.outgoing = q.outgoing ∧
    ∀ c o rest, q.outgoing.get c = o :: rest →
      (q.release now).2.buckets.get c = (q.buckets.get c).refill now := by
  have none_found : ∀ o, (q.release now).1 ≠ .outgoing o := by
    intro o ho
    cases h.symm.trans ho
  constructor
  · obtain ⟨-, -, ⟨c, o, rest, hfound, -⟩ | ⟨-, hout⟩⟩ := q.search_spec now q.turn.roundFrom none
    · exact absurd hfound (none_found o)
    · exact hout
  · intro c o rest hget
    exact search_refills none_found (Category.mem_roundFrom q.turn c) hget

/-- What is promised of a search at the time `now`. After the time that it names a packet
leaves, and nothing else has to happen; unless that is the shortest time possible, none could
leave before. -/
structure Sleeps (q : Queue ℚ ℚ) (now : ℚ) : Prop where
  released_iff : (∃ o, (q.release now).1 = .outgoing o) ↔ ∃ c, q.Releasable now c
  idle_iff : (q.release now).1 = .idle ↔ ∀ c, q.outgoing.get c = []
  blocked : ∀ {w}, (q.release now).1 = .wait w → ∀ c, ¬ q.Releasable now c
  millisecond_le : ∀ {w}, (q.release now).1 = .wait w → 1 / 1000 ≤ w
  enough : ∀ {w later}, (q.release now).1 = .wait w → now + w ≤ later →
    ∃ o, ((q.release now).2.release later).1 = .outgoing o
  needed : ∀ {w earlier}, (q.release now).1 = .wait w → 1 / 1000 < w → earlier < now + w →
    ∀ o, ((q.release now).2.release earlier).1 ≠ .outgoing o

/-- Whatever the buckets hold or owe, where all of them accrue at some rate, a queue sleeps for
neither too long nor too short a time. -/
theorem sleep_is_exact (hrate : ∀ c, (q.buckets.get c).rate ≠ 0)
    (hpast : ∀ c, (q.buckets.get c).lastRefill ≤ now) : q.Sleeps now := by
  have blocked : ∀ {w}, (q.release now).1 = .wait w → ∀ c, ¬ q.Releasable now c := by
    intro w h c hc
    obtain ⟨o, ho⟩ := (q.release_outgoing_iff now).2 ⟨c, hc⟩
    cases h.symm.trans ho
  -- A bucket after the search, in a category where a packet waits
  have bucket : ∀ {w}, (q.release now).1 = .wait w → ∀ c o rest, q.outgoing.get c = o :: rest →
      ∃ b, (q.release now).2.buckets.get c = b ∧ b.rate ≠ 0 ∧ b.lastRefill = now ∧
        b.tokens < b.required o.bytes.length ∧ b.timeUntil o.bytes.length = q.timeFor now c o := by
    intro w h c o rest hget
    refine ⟨(q.buckets.get c).refill now, (release_wait h).2 c o rest hget, ?_,
      Bucket.refill_lastRefill (hpast c), ?_, rfl⟩
    · rw [((q.buckets.get c).refill_spec now).1]
      exact hrate c
    · rw [Bucket.required_refill]
      exact not_le.1 (mt (releasable_iff hget).2 (blocked h c))
  constructor
  · exact q.release_outgoing_iff now
  · simp only [release, search_idle_iff, Category.mem_roundFrom, true_and, forall_true_left]
  · exact blocked
  · intro w h
    obtain ⟨-, -, hnone | ⟨c, -, o, rest, -, hw⟩⟩ := search_time h
    · cases hnone
    · rw [hw]
      exact Bucket.millisecond_le_timeUntil _ _
  · intro w later h hlater
    obtain ⟨-, -, hnone | ⟨c, -, o, rest, hget, hw⟩⟩ := search_time h
    · cases hnone
    · obtain ⟨b, hb, hr, hlast, hmissing, htime⟩ := bucket h c o rest hget
      refine (release_outgoing_iff _ later).2 ⟨c, o, rest, ?_, ?_⟩
      · rw [(release_wait h).1, hget]
      · rw [hb]
        apply Bucket.covers_of_timeUntil_le hr hmissing
        rw [hlast, htime, ← hw]
        exact hlater
  · intro w earlier h hfloor hearlier o ho
    obtain ⟨-, hall, -⟩ := search_time h
    obtain ⟨c, p, rest, hget, hcovers⟩ := (release_outgoing_iff _ earlier).1 ⟨o, ho⟩
    rw [(release_wait h).1] at hget
    obtain ⟨b, hb, hr, hlast, hmissing, htime⟩ := bucket h c p rest hget
    have shortest := hall c (Category.mem_roundFrom q.turn c) p rest hget
    rw [← htime] at shortest
    rw [hb] at hcovers
    refine Bucket.not_covers_of_lt_timeUntil hr hmissing ?_ ?_ hcovers
    · linarith
    · rw [hlast]
      linarith

/-- A second packet larger than the bucket waits until the bucket has paid for the first one and is
full again. -/
def indebted : Queue ℚ ℚ :=
  (new (.all 1000) (1 / 10) 50 0).after
    [.enqueue ⟨List.replicate 250 0, .startPingCheck, 1, .unreliable, .land⟩,
      .enqueue ⟨List.replicate 250 0, .startPingCheck, 2, .unreliable, .land⟩,
      .release (1 / 10)]

theorem indebted_sleeps : (∀ c, (indebted.buckets.get c).rate ≠ 0) ∧
    (∀ c, (indebted.buckets.get c).lastRefill ≤ 1 / 5) ∧
    (indebted.release (1 / 5)).1 = .wait (3 / 20) ∧ indebted.Sleeps (1 / 5) := by
  have rates : ∀ c, (indebted.buckets.get c).rate ≠ 0 := by
    intro c
    cases c <;> decide +kernel
  have past : ∀ c, (indebted.buckets.get c).lastRefill ≤ 1 / 5 := by
    intro c
    cases c <;> decide +kernel
  refine ⟨rates, past, ?_, ?_⟩
  · decide +kernel
  · exact sleep_is_exact rates past

end Queue
end ViewerCircuit
