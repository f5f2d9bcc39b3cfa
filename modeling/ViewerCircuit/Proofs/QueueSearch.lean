import Mathlib.Data.List.Basic
import Mathlib.Order.Defs.PartialOrder
import ViewerCircuit.Proofs.QueueRun

/-!
# The search for a packet

A search goes round the categories and stops at the first one whose bucket, refilled, covers the
packet that waits first there. It finds a packet exactly if there is such a category. On its way it
refills the buckets of the categories in which packets wait.
-/
namespace ViewerCircuit

namespace Category

theorem mem_roundFrom (turn c : Category) : c ∈ turn.roundFrom := by
  cases turn <;> cases c <;> decide

end Category

variable {τ α : Type} [Add α] [Mul α] [Min α] [Amount α] [Preorder τ] [DecidableLE τ] [Sub τ]
  [Clock τ α]

namespace Bucket

theorem refill_spec (b : Bucket τ α) (now : τ) :
    (b.refill now).rate = b.rate ∧ (b.refill now).capacity = b.capacity ∧
      (b.refill now).burst = b.burst ∧ (b.refill now).minCapacity = b.minCapacity ∧
      now ≤ (b.refill now).lastRefill := by
  by_cases h : now ≤ b.lastRefill
  · rw [refill, if_pos h]
    exact ⟨rfl, rfl, rfl, rfl, h⟩
  · rw [refill, if_neg h]
    exact ⟨rfl, rfl, rfl, rfl, le_rfl⟩

theorem refill_refill (b : Bucket τ α) (now : τ) : (b.refill now).refill now = b.refill now :=
  if_pos (b.refill_spec now).2.2.2.2

theorem required_refill (b : Bucket τ α) (now : τ) (size : Nat) :
    (b.refill now).required size = b.required size := by
  rw [required, required, (b.refill_spec now).2.1]

variable [LE α]

def Covers (b : Bucket τ α) (now : τ) (size : Nat) : Prop :=
  b.required size ≤ (b.refill now).tokens

variable [Sub α] [DecidableLE α] {b : Bucket τ α} {now : τ} {size : Nat}

theorem consume_of_covers (h : b.Covers now size) : (b.refill now).consume? size =
    some { b.refill now with tokens := (b.refill now).tokens - Amount.ofNat size } :=
  if_pos (b.required_refill now size ▸ h)

theorem consume_of_not_covers (h : ¬ b.Covers now size) : (b.refill now).consume? size = none :=
  if_neg (b.required_refill now size ▸ h)

end Bucket

namespace Queue

variable {q : Queue τ α} {now : τ} {c d : Category} {cs : List Category} {best : Option τ}
  {o : Outgoing} {rest : List Outgoing}

def refill (q : Queue τ α) (now : τ) (c : Category) : Queue τ α :=
  { q with buckets := q.buckets.set c ((q.buckets.get c).refill now) }

theorem refill_get (q : Queue τ α) (now : τ) (c d : Category) :
    (q.refill now c).buckets.get d =
      if d = c then (q.buckets.get d).refill now else q.buckets.get d := by
  split
  · next h => rw [h, refill, PerCategory.get_set_self]
  · next h => rw [refill, PerCategory.get_set_of_ne _ h]

/-- It makes no difference to a refill whether the bucket was refilled already. -/
theorem refill_get_refill (q : Queue τ α) (now : τ) (c d : Category) :
    ((q.refill now c).buckets.get d).refill now = (q.buckets.get d).refill now := by
  rw [refill_get]
  split
  · rw [Bucket.refill_refill]
  · rfl

variable [LE α]

def Releasable (q : Queue τ α) (now : τ) (c : Category) : Prop :=
  ∃ o rest, q.outgoing.get c = o :: rest ∧ (q.buckets.get c).Covers now o.bytes.length

theorem releasable_iff (h : q.outgoing.get c = o :: rest) :
    q.Releasable now c ↔ (q.buckets.get c).Covers now o.bytes.length := by
  constructor
  · rintro ⟨p, others, hp, hc⟩
    obtain ⟨rfl, -⟩ := List.cons.inj (h.symm.trans hp)
    exact hc
  · intro hc
    exact ⟨o, rest, h, hc⟩

theorem not_releasable_of_nil (h : q.outgoing.get c = []) : ¬ q.Releasable now c := by
  rintro ⟨o, rest, ho, -⟩
  cases h.symm.trans ho

theorem refill_releasable : (q.refill now c).Releasable now d ↔ q.Releasable now d := by
  have required : ∀ size, ((q.refill now c).buckets.get d).required size =
      (q.buckets.get d).required size := by
    intro size
    rw [← Bucket.required_refill _ now, refill_get_refill, Bucket.required_refill]
  simp only [Releasable, Bucket.Covers, refill_get_refill, required]
  rfl

variable [DecidableLE α] [Sub α] [Div α] [Min τ] [Max τ]

def serve (q : Queue τ α) (now : τ) (c : Category) (o : Outgoing) (rest : List Outgoing) :
    Queue τ α :=
  { q with
    outgoing := q.outgoing.set c rest
    buckets := q.buckets.set c { (q.buckets.get c).refill now with
      tokens := ((q.buckets.get c).refill now).tokens - Amount.ofNat o.bytes.length }
    turn := c.next }

theorem search_skip (h : q.outgoing.get c = []) :
    search now (c :: cs) best q = search now cs best q := by
  simp only [search, h]

theorem search_stop (h : q.outgoing.get c = o :: rest)
    (hc : (q.buckets.get c).Covers now o.bytes.length) :
    search now (c :: cs) best q = (.outgoing o, q.serve now c o rest) := by
  simp only [search, h, Bucket.consume_of_covers hc]
  rfl

theorem search_pass (h : q.outgoing.get c = o :: rest)
    (hc : ¬ (q.buckets.get c).Covers now o.bytes.length) :
    search now (c :: cs) best q =
      search now cs (some (best.elim (((q.buckets.get c).refill now).timeUntil o.bytes.length)
        (min · (((q.buckets.get c).refill now).timeUntil o.bytes.length)))) (q.refill now c) := by
  simp only [search, h, Bucket.consume_of_not_covers hc]
  rfl

theorem search_outgoing_iff (now : τ) (cs : List Category) (best : Option τ) (q : Queue τ α) :
    (∃ o, (search now cs best q).1 = .outgoing o) ↔ ∃ c ∈ cs, q.Releasable now c := by
  induction cs generalizing best q with
  | nil => cases best <;> simp [search]
  | cons c cs ih =>
    rw [List.exists_mem_cons_iff]
    cases h : q.outgoing.get c with
    | nil => simp only [search_skip h, ih, not_releasable_of_nil h, false_or]
    | cons o rest =>
      by_cases hc : (q.buckets.get c).Covers now o.bytes.length
      · simp only [search_stop h hc, (releasable_iff h).2 hc, true_or, iff_true]
        exact ⟨o, rfl⟩
      · simp only [search_pass h hc, ih, refill_releasable, mt (releasable_iff h).1 hc, false_or]

/-- Only where no packet waits, a search comes back without a time to wait for. -/
theorem search_idle_iff (now : τ) (cs : List Category) (best : Option τ) (q : Queue τ α) :
    (search now cs best q).1 = .idle ↔ best = none ∧ ∀ c ∈ cs, q.outgoing.get c = [] := by
  induction cs generalizing best q with
  | nil => cases best <;> simp [search]
  | cons c cs ih =>
    rw [List.forall_mem_cons]
    cases h : q.outgoing.get c with
    | nil => simp only [search_skip h, ih, true_and]
    | cons o rest =>
      simp only [reduceCtorEq, false_and, and_false, iff_false]
      by_cases hc : (q.buckets.get c).Covers now o.bytes.length
      · rw [search_stop h hc]
        intro hidle
        cases hidle
      · rw [search_pass h hc, ih]
        rintro ⟨hbest, -⟩
        cases hbest

/-- A search that finds a packet takes the first one of the first category that has one to
release. The categories behind it, and those in which nothing waits, keep their buckets. -/
theorem search_found (h : (search now cs best q).1 = .outgoing o) :
    ∃ passed c left rest, cs = passed ++ c :: left ∧ (∀ d ∈ passed, ¬ q.Releasable now d) ∧
      q.outgoing.get c = o :: rest ∧ (q.buckets.get c).Covers now o.bytes.length ∧
      (search now cs best q).2.turn = c.next ∧
      (search now cs best q).2.outgoing = q.outgoing.set c rest := by
  induction cs generalizing best q with
  | nil => cases best <;> cases h
  | cons d cs ih =>
    cases hd : q.outgoing.get d with
    | nil =>
      rw [search_skip hd] at h ⊢
      obtain ⟨passed, c, left, rest, rfl, hpassed, found⟩ := ih h
      exact ⟨d :: passed, c, left, rest, rfl,
        List.forall_mem_cons.2 ⟨not_releasable_of_nil hd, hpassed⟩, found⟩
    | cons p others =>
      by_cases hc : (q.buckets.get d).Covers now p.bytes.length
      · rw [search_stop hd hc] at h ⊢
        obtain rfl := Dequeued.outgoing.inj h
        exact ⟨[], d, cs, others, rfl, List.forall_mem_nil _, hd, hc, rfl, rfl⟩
      · rw [search_pass hd hc] at h ⊢
        obtain ⟨passed, c, left, rest, rfl, hpassed, hget, hcovers, found⟩ := ih h
        refine ⟨d :: passed, c, left, rest, rfl, List.forall_mem_cons.2 ⟨?_, ?_⟩, hget, ?_, found⟩
        · exact mt (releasable_iff hd).1 hc
        · intro e he
          exact mt refill_releasable.2 (hpassed e he)
        · have ready : (q.refill now d).Releasable now c := ⟨o, rest, hget, hcovers⟩
          exact (releasable_iff (q := q) hget).1 (refill_releasable.1 ready)

/-- A search leaves the bucket of a category or refills it, unless it found a packet there, which is
then paid. -/
theorem search_bucket (now : τ) (cs : List Category) (best : Option τ) (q : Queue τ α)
    (c : Category) :
    (∃ o rest paid, (search now cs best q).1 = .outgoing o ∧ q.outgoing.get c = o :: rest ∧
        ((q.buckets.get c).refill now).consume? o.bytes.length = some paid ∧
        (search now cs best q).2.buckets.get c = paid) ∨
      (∀ o, (search now cs best q).1 = .outgoing o →
        ∃ d rest, d ≠ c ∧ q.outgoing.get d = o :: rest) ∧
      ((search now cs best q).2.buckets.get c = q.buckets.get c ∨
        (search now cs best q).2.buckets.get c = (q.buckets.get c).refill now) := by
  induction cs generalizing best q with
  | nil =>
    refine .inr ⟨fun o h => ?_, .inl ?_⟩ <;> cases best <;> first | cases h | rfl
  | cons d cs ih =>
    cases hd : q.outgoing.get d with
    | nil =>
      rw [search_skip hd]
      exact ih best q
    | cons p rest =>
      by_cases hp : (q.buckets.get d).Covers now p.bytes.length
      · rw [search_stop hd hp]
        by_cases hc : d = c
        · subst hc
          exact .inl ⟨p, rest, _, rfl, hd, Bucket.consume_of_covers hp,
            PerCategory.get_set_self _ _ _⟩
        · refine .inr ⟨fun o h => ⟨d, rest, hc, ?_⟩, .inl ?_⟩
          · rw [hd, Dequeued.outgoing.inj h]
          · exact PerCategory.get_set_of_ne _ (Ne.symm hc) _
      · rw [search_pass hd hp]
        generalize some (best.elim _ _) = best
        -- The search goes on with the bucket of `d` refilled; refilling again changes nothing.
        have refilled := ih best (q.refill now d)
        rw [refill_get_refill, refill_get] at refilled
        by_cases hc : c = d
        · simp only [if_pos hc, or_self] at refilled
          exact refilled.imp_right (And.imp_right Or.inr)
        · rw [if_neg hc] at refilled
          exact refilled

/-- A search that finds no packet leaves the buckets refilled where packets wait. -/
theorem search_refills (h : ∀ o, (search now cs best q).1 ≠ .outgoing o) (hc : c ∈ cs)
    (hget : q.outgoing.get c = o :: rest) :
    (search now cs best q).2.buckets.get c = (q.buckets.get c).refill now := by
  induction cs generalizing best q with
  | nil => cases hc
  | cons d cs ih =>
    cases hd : q.outgoing.get d with
    | nil =>
      have hne : c ≠ d := by
        rintro rfl
        cases hget.symm.trans hd
      rw [search_skip hd] at h ⊢
      exact ih h ((List.mem_cons.1 hc).resolve_left hne) hget
    | cons p others =>
      by_cases hp : (q.buckets.get d).Covers now p.bytes.length
      · rw [search_stop hd hp] at h
        exact absurd rfl (h p)
      · rw [search_pass hd hp] at h ⊢
        rcases List.mem_cons.1 hc with rfl | hlater
        · rcases search_bucket now cs _ (q.refill now c) c with ⟨o, -, -, hfound, -⟩ | ⟨-, hu | hu⟩
          · exact absurd hfound (h o)
          · rw [hu, refill_get, if_pos rfl]
          · rw [hu, refill_get_refill]
        · rw [ih h hlater hget, refill_get_refill]

variable [Max α]

/-- All that an operation can do to a bucket. -/
theorem perform_bucket (q : Queue τ α) (op : Op τ) (c : Category) :
    (q.perform op).buckets.get c = q.buckets.get c ∨
      (∃ now, (q.perform op).buckets.get c = (q.buckets.get c).refill now) ∨
      (∃ now size, ((q.buckets.get c).refill now).consume? size =
        some ((q.perform op).buckets.get c)) ∨
      ∃ rate now, (q.perform op).buckets.get c = (q.buckets.get c).withRate rate now := by
  have released : ∀ now, (q.release now).2.buckets.get c = q.buckets.get c ∨
      (∃ now', (q.release now).2.buckets.get c = (q.buckets.get c).refill now') ∨
      ∃ now' size, ((q.buckets.get c).refill now').consume? size =
        some ((q.release now).2.buckets.get c) := by
    intro now
    rcases search_bucket now q.turn.roundFrom none q c with
      ⟨o, rest, paid, -, -, hp, hu⟩ | ⟨-, hu | hu⟩
    · exact .inr (.inr ⟨now, o.bytes.length, hp.trans (congrArg some hu.symm)⟩)
    · exact .inl hu
    · exact .inr (.inl ⟨now, hu⟩)
  cases op with
  | release now => exact (released now).imp_right (Or.imp_right .inl)
  | look now =>
    rw [perform]
    rcases q.look_cases now with ⟨-, h⟩ | ⟨-, ⟨p, rest, -, h⟩ | ⟨-, h⟩⟩ <;> rw [h]
    · exact .inl rfl
    · exact .inl rfl
    · exact (released now).imp_right (Or.imp_right .inl)
  | withRates rates now => exact .inr (.inr (.inr ⟨rates.get c, now, q.withRates_get rates now c⟩))
  | close => exact .inl (congrArg (·.get c) q.close_buckets)
  | _ => exact .inl rfl

end Queue
end ViewerCircuit
