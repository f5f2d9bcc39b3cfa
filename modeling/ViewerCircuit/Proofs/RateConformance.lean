import Mathlib.Algebra.BigOperators.Group.List.Basic
import Mathlib.Algebra.Order.Ring.Rat
import Mathlib.Data.List.Induction
import Mathlib.Tactic.Linarith
import Mathlib.Tactic.Ring
import ViewerCircuit.Proofs.QueueDelivery
import ViewerCircuit.Proofs.QueueSearch

/-!
# Rate conformance

With exact fractions for bytes and seconds, a category never gets more through a queue than its rate
grants over time, a full bucket at the start of an interval and one packet larger than the bucket
apart. Buckets are refilled only when they are looked at, so the invariant is about the budget that
a bucket would have: together with what was released, it never exceeds what was granted.
-/
namespace ViewerCircuit

instance : Amount ℚ where
  ofNat n := n

instance : Clock ℚ ℚ where
  seconds t := t
  ofSeconds s := s
  millisecond := 1 / 1000

namespace Bucket

def budget (b : Bucket ℚ ℚ) (now : ℚ) : ℚ := (b.refill now).tokens

structure Sound (b : Bucket ℚ ℚ) (now : ℚ) : Prop where
  past : b.lastRefill ≤ now
  bounded : b.tokens ≤ b.capacity
  capacity_eq : b.capacity = capacityAt b.rate b.burst b.minCapacity

variable {b paid : Bucket ℚ ℚ} {s now : ℚ}

theorem budget_refill (b : Bucket ℚ ℚ) (now : ℚ) : (b.refill now).budget now = b.budget now := by
  rw [budget, refill_refill, budget]

theorem minCapacity_le_capacityAt (rate : UInt32) (burst : ℚ) (minCapacity : Nat) :
    (minCapacity : ℚ) ≤ capacityAt rate burst minCapacity := le_max_right _ _

theorem Sound.refill (h : b.Sound s) (hs : s ≤ now) : (b.refill now).Sound now := by
  by_cases hn : now ≤ b.lastRefill
  · rw [Bucket.refill, if_pos hn]
    exact ⟨h.past.trans hs, h.bounded, h.capacity_eq⟩
  · rw [Bucket.refill, if_neg hn]
    exact ⟨le_rfl, min_le_right _ _, h.capacity_eq⟩

/-- Also where nothing was credited yet, the budget is what accrued since the last refill. -/
theorem Sound.budget_eq (h : b.Sound s) (hs : s ≤ now) :
    b.budget now = min (b.tokens + (now - b.lastRefill) * b.rate.toNat) b.capacity := by
  by_cases hn : now ≤ b.lastRefill
  · have hlast : now - b.lastRefill = 0 := by linarith [h.past]
    rw [budget, Bucket.refill, if_pos hn, hlast, zero_mul, add_zero, min_eq_left h.bounded]
  · rw [budget, Bucket.refill, if_neg hn]
    rfl

theorem Sound.budget_le_capacity (h : b.Sound s) (hs : s ≤ now) : b.budget now ≤ b.capacity := by
  rw [h.budget_eq hs]
  exact min_le_right _ _

/-- In the course of time a budget grows by the rate at most. -/
theorem Sound.budget_later (h : b.Sound s) (hs : s ≤ now) :
    b.budget now ≤ b.budget s + b.rate.toNat * (now - s) := by
  have granted : 0 ≤ (b.rate.toNat : ℚ) * (now - s) :=
    mul_nonneg (Nat.cast_nonneg _) (by linarith)
  have split : (now - b.lastRefill) * (b.rate.toNat : ℚ) =
      (s - b.lastRefill) * b.rate.toNat + b.rate.toNat * (now - s) := by ring
  rw [h.budget_eq hs, h.budget_eq le_rfl]
  -- Either the bucket is not full at `s` and accrues, or it is full and stays so.
  rcases le_total (b.tokens + (s - b.lastRefill) * b.rate.toNat) b.capacity with hfull | hfull
  · rw [min_eq_left hfull]
    refine (min_le_left _ _).trans ?_
    linarith
  · rw [min_eq_right hfull]
    refine (min_le_right _ _).trans ?_
    linarith

theorem consume_spec {size : Nat} (h : b.consume? size = some paid) :
    min (size : ℚ) b.capacity ≤ b.tokens ∧ paid = { b with tokens := b.tokens - size } := by
  by_cases hr : b.required size ≤ b.tokens
  · rw [consume?, if_pos hr] at h
    exact ⟨hr, (Option.some.inj h).symm⟩
  · rw [consume?, if_neg hr] at h
    cases h

/-- A packet is paid from the budget, and its size or else a full bucket must be there. -/
theorem Sound.pay {size : Nat} (h : b.Sound s) (hs : s ≤ now)
    (hp : (b.refill now).consume? size = some paid) :
    paid.Sound now ∧ paid.budget now + size = b.budget now ∧
      min (size : ℚ) b.capacity ≤ b.budget now := by
  obtain ⟨hreq, rfl⟩ := consume_spec hp
  obtain ⟨-, hcap, -, -, hlast⟩ := b.refill_spec now
  have hr := h.refill hs
  have size_nonneg : (0 : ℚ) ≤ size := Nat.cast_nonneg _
  refine ⟨⟨hr.past, ?_, hr.capacity_eq⟩, ?_, hcap ▸ hreq⟩
  · have hb := hr.bounded
    dsimp only
    linarith
  · have kept : ({ b.refill now with tokens := (b.refill now).tokens - size } :
        Bucket ℚ ℚ).budget now = (b.refill now).tokens - size :=
      congrArg Bucket.tokens (if_pos hlast)
    rw [kept, budget]
    ring

/-- A new rate is in force from now on, and at most costs some of the budget. -/
theorem Sound.withRate (h : b.Sound s) (hs : s ≤ now) (rate : UInt32) :
    (b.withRate rate now).Sound now ∧ (b.withRate rate now).budget now ≤ b.budget now := by
  have hr := h.refill hs
  have hnew : (b.withRate rate now).Sound now := by
    refine ⟨hr.past, min_le_right _ _, ?_⟩
    obtain ⟨-, -, hburst, hmin, -⟩ := b.refill_spec now
    show capacityAt rate b.burst b.minCapacity =
      capacityAt rate (b.refill now).burst (b.refill now).minCapacity
    rw [hburst, hmin]
  refine ⟨hnew, ?_⟩
  have kept : (b.withRate rate now).budget now = (b.withRate rate now).tokens :=
    congrArg Bucket.tokens (if_pos (b.refill_spec now).2.2.2.2)
  rw [kept]
  exact min_le_left _ _

end Bucket

def volume (os : List Outgoing) : ℚ := (os.map fun o => (o.bytes.length : ℚ)).sum

@[simp] theorem volume_nil : volume [] = 0 := rfl

@[simp] theorem volume_cons (o : Outgoing) (os : List Outgoing) :
    volume (o :: os) = o.bytes.length + volume os := rfl

@[simp] theorem volume_append (os ps : List Outgoing) :
    volume (os ++ ps) = volume os + volume ps := by
  simp [volume]

namespace Queue

def Op.rateFor (c : Category) (rate : UInt32) : Op ℚ → UInt32
  | .withRates rates _ => rates.get c
  | _ => rate

def inForce (c : Category) (rate : UInt32) (ops : List (Op ℚ)) : UInt32 :=
  ops.foldl (Op.rateFor c) rate

theorem inForce_cons (c : Category) (rate : UInt32) (op : Op ℚ) (ops : List (Op ℚ)) :
    inForce c rate (op :: ops) = inForce c (op.rateFor c rate) ops := rfl

/-- The integral from `since` to `till` of the rate in force for `c`, over the
operations between. -/
def granted (c : Category) (rate : UInt32) (since : ℚ) : List (Op ℚ) → ℚ → ℚ
  | [], till => rate.toNat * (till - since)
  | .withRates rates now :: ops, till =>
    rate.toNat * (now - since) + granted c (rates.get c) now ops till
  | _ :: ops, till => granted c rate since ops till

def Elapses (ops : List (Op ℚ)) (since till : ℚ) : Prop :=
  (since :: (ops.filterMap Op.time? ++ [till])).Pairwise (· ≤ ·)

section

variable {ops : List (Op ℚ)} {op : Op ℚ} {s now till : ℚ}

theorem Elapses.le (h : Elapses ops s till) : s ≤ till :=
  List.rel_of_pairwise_cons h (List.mem_append_right _ (List.mem_singleton_self till))

theorem Elapses.untimed (ht : op.time? = none) (h : Elapses (op :: ops) s till) :
    Elapses ops s till := by
  rwa [Elapses, List.filterMap_cons_none ht] at h

theorem Elapses.timed (ht : op.time? = some now) (h : Elapses (op :: ops) s till) :
    s ≤ now ∧ Elapses ops now till := by
  rw [Elapses, List.filterMap_cons_some ht] at h
  obtain ⟨hs, hrest⟩ := List.pairwise_cons.1 h
  exact ⟨hs now List.mem_cons_self, hrest⟩

theorem granted_wait (c : Category) (rate : UInt32) (s now till : ℚ) (ops : List (Op ℚ)) :
    granted c rate s ops till = rate.toNat * (now - s) + granted c rate now ops till := by
  induction ops with
  | nil =>
    rw [granted, granted]
    ring
  | cons op ops ih =>
    cases op with
    | withRates rates at' =>
      rw [granted, granted]
      ring
    | _ => exact ih

theorem granted_timed (ht : op.time? = some now) (c : Category) (rate : UInt32) :
    granted c rate s (op :: ops) till =
      rate.toNat * (now - s) + granted c (op.rateFor c rate) now ops till := by
  cases op with
  | look | release =>
    obtain rfl := Option.some.inj ht
    exact granted_wait c rate s _ till ops
  | withRates =>
    obtain rfl := Option.some.inj ht
    rfl
  | _ => cases ht

theorem untimed_granted (ht : op.time? = none) (c : Category) (rate : UInt32) (s till : ℚ)
    (ops : List (Op ℚ)) :
    granted c rate s (op :: ops) till = granted c rate s ops till ∧ op.rateFor c rate = rate := by
  cases op with
  | look | release | withRates => cases ht
  | _ => exact ⟨rfl, rfl⟩

end

variable {q : Queue ℚ ℚ} {c : Category} {s now : ℚ} {op : Op ℚ}

def releasedBy (c : Category) (q : Queue ℚ ℚ) (op : Op ℚ) : List Outgoing :=
  (q.released? op).toList.filter (·.category = c)

def released (c : Category) : Queue ℚ ℚ → List (Op ℚ) → List Outgoing
  | _, [] => []
  | q, op :: ops => q.releasedBy c op ++ (q.perform op).released c ops

theorem released_append (q : Queue ℚ ℚ) (ops later : List (Op ℚ)) :
    q.released c (ops ++ later) = q.released c ops ++ (q.after ops).released c later := by
  induction ops generalizing q with
  | nil => rfl
  | cons op ops ih => rw [List.cons_append, released, released, ih, List.append_assoc, after_cons]

/-- What becomes of a bucket at the time `now` when `out` is released from it, and its rate is
`rate` from then on. -/
structure Charges (b u : Bucket ℚ ℚ) (now : ℚ) (rate : UInt32) (out : List Outgoing) : Prop where
  sound : u.Sound now
  rate : u.rate = rate
  burst : u.burst = b.burst
  minCapacity : u.minCapacity = b.minCapacity
  budget : u.budget now + volume out ≤ b.budget now
  affordable : ∀ o ∈ out, min (o.bytes.length : ℚ) b.capacity ≤ b.budget now

theorem Charges.nothing {b : Bucket ℚ ℚ} (hb : b.Sound s) (hs : s ≤ now) :
    Charges b b now b.rate [] where
  sound := ⟨hb.past.trans hs, hb.bounded, hb.capacity_eq⟩
  rate := rfl
  burst := rfl
  minCapacity := rfl
  budget := by simp
  affordable := by simp

theorem Charges.refill {b : Bucket ℚ ℚ} (hb : b.Sound s) (hs : s ≤ now) :
    Charges b (b.refill now) now b.rate [] := by
  obtain ⟨hrate, -, hburst, hmin, -⟩ := b.refill_spec now
  refine ⟨hb.refill hs, hrate, hburst, hmin, ?_, by simp⟩
  rw [b.budget_refill, volume_nil, add_zero]

theorem Charges.pay {b paid : Bucket ℚ ℚ} {o : Outgoing} (hb : b.Sound s) (hs : s ≤ now)
    (hp : (b.refill now).consume? o.bytes.length = some paid) :
    Charges b paid now b.rate [o] := by
  obtain ⟨hsound, hbudget, hafford⟩ := hb.pay hs hp
  obtain ⟨hrate, -, hburst, hmin, -⟩ := b.refill_spec now
  obtain ⟨-, rfl⟩ := Bucket.consume_spec hp
  refine ⟨hsound, hrate, hburst, hmin, ?_, ?_⟩
  · rw [volume_cons, volume_nil, add_zero, hbudget]
  · intro p hp
    rw [List.mem_singleton.1 hp]
    exact hafford

theorem Sorted.release_charges (hq : q.Sorted) (hb : (q.buckets.get c).Sound s) (hs : s ≤ now) :
    Charges (q.buckets.get c) ((q.release now).2.buckets.get c) now (q.buckets.get c).rate
      ((q.release now).1.outgoing?.toList.filter (·.category = c)) := by
  rcases search_bucket now q.turn.roundFrom none q c with
    ⟨o, rest, paid, hfound, hget, hp, hu⟩ | ⟨hother, hu⟩
  · have hcat : o.category = c := hq c o (hget ▸ List.mem_cons_self)
    have hout : (q.release now).1.outgoing?.toList.filter (·.category = c) = [o] := by
      rw [release, hfound]
      simp [Dequeued.outgoing?, hcat]
    rw [hout, release, hu]
    exact Charges.pay hb hs hp
  · have hout : (q.release now).1.outgoing?.toList.filter (·.category = c) = [] := by
      cases hfound : (q.release now).1 with
      | outgoing o =>
        obtain ⟨d, rest, hd, hget⟩ := hother o hfound
        have hcat : o.category = d := hq d o (hget ▸ List.mem_cons_self)
        simp [Dequeued.outgoing?, hcat, hd]
      | _ => rfl
    rw [hout, release]
    rcases hu with hu | hu
    · rw [hu]
      exact Charges.nothing hb hs
    · rw [hu]
      exact Charges.refill hb hs

theorem Sorted.perform_charges (hq : q.Sorted) (hb : (q.buckets.get c).Sound s)
    (ht : op.time? = some now) (hs : s ≤ now) :
    Charges (q.buckets.get c) ((q.perform op).buckets.get c) now
      (op.rateFor c (q.buckets.get c).rate) (q.releasedBy c op) := by
  cases op with
  | release =>
    obtain rfl := Option.some.inj ht
    exact hq.release_charges hb hs
  | look moment =>
    obtain rfl := Option.some.inj ht
    show Charges _ ((q.look moment).2.buckets.get c) _ _
      ((q.look moment).1.outgoing?.toList.filter (·.category = c))
    rcases q.look_cases moment with ⟨-, h⟩ | ⟨-, ⟨p, rest, -, h⟩ | ⟨-, h⟩⟩ <;> rw [h]
    · exact Charges.nothing hb hs
    · exact Charges.nothing hb hs
    · exact hq.release_charges hb hs
  | withRates rates moment =>
    obtain rfl := Option.some.inj ht
    obtain ⟨hsound, hbudget⟩ := hb.withRate hs (rates.get c)
    obtain ⟨-, -, hburst, hmin, -⟩ := (q.buckets.get c).refill_spec moment
    rw [Queue.perform, withRates_get]
    refine ⟨hsound, rfl, hburst, hmin, ?_, fun o ho => ?_⟩
    · exact (add_zero _).trans_le hbudget
    · cases ho
  | _ => cases ht

theorem perform_untimed (q : Queue ℚ ℚ) (c : Category) (ht : op.time? = none) :
    (q.perform op).buckets = q.buckets ∧ q.releasedBy c op = [] := by
  cases op with
  | look | release | withRates => cases ht
  | close => exact ⟨q.close_buckets, rfl⟩
  | _ => exact ⟨rfl, rfl⟩

/-- Over operations from `s` to `till`, the bucket of `c` stays sound, follows the rates set,
and the budget left and what was released come from the budget at the start and the rate
granted since. -/
structure Accounts (q : Queue ℚ ℚ) (c : Category) (ops : List (Op ℚ)) (s till : ℚ) : Prop where
  sound : ((q.after ops).buckets.get c).Sound till
  rate : ((q.after ops).buckets.get c).rate = inForce c (q.buckets.get c).rate ops
  burst : ((q.after ops).buckets.get c).burst = (q.buckets.get c).burst
  minCapacity : ((q.after ops).buckets.get c).minCapacity = (q.buckets.get c).minCapacity
  budget : ((q.after ops).buckets.get c).budget till + volume (q.released c ops) ≤
    (q.buckets.get c).budget s + granted c (q.buckets.get c).rate s ops till

theorem Sorted.accounts {ops : List (Op ℚ)} {till : ℚ} (hq : q.Sorted)
    (hb : (q.buckets.get c).Sound s) (helapses : Elapses ops s till) :
    q.Accounts c ops s till := by
  induction ops generalizing q s with
  | nil =>
    refine ⟨⟨hb.past.trans helapses.le, hb.bounded, hb.capacity_eq⟩, rfl, rfl, rfl, ?_⟩
    rw [released, volume_nil, add_zero, granted]
    exact hb.budget_later helapses.le
  | cons op ops ih =>
    cases ht : op.time? with
    | none =>
      obtain ⟨hbuckets, hnone⟩ := q.perform_untimed c ht
      obtain ⟨hgranted, hrate⟩ := untimed_granted ht c (q.buckets.get c).rate s till ops
      obtain ⟨sound, rate, burst, minCapacity, budget⟩ :=
        ih (hq.perform op) (hbuckets ▸ hb) (helapses.untimed ht)
      rw [hbuckets] at rate burst minCapacity budget
      refine ⟨sound, ?_, burst, minCapacity, ?_⟩
      · rw [inForce_cons, hrate]
        exact rate
      · rw [released, hnone, List.nil_append, hgranted]
        exact budget
    | some now =>
      -- Until `now` the budget grows at the old rate; then the operation charges it.
      obtain ⟨hs, hrest⟩ := helapses.timed ht
      have charged := hq.perform_charges hb ht hs
      obtain ⟨sound, rate, burst, minCapacity, budget⟩ :=
        ih (hq.perform op) charged.sound hrest
      rw [charged.rate] at rate budget
      refine ⟨sound, rate, burst.trans charged.burst, minCapacity.trans charged.minCapacity, ?_⟩
      have waited := hb.budget_later hs
      have paid := charged.budget
      rw [released, volume_append, granted_timed ht, after_cons]
      linarith

theorem released_snoc {ops : List (Op ℚ)} {o : Outgoing}
    (hrel : (q.after ops).released? op = some o) (hc : o.category = c) :
    q.released c (ops ++ [op]) = q.released c ops ++ [o] := by
  have hby : (q.after ops).releasedBy c op = [o] := by simp [releasedBy, hrel, hc]
  rw [released_append, released, released, hby, List.append_nil]

/-- All that was released up to a packet of `c`, this packet included. Only where the packet is
larger than the bucket does it cost more than there was. -/
theorem Sorted.released_le {ops : List (Op ℚ)} {o : Outgoing} (hq : q.Sorted)
    (hb : (q.buckets.get c).Sound s) (helapses : Elapses ops s now) (ht : op.time? = some now)
    (hrel : (q.after ops).released? op = some o) (hc : o.category = c) :
    volume (q.released c (ops ++ [op])) ≤
      (q.buckets.get c).budget s + granted c (q.buckets.get c).rate s ops now +
        max 0 ((o.bytes.length : ℚ) - ((q.after ops).buckets.get c).capacity) := by
  have before := hq.accounts hb helapses
  have charged := (hq.after ops).perform_charges before.sound ht le_rfl
  have hby : o ∈ (q.after ops).releasedBy c op := by simp [releasedBy, hrel, hc]
  have afford := charged.affordable o hby
  have budget := before.budget
  have excess : (o.bytes.length : ℚ) -
      min (o.bytes.length : ℚ) ((q.after ops).buckets.get c).capacity ≤
        max 0 ((o.bytes.length : ℚ) - ((q.after ops).buckets.get c).capacity) := by
    rcases le_total (o.bytes.length : ℚ) ((q.after ops).buckets.get c).capacity with h | h
    · rw [min_eq_left h, sub_self]
      exact le_max_left _ _
    · rw [min_eq_right h]
      exact le_max_right _ _
  rw [released_snoc hrel hc, volume_append, volume_cons, volume_nil, add_zero]
  linarith

theorem granted_append (c : Category) (rate : UInt32) (s now till : ℚ) (ops later : List (Op ℚ)) :
    granted c rate s (ops ++ later) till =
      granted c rate s ops now + granted c (inForce c rate ops) now later till := by
  induction ops generalizing rate s with
  | nil => exact granted_wait c rate s now till later
  | cons op ops ih =>
    cases ht : op.time? with
    | none =>
      obtain ⟨hall, hrate⟩ := untimed_granted ht c rate s till (ops ++ later)
      obtain ⟨hearly, -⟩ := untimed_granted ht c rate s now ops
      rw [List.cons_append, hall, hearly, inForce_cons, hrate]
      exact ih rate s
    | some moment =>
      rw [List.cons_append, granted_timed ht, granted_timed ht, ih, inForce_cons, add_assoc]

theorem granted_nonneg {ops : List (Op ℚ)} {till : ℚ} (c : Category) (rate : UInt32)
    (helapses : Elapses ops s till) : 0 ≤ granted c rate s ops till := by
  induction ops generalizing rate s with
  | nil => exact mul_nonneg (Nat.cast_nonneg _) (by linarith [helapses.le])
  | cons op ops ih =>
    cases ht : op.time? with
    | none =>
      rw [(untimed_granted ht c rate s till ops).1]
      exact ih rate (helapses.untimed ht)
    | some moment =>
      obtain ⟨hs, hrest⟩ := helapses.timed ht
      have waited : 0 ≤ (rate.toNat : ℚ) * (moment - s) :=
        mul_nonneg (Nat.cast_nonneg _) (by linarith)
      rw [granted_timed ht]
      linarith [ih (op.rateFor c rate) hrest]

theorem Elapses.before {ops later : List (Op ℚ)} {till : ℚ} (h : Elapses (ops ++ later) s till) :
    Elapses ops s till := by
  rw [Elapses, List.filterMap_append, List.append_assoc] at h
  exact h.sublist (List.Sublist.cons_cons s (List.Sublist.append_left (by simp) _))

theorem Elapses.upTo {ops later : List (Op ℚ)} {till : ℚ} (h : Elapses (ops ++ op :: later) s till)
    (ht : op.time? = some now) : Elapses ops s now ∧ now ≤ till := by
  rw [Elapses, List.filterMap_append, List.filterMap_cons_some ht, List.append_assoc] at h
  constructor
  · exact h.sublist (List.Sublist.cons_cons s (List.Sublist.append_left (by simp) _))
  · have hrest : (now :: (later.filterMap Op.time? ++ [till])).Pairwise (· ≤ ·) :=
      (List.pairwise_append.1 (List.pairwise_cons.1 h).2).2.1
    exact List.rel_of_pairwise_cons hrest (by simp)

/-- What is promised for `c` over the operations on a queue that was new at `since`. Up to a
release, not more leaves than the rate grants from the start on, and from any moment on, not more
than a full bucket and what the rate grants. Small packets never get more than the rate grants,
whatever the other categories do. -/
structure Conforms (q : Queue ℚ ℚ) (c : Category) (rate : UInt32) (burst : ℚ) (minCapacity : Nat)
    (since : ℚ) (ops : List (Op ℚ)) : Prop where
  bucket : ∀ {before later}, ops = before ++ later →
    ((q.after before).buckets.get c).rate = inForce c rate before ∧
      ((q.after before).buckets.get c).capacity =
        Bucket.capacityAt (inForce c rate before) burst minCapacity
  total : ∀ {before op later now o}, ops = before ++ op :: later → op.time? = some now →
    (q.after before).released? op = some o → o.category = c →
    volume (q.released c (before ++ [op])) ≤ granted c rate since before now +
      max 0 ((o.bytes.length : ℚ) - ((q.after before).buckets.get c).capacity)
  window : ∀ {early late op later s now o}, ops = early ++ (late ++ op :: later) →
    Elapses early since s → Elapses late s now → op.time? = some now →
    (q.after (early ++ late)).released? op = some o → o.category = c →
    volume ((q.after early).released c (late ++ [op])) ≤
      ((q.after early).buckets.get c).capacity + granted c (inForce c rate early) s late now +
        max 0 ((o.bytes.length : ℚ) - ((q.after (early ++ late)).buckets.get c).capacity)
  steady : (∀ o, .enqueue o ∈ ops → o.category = c → o.bytes.length ≤ minCapacity) →
    ∀ {before later now}, ops = before ++ later → Elapses before since now →
      volume (q.released c before) ≤ granted c rate since before now

section

variable {rates : Rates} {burst : ℚ} {minCapacity : Nat} {since : ℚ}

theorem new_sound (c : Category) :
    ((new rates burst minCapacity since : Queue ℚ ℚ).buckets.get c).Sound since := by
  rw [new_get]
  have floor := Bucket.minCapacity_le_capacityAt (rates.get c) burst minCapacity
  have empty : ((0 : Nat) : ℚ) ≤ Bucket.capacityAt (rates.get c) burst minCapacity :=
    (Nat.cast_le.2 (Nat.zero_le minCapacity)).trans floor
  exact ⟨le_rfl, empty, rfl⟩

theorem new_budget (c : Category) :
    ((new rates burst minCapacity since : Queue ℚ ℚ).buckets.get c).budget since = 0 := by
  rw [new_get]
  exact congrArg Bucket.tokens (if_pos le_rfl)

/-- If no packet of `c` is larger than the buckets always are, every release of one stays below what
was granted up to then, and so does the time until the next. -/
theorem new_steady {ops : List (Op ℚ)} {till : ℚ}
    (hsmall : ∀ o, .enqueue o ∈ ops → o.category = c → o.bytes.length ≤ minCapacity)
    (helapses : Elapses ops since till) :
    volume ((new rates burst minCapacity since : Queue ℚ ℚ).released c ops) ≤
      granted c (rates.get c) since ops till := by
  obtain ⟨q, hq⟩ : ∃ q : Queue ℚ ℚ, new rates burst minCapacity since = q := ⟨_, rfl⟩
  have sorted : q.Sorted := hq ▸ new_sorted
  have sound : (q.buckets.get c).Sound since := hq ▸ new_sound c
  have rate : (q.buckets.get c).rate = rates.get c := by rw [← hq, new_get]; rfl
  have budget : (q.buckets.get c).budget since = 0 := hq ▸ new_budget c
  have floor : (q.buckets.get c).minCapacity = minCapacity := by rw [← hq, new_get]; rfl
  rw [hq]
  -- From the end, as `released_le` bounds what was released where a packet of `c` leaves last.
  induction ops using List.reverseRecOn generalizing till with
  | nil => exact granted_nonneg c _ helapses
  | append_singleton ops op ih =>
    have hsmall' : ∀ o, .enqueue o ∈ ops → o.category = c → o.bytes.length ≤ minCapacity :=
      fun o ho => hsmall o (List.mem_append_left _ ho)
    cases ht : op.time? with
    | none =>
      have hnone := ((q.after ops).perform_untimed c ht).2
      have hlast := (untimed_granted ht c (inForce c (rates.get c) ops) till till []).1
      rw [released_append, released, released, hnone, List.append_nil, List.append_nil,
        granted_append c _ since till till ops, hlast, granted, sub_self, mul_zero, add_zero]
      exact ih hsmall' helapses.before
    | some now =>
      obtain ⟨hbefore, hnow⟩ := helapses.upTo ht
      have later : 0 ≤ granted c (inForce c (rates.get c) ops) now [op] till := by
        refine granted_nonneg c _ ?_
        rw [Elapses, List.filterMap_cons_some ht]
        simp [hnow]
      rw [granted_append c _ since now till ops]
      by_cases hby : (q.after ops).releasedBy c op = []
      · rw [released_append, released, released, hby, List.append_nil, List.append_nil]
        linarith [ih hsmall' hbefore]
      · obtain ⟨o, hrel, hc⟩ : ∃ o, (q.after ops).released? op = some o ∧ o.category = c := by
          obtain ⟨o, ho⟩ := List.exists_mem_of_ne_nil _ hby
          exact ⟨o, by simpa [releasedBy] using ho⟩
        obtain ⟨d, hwaiting⟩ := waiting_of_released hrel
        have henq : .enqueue o ∈ ops :=
          enqueued_of_waiting sorted (by rw [← hq]; exact PerCategory.get_all _ d) hwaiting
        have account := sorted.accounts (c := c) sound hbefore
        have fits : (o.bytes.length : ℚ) ≤ ((q.after ops).buckets.get c).capacity := by
          have hmin : (o.bytes.length : ℚ) ≤ minCapacity := Nat.cast_le.2 (hsmall' o henq hc)
          rw [account.sound.capacity_eq, account.minCapacity, floor]
          exact hmin.trans (Bucket.minCapacity_le_capacityAt _ _ _)
        have bound := sorted.released_le sound hbefore ht hrel hc
        rw [budget, rate, max_eq_left (sub_nonpos.2 fits)] at bound
        linarith

/-- Over every run of a new queue whose clock does not go back, every category keeps to its rate. -/
theorem new_conforms (rates : Rates) (burst : ℚ) (minCapacity : Nat) {since till : ℚ}
    (ops : List (Op ℚ)) (helapses : Elapses ops since till) (c : Category) :
    (new rates burst minCapacity since : Queue ℚ ℚ).Conforms c (rates.get c) burst minCapacity
      since ops := by
  obtain ⟨q, hq⟩ : ∃ q : Queue ℚ ℚ, new rates burst minCapacity since = q := ⟨_, rfl⟩
  have sorted : q.Sorted := hq ▸ new_sorted
  have sound : (q.buckets.get c).Sound since := hq ▸ new_sound c
  have bucket : q.buckets.get c = .new (rates.get c) burst minCapacity since :=
    hq ▸ new_get rates burst minCapacity since c
  have rate : (q.buckets.get c).rate = rates.get c := by rw [bucket]; rfl
  rw [hq]
  constructor
  · intro before later hops
    obtain ⟨hsound, hrate, hburst, hmin, -⟩ := sorted.accounts sound (hops ▸ helapses).before
    rw [hsound.capacity_eq, hburst, hmin, hrate, rate, bucket]
    exact ⟨rfl, rfl⟩
  · intro before op later now o hops ht hrel hc
    obtain ⟨hbefore, -⟩ := (hops ▸ helapses).upTo ht
    have bound := sorted.released_le sound hbefore ht hrel hc
    rwa [show (q.buckets.get c).budget since = 0 from hq ▸ new_budget c, rate, zero_add] at bound
  · intro early late op later s now o _ hearly hlate ht hrel hc
    obtain ⟨hsound, hrate, -⟩ := sorted.accounts sound hearly
    rw [after_append] at hrel
    have bound := (sorted.after early).released_le hsound hlate ht hrel hc
    rw [hrate, rate] at bound
    rw [after_append]
    linarith [hsound.budget_le_capacity le_rfl]
  · intro hsmall before later now hops hbefore
    rw [← hq]
    exact new_steady (fun o ho => hsmall o (hops ▸ List.mem_append_left _ ho)) hbefore

/-- A small packet leaves, the rate is doubled, and a packet larger than the bucket leaves as soon
as the bucket is full. -/
def speedUp : List (Op ℚ) :=
  [.enqueue ⟨List.replicate 30 0, .startPingCheck, 1, .unreliable, .task⟩,
    .enqueue ⟨List.replicate 150 0, .startPingCheck, 2, .unreliable, .task⟩,
    .release (1 / 3), .release (2 / 3), .withRates (.all 200) 1, .release (3 / 2)]

theorem speedUp_conforms : Elapses speedUp 0 2 ∧
    (new (.all 100) (1 / 2) 50 0 : Queue ℚ ℚ).Conforms .task 100 (1 / 2) 50 0 speedUp ∧
    volume ((new (.all 100) (1 / 2) 50 0 : Queue ℚ ℚ).released .task speedUp) = 180 ∧
    granted .task 100 0 speedUp (3 / 2) = 200 := by
  have elapses : Elapses speedUp 0 2 := by
    unfold Elapses
    decide +kernel
  refine ⟨elapses, ?_, ?_, ?_⟩
  · exact new_conforms (.all 100) (1 / 2) 50 speedUp elapses .task
  · decide +kernel
  · decide +kernel

end

end Queue
end ViewerCircuit
