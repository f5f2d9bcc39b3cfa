import ViewerCircuit.Proofs.Budgets
import ViewerCircuit.Proofs.QueueDelivery

/-!
# Taking turns

A category whose bucket covers the packet that waits first there is never starved by the others.
Each release that serves another category brings the turn nearer to it, and meanwhile its budget is
not lost, so the packet is among the next eight that leave. This is about the doubles that the
program computes with.
-/
namespace ViewerCircuit

namespace Category

/-- How many categories come before `c` in the round that starts with `turn`. -/
def distance (turn c : Category) : Nat := (c.index - turn.index).val

theorem distance_lt (turn c : Category) : turn.distance c < count := (c.index - turn.index).isLt

theorem roundFrom_sorted (turn : Category) :
    turn.roundFrom.Pairwise fun d c => turn.distance d < turn.distance c := by
  cases turn <;> decide

/-- A category that was not served is nearer in the next round. -/
theorem distance_next {turn d c : Category} (h : turn.distance d < turn.distance c) :
    d.next.distance c < turn.distance c := by
  have circle : ∀ t d c : Fin 8, (d - t).val < (c - t).val →
      (c - (d + 1)).val < (c - t).val := by decide
  rw [distance, next, index_ofIndex]
  exact circle _ _ _ h

end Category

namespace Queue

section

variable {τ α : Type} [Add α] [Sub α] [Mul α] [Div α] [LE α] [DecidableLE α] [Min α] [Amount α]
  [Preorder τ] [DecidableLE τ] [Sub τ] [Min τ] [Max τ] [Clock τ α]
  {q : Queue τ α} {now : τ} {c : Category}

/-- Where `c` can release a packet, some category releases one: `c` itself or one before it. -/
theorem release_turn (h : q.Releasable now c) :
    ∃ d o rest, (q.release now).1 = .outgoing o ∧ q.outgoing.get d = o :: rest ∧
      (q.release now).2.outgoing = q.outgoing.set d rest ∧ (q.release now).2.turn = d.next ∧
      (d = c ∨ q.turn.distance d < q.turn.distance c) := by
  obtain ⟨o, hfound⟩ := (search_outgoing_iff now q.turn.roundFrom none q).2
    ⟨c, Category.mem_roundFrom q.turn c, h⟩
  obtain ⟨passed, d, left, rest, hround, hpassed, hget, -, hturn, hout⟩ := search_found hfound
  refine ⟨d, o, rest, hfound, hget, hout, hturn, ?_⟩
  have sorted := Category.roundFrom_sorted q.turn
  have hc := Category.mem_roundFrom q.turn c
  rw [hround] at sorted hc
  rcases List.mem_append.1 hc with hbefore | hafter
  · exact absurd h (hpassed c hbefore)
  · rcases List.mem_cons.1 hafter with heq | hlater
    · exact .inl heq.symm
    · exact .inr ((List.pairwise_cons.1 (List.pairwise_append.1 sorted).2.1).1 c hlater)

end

structure Due (q : Queue Nat Float) (c : Category) (o : Outgoing) (now : Nat) : Prop where
  first : ∃ rest, q.outgoing.get c = o :: rest
  affords : (q.buckets.get c).Affords now o.bytes.length

namespace Due

variable {q : Queue Nat Float} {c : Category} {o : Outgoing} {s t : Nat}

theorem releasable (h : q.Due c o s) (hs : s ≤ t) : q.Releasable t c := by
  obtain ⟨rest, hget⟩ := h.first
  exact ⟨o, rest, hget, (h.affords.later hs).covers⟩

theorem enqueue (h : q.Due c o s) (p : Outgoing) : (q.enqueue p).Due c o s := by
  obtain ⟨rest, hget⟩ := h.first
  refine ⟨?_, h.affords⟩
  by_cases hc : c = p.category
  · subst hc
    exact ⟨rest ++ [p], by simp [Queue.enqueue, hget]⟩
  · exact ⟨rest, by simp [Queue.enqueue, PerCategory.get_set_of_ne _ hc, hget]⟩

theorem withRates (h : q.Due c o s) (hs : s ≤ t) (rates : Rates) :
    (q.withRates rates t).Due c o t := by
  refine ⟨h.first, ?_⟩
  rw [withRates_get]
  exact h.affords.withRate hs (rates.get c)

/-- A release serves `c`, or another category and then it leaves the packet due and nearer. -/
theorem release (h : q.Due c o s) (hq : q.Sorted) (hs : s ≤ t) :
    ∃ p, (q.release t).1 = .outgoing p ∧ (p = o ∧ o.category = c ∨
      p.category ≠ c ∧ (q.release t).2.Due c o t ∧
        (q.release t).2.turn.distance c < q.turn.distance c) := by
  obtain ⟨d, p, rest, hfound, hget, hout, hturn, hd⟩ := release_turn (h.releasable hs)
  obtain ⟨others, hfirst⟩ := h.first
  have hcategory : p.category = d := hq d p (hget ▸ List.mem_cons_self)
  refine ⟨p, hfound, ?_⟩
  by_cases hc : d = c
  · subst hc
    obtain ⟨rfl, -⟩ := List.cons.inj (hget.symm.trans hfirst)
    exact .inl ⟨rfl, hcategory⟩
  · refine .inr ⟨hcategory ▸ hc, ⟨⟨others, ?_⟩, ?_⟩, ?_⟩
    · rw [hout, PerCategory.get_set_of_ne _ (Ne.symm hc), hfirst]
    · rcases search_bucket t q.turn.roundFrom none q c with
        ⟨o', rest', paid, hfound', hget', -⟩ | ⟨-, hu | hu⟩
      · -- The packet that was found would be one of `c`.
        obtain rfl := Dequeued.outgoing.inj (hfound.symm.trans hfound')
        exact absurd ((hq c p (hget' ▸ List.mem_cons_self)).symm.trans hcategory).symm hc
      · rw [Queue.release, hu]
        exact h.affords.later hs
      · rw [Queue.release, hu]
        exact h.affords.refill hs
    · rw [hturn]
      exact Category.distance_next (hd.resolve_left hc)

end Due

namespace Op

/-- What can be done to the outbound side of a queue that stays open. -/
def Outbound {τ : Type} : Op τ → Prop
  | enqueue _ => True
  | release _ => True
  | withRates _ _ => True
  | _ => False

end Op

def Follows (s : Nat) (ops : List (Op Nat)) : Prop :=
  (s :: ops.filterMap Op.time?).Pairwise (· ≤ ·)

theorem Follows.cons {s : Nat} {op : Op Nat} {ops : List (Op Nat)} (h : Follows s (op :: ops)) :
    s ≤ op.time?.getD s ∧ Follows (op.time?.getD s) ops := by
  cases ht : op.time? with
  | none =>
    rw [Follows, List.filterMap_cons_none ht] at h
    exact ⟨le_rfl, h⟩
  | some t =>
    rw [Follows, List.filterMap_cons_some ht] at h
    obtain ⟨hs, hrest⟩ := List.pairwise_cons.1 h
    exact ⟨hs t List.mem_cons_self, hrest⟩

theorem Follows.early {s : Nat} {early late : List (Op Nat)} (h : Follows s (early ++ late)) :
    Follows s early := by
  rw [Follows, List.filterMap_append, ← List.cons_append] at h
  exact (List.pairwise_append.1 h).1

namespace Due

variable {q : Queue Nat Float} {c : Category} {o : Outgoing} {s : Nat} {op : Op Nat}
  {ops : List (Op Nat)}

/-- An operation serves the packet, or leaves it due and the turn nearer by what it releases. -/
theorem step (h : q.Due c o s) (hq : q.Sorted) (hop : op.Outbound) (hs : s ≤ op.time?.getD s) :
    q.outboundBy op = [o] ∧ o.category = c ∨
      (∀ p ∈ q.outboundBy op, p.category ≠ c) ∧ (q.perform op).Due c o (op.time?.getD s) ∧
        (q.outboundBy op).length + (q.perform op).turn.distance c ≤ q.turn.distance c := by
  cases op with
  | enqueue p =>
    refine .inr ⟨?_, h.enqueue p, (Nat.zero_add _).le⟩
    intro p' hp'
    cases hp'
  | withRates rates t =>
    refine .inr ⟨?_, h.withRates hs rates, (Nat.zero_add _).le⟩
    intro p hp
    cases hp
  | release t =>
    obtain ⟨p, hfound, hserved⟩ := h.release (t := t) hq hs
    have out : q.outboundBy (.release t) = [p] := by
      simp [outboundBy, released?, hfound, Dequeued.outgoing?]
    rw [out]
    rcases hserved with ⟨rfl, hcategory⟩ | ⟨hother, hdue, hnearer⟩
    · exact .inl ⟨rfl, hcategory⟩
    · refine .inr ⟨?_, hdue, ?_⟩
      · intro p' hp'
        rw [List.mem_singleton.1 hp']
        exact hother
      · rw [List.length_singleton, Nat.add_comm]
        exact hnearer
  | _ => cases hop

/-- While no packet of its category has left, the packet stays due. -/
theorem after (h : q.Due c o s) (hq : q.Sorted) (hops : ∀ op ∈ ops, op.Outbound)
    (hfollows : Follows s ops) (hnone : ∀ p ∈ q.outbound ops, p.category ≠ c) :
    ∃ t, (q.after ops).Due c o t ∧ ∀ later, Follows s (ops ++ later) → Follows t later := by
  induction ops generalizing q s with
  | nil => exact ⟨s, h, fun later hlater => hlater⟩
  | cons op ops ih =>
    obtain ⟨hs, hrest⟩ := hfollows.cons
    rw [outbound, List.forall_mem_append] at hnone
    rcases h.step hq (hops op List.mem_cons_self) hs with ⟨hserved, hcategory⟩ | ⟨-, hdue, -⟩
    · rw [hserved] at hnone
      exact absurd hcategory (hnone.1 o List.mem_cons_self)
    · obtain ⟨t, ht, hlater⟩ := ih hdue (hq.perform op)
        (fun op' hop' => hops op' (List.mem_cons_of_mem op hop')) hrest hnone.2
      exact ⟨t, ht, fun later hfollows => hlater later hfollows.cons.2⟩

/-- Of the packets released, it is the first one of its category, behind at most one packet of each
category that comes before in the round. -/
theorem soon (h : q.Due c o s) (hq : q.Sorted) (hops : ∀ op ∈ ops, op.Outbound)
    (hfollows : Follows s ops) :
    (∀ p ∈ q.outbound ops, p.category ≠ c) ∧ (q.outbound ops).length ≤ q.turn.distance c ∨
      ((q.outbound ops).take (q.turn.distance c + 1)).find? (·.category = c) = some o := by
  induction ops generalizing q s with
  | nil =>
    refine .inl ⟨?_, Nat.zero_le _⟩
    intro p hp
    cases hp
  | cons op ops ih =>
    obtain ⟨hs, hrest⟩ := hfollows.cons
    rw [outbound]
    rcases h.step hq (hops op List.mem_cons_self) hs with
      ⟨hserved, hcategory⟩ | ⟨hothers, hdue, hnearer⟩
    · rw [hserved]
      exact .inr (by simp [hcategory])
    · rcases ih hdue (hq.perform op) (fun op' hop' => hops op' (List.mem_cons_of_mem op hop'))
        hrest with ⟨hnone, hlength⟩ | hfound
      · refine .inl ⟨List.forall_mem_append.2 ⟨hothers, hnone⟩, ?_⟩
        rw [List.length_append]
        omega
      · have skipped : (q.outboundBy op).find? (·.category = c) = none := by
          simpa using hothers
        have reached : (((q.perform op).outbound ops).take ((q.perform op).turn.distance c + 1)) <+:
            ((q.perform op).outbound ops).take (q.turn.distance c + 1 - (q.outboundBy op).length) :=
          List.take_prefix_take_left (by omega)
        rw [List.take_append, List.take_of_length_le (by omega), List.find?_append, skipped]
        exact .inr (reached.find?_eq_some hfound)

end Due

/-- What is promised for the packet `o`, which waits first in `c`, over a run. Until it has left,
every release finds a packet, and less than eight leave before it, none of its own category. -/
structure Serves (q : Queue Nat Float) (c : Category) (o : Outgoing) (run : List (Op Nat)) :
    Prop where
  succeeds : ∀ {early late now}, run = early ++ .release now :: late →
    (∀ p ∈ q.outbound early, p.category ≠ c) → ∃ p, ((q.after early).release now).1 = .outgoing p
  soon : (∀ p ∈ q.outbound run, p.category ≠ c) ∧ (q.outbound run).length < Category.count ∨
    ((q.outbound run).take Category.count).find? (·.category = c) = some o

theorem Due.serves {q : Queue Nat Float} {c : Category} {o : Outgoing} {s : Nat}
    {ops : List (Op Nat)} (h : q.Due c o s) (hq : q.Sorted) (hops : ∀ op ∈ ops, op.Outbound)
    (hfollows : Follows s ops) : q.Serves c o ops := by
  have before := q.turn.distance_lt c
  constructor
  · rintro early late now rfl hnone
    obtain ⟨t, hdue, hlater⟩ := h.after hq
      (fun op hop => hops op (List.mem_append_left _ hop)) (hfollows.early) hnone
    obtain ⟨d, p, rest, hfound, -⟩ := release_turn (hdue.releasable (hlater _ hfollows).cons.1)
    exact ⟨p, hfound⟩
  · rcases h.soon hq hops hfollows with ⟨hnone, hlength⟩ | hfound
    · exact .inl ⟨hnone, hlength.trans_lt before⟩
    · exact .inr ((List.take_prefix_take_left before).find?_eq_some hfound)

theorem holds_perform {q : Queue Nat Float} {c : Category} {size : Nat}
    (h : (q.buckets.get c).Holds size) (op : Op Nat) :
    ((q.perform op).buckets.get c).Holds size := by
  rcases perform_bucket q op c with hop | ⟨now, hop⟩ | ⟨now, bytes, hop⟩ | ⟨rate, now, hop⟩
  · rw [hop]
    exact h
  · rw [hop]
    exact h.refill now
  · exact (h.refill now).consume hop
  · rw [hop]
    exact h.withRate rate now

/-- Packets up to the minimum capacity fit into the buckets, whatever is done to the queue. -/
theorem holds_after {q : Queue Nat Float} {c : Category} {size : Nat}
    (h : (q.buckets.get c).Holds size) (ops : List (Op Nat)) :
    ((q.after ops).buckets.get c).Holds size := by
  induction ops generalizing q with
  | nil => exact h
  | cons op ops ih => exact ih (holds_perform h op)

theorem new_holds (rates : Rates) {burst minCapacity size : Nat} (since : Nat)
    (hburst : burst < 2 ^ 64 * Time.second) (hsize : size ≤ minCapacity) (c : Category) :
    ((new rates burst minCapacity since : Queue Nat Float).buckets.get c).Holds size := by
  rw [new_get]
  exact ⟨hsize, hburst, rfl⟩

/-- Once the budget covers the packet that waits first in its category, the packet leaves within the
next eight, whatever is enqueued and however the rates are changed meanwhile. -/
theorem new_serves (rates : Rates) {burst minCapacity : Nat} (since : Nat)
    (hburst : burst < 2 ^ 64 * Time.second) (before : List (Op Nat)) {c : Category} {o : Outgoing}
    {rest : List Outgoing} {now : Nat} {later : List (Op Nat)}
    (hfirst : ((new rates burst minCapacity since : Queue Nat Float).after before).outgoing.get c =
      o :: rest)
    (hsize : o.bytes.length ≤ minCapacity)
    (hbudget : Float.ofNat o.bytes.length ≤
      ((((new rates burst minCapacity since).after before).buckets.get c).refill now).tokens)
    (hops : ∀ op ∈ later, op.Outbound) (hfollows : Follows now later) :
    ((new rates burst minCapacity since : Queue Nat Float).after before).Serves c o
      (.release now :: later) := by
  have due : ((new rates burst minCapacity since : Queue Nat Float).after before).Due c o now :=
    ⟨⟨rest, hfirst⟩, holds_after (new_holds rates since hburst hsize c) before, hbudget⟩
  apply due.serves (new_sorted.after before)
  · exact List.forall_mem_cons.2 ⟨trivial, hops⟩
  · show (now :: now :: later.filterMap Op.time?).Pairwise (· ≤ ·)
    obtain ⟨hlater, -⟩ := List.pairwise_cons.1 hfollows
    exact List.pairwise_cons.2 ⟨List.forall_mem_cons.2 ⟨le_rfl, hlater⟩, hfollows⟩

def crowd : List (Op Nat) :=
  [.enqueue ⟨List.replicate 60 0, .startPingCheck, 1, .unreliable, .land⟩,
    .enqueue ⟨List.replicate 60 0, .startPingCheck, 2, .unreliable, .land⟩,
    .enqueue ⟨List.replicate 60 0, .startPingCheck, 3, .unreliable, .task⟩]

/-- The packet of the other category does not wait for the second one, also if the rates drop to
zero meanwhile. -/
theorem crowd_serves : ∃ o : Outgoing, o.sequence = 3 ∧
    ((new (.all 1000) Time.second 1500 0 : Queue Nat Float).after crowd).Serves .task o
      [.release Time.second, .withRates (.all 0) Time.second, .release Time.second] ∧
    ((new (.all 1000) Time.second 1500 0 : Queue Nat Float).after crowd).outbound
      [.release Time.second, .withRates (.all 0) Time.second, .release Time.second] =
        [⟨List.replicate 60 0, .startPingCheck, 1, .unreliable, .land⟩, o] := by
  refine ⟨⟨List.replicate 60 0, .startPingCheck, 3, .unreliable, .task⟩, rfl, ?_, ?_⟩
  · have first : ((new (.all 1000) Time.second 1500 0 : Queue Nat Float).after crowd).outgoing.get
        .task = [⟨List.replicate 60 0, .startPingCheck, 3, .unreliable, .task⟩] := rfl
    apply new_serves (.all 1000) 0 (by decide) crowd first
    · decide
    · decide +kernel
    · simp [Op.Outbound]
    · simp [Follows, Op.time?]
  · decide +kernel

end Queue
end ViewerCircuit
