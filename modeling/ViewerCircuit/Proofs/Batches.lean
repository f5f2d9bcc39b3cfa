import Mathlib.Algebra.GroupWithZero.Nat
import Mathlib.Algebra.Order.BigOperators.Group.List
import Mathlib.Algebra.Order.Group.Nat
import Mathlib.Data.List.Chain
import ViewerCircuit.Outbound.Batch

/-!
# Greedy batches

A batch is closed only when the next entry that fits a batch at all would break one of its limits.
The entries that are not dropped stay in order.
-/
namespace ViewerCircuit

variable {α : Type} {budget used : Nat} {size : α → Nat} {batch entries : List α}

def totalSize (size : α → Nat) (batch : List α) : Nat := (batch.map size).sum

theorem totalSize_cons (size : α → Nat) (entry : α) (batch : List α) :
    totalSize size (entry :: batch) = size entry + totalSize size batch := rfl

theorem totalSize_append (size : α → Nat) (front rest : List α) :
    totalSize size (front ++ rest) = totalSize size front + totalSize size rest := by
  simp [totalSize]

theorem totalSize_reverse (size : α → Nat) (batch : List α) :
    totalSize size batch.reverse = totalSize size batch := by
  simp [totalSize, List.sum_reverse]

theorem size_le_totalSize {entry : α} (h : entry ∈ batch) :
    size entry ≤ totalSize size batch :=
  List.le_sum_of_mem (List.mem_map_of_mem h)

structure IsBatch (budget : Nat) (size : α → Nat) (batch : List α) : Prop where
  ne_nil : batch ≠ []
  length_le : batch.length ≤ entryLimit
  size_le : totalSize size batch ≤ budget

/-- The batch has no place for the first entry of the next one. -/
def FullBefore (budget : Nat) (size : α → Nat) (batch next : List α) : Prop :=
  ∀ entry ∈ next.head?,
    entryLimit < (batch ++ [entry]).length ∨ budget < totalSize size (batch ++ [entry])

/-- What a batch was begun with stays at its front. -/
theorem batchesAfter_begun (h : batch ≠ []) (used : Nat) (entries : List α) :
    ∃ rest others, batchesAfter budget size batch used entries =
      (batch.reverse ++ rest) :: others := by
  induction entries generalizing batch used with
  | nil => exact ⟨[], [], by simp [batchesAfter, h]⟩
  | cons entry entries ih =>
    rw [batchesAfter]
    split
    · exact ih h used
    split
    · exact ⟨[], _, by rw [List.append_nil]⟩
    · obtain ⟨rest, others, he⟩ := ih (List.cons_ne_nil entry batch) (used + size entry)
      exact ⟨entry :: rest, others, by rw [he]; simp⟩

theorem flatten_batchesAfter (used : Nat) (batch entries : List α) :
    (batchesAfter budget size batch used entries).flatten =
      batch.reverse ++ entries.filter (size · ≤ budget) := by
  induction entries generalizing batch used with
  | nil =>
    rw [batchesAfter]
    cases batch <;> simp
  | cons entry entries ih =>
    rw [batchesAfter]
    split
    · next hdrop =>
      rw [ih, List.filter_cons_of_neg (by simpa using hdrop)]
    · next hkeep =>
      rw [List.filter_cons_of_pos (by simpa using hkeep)]
      split <;> simp [ih]

/-- One batch is begun; the ones behind it are batches, each full before the next. -/
theorem batchesAfter_spread (hb : batch.length ≤ entryLimit) (hu : used = totalSize size batch)
    (hs : used ≤ budget) (entries : List α) :
    (∀ b ∈ batchesAfter budget size batch used entries, IsBatch budget size b) ∧
      (batchesAfter budget size batch used entries).IsChain (FullBefore budget size) := by
  induction entries generalizing batch used with
  | nil =>
    rw [batchesAfter]
    by_cases hnone : batch = []
    · simp [hnone]
    · have hbatch : IsBatch budget size batch.reverse := by
        refine ⟨by simpa using hnone, by simpa using hb, ?_⟩
        rw [totalSize_reverse, ← hu]
        exact hs
      simpa [hnone] using hbatch
  | cons entry entries ih =>
    rw [batchesAfter]
    split
    · exact ih hb hu hs
    next hkeep =>
    split
    · next hfull =>
      -- The entry at hand fits an empty batch, so the one that is closed for it is not empty.
      have hsome : batch ≠ [] := by
        rintro rfl
        rcases hfull with hfull | hfull
        · cases hfull
        · rw [hu] at hfull
          exact hkeep (by simpa [totalSize] using hfull)
      have hbatch : IsBatch budget size batch.reverse := by
        refine ⟨by simpa using hsome, by simpa using hb, ?_⟩
        rw [totalSize_reverse, ← hu]
        exact hs
      have hone : [entry].length ≤ entryLimit := by simp [entryLimit]
      have hused : size entry = totalSize size [entry] := rfl
      obtain ⟨others, hchain⟩ := ih hone hused (Nat.le_of_not_lt hkeep)
      refine ⟨List.forall_mem_cons.2 ⟨hbatch, others⟩, ?_⟩
      obtain ⟨rest, later, hbegun⟩ : ∃ rest later,
          batchesAfter budget size [entry] (size entry) entries = ([entry] ++ rest) :: later :=
        batchesAfter_begun (List.cons_ne_nil entry []) (size entry) entries
      rw [hbegun] at hchain ⊢
      refine List.isChain_cons_cons.2 ⟨?_, hchain⟩
      rintro first hfirst
      obtain rfl : entry = first := by simpa using hfirst
      rw [totalSize_append, totalSize_reverse, ← hu, List.length_append, List.length_reverse]
      simpa [totalSize, Nat.lt_succ_iff] using hfull.imp_left fun h => Nat.le_of_eq h.symm
    · next hroom =>
      obtain ⟨hlength, hsize⟩ := not_or.1 hroom
      refine ih ?_ ?_ (Nat.le_of_not_lt hsize)
      · exact Nat.lt_of_le_of_ne hb hlength
      · rw [totalSize_cons, hu, Nat.add_comm]

theorem flatten_batches (budget : Nat) (size : α → Nat) (entries : List α) :
    (batches budget size entries).flatten = entries.filter (size · ≤ budget) :=
  flatten_batchesAfter 0 [] entries

theorem batches_spread (budget : Nat) (size : α → Nat) (entries : List α) :
    (∀ b ∈ batches budget size entries, IsBatch budget size b) ∧
      (batches budget size entries).IsChain (FullBefore budget size) :=
  batchesAfter_spread (Nat.zero_le _) rfl (Nat.zero_le _) entries

end ViewerCircuit
