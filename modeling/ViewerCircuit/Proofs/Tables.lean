import Mathlib.Data.List.Nodup
import ViewerCircuit.Table

/-!
# Tables in proofs

A table whose keys are distinct is a finite map: an entry is found under its key, and what is put,
erased or changed is seen under its own key only.
-/
namespace ViewerCircuit

open scoped List

namespace Table

variable {κ α : Type} [DecidableEq κ] {t : Table κ α}

theorem get?_eq_none {key : κ} (h : key ∉ t.keys) : t.get? key = none := by
  induction t with
  | nil => rfl
  | cons e t ih =>
    simp only [keys, List.map_cons, List.mem_cons, not_or] at h
    rw [get?, if_neg (Ne.symm h.1)]
    exact ih h.2

theorem get?_put (key other : κ) (value : α) :
    (t.put key value).get? other = if other = key then some value else t.get? other := by
  split
  · next h => rw [h, get?_put_self]
  · next h => exact get?_put_of_ne h value t

theorem get?_erase (key other : κ) :
    (t.erase key).get? other = if other = key then none else t.get? other := by
  split
  · next h => rw [h, get?_erase_self]
  · next h => exact get?_erase_of_ne h t

theorem get?_filter (h : t.keys.Nodup) (keep : α → Bool) (key : κ) :
    get? key (t.filter fun e => keep e.2) = (t.get? key).filter keep := by
  induction t with
  | nil => rfl
  | cons e t ih =>
    obtain ⟨hnew, ht⟩ := List.nodup_cons.1 h
    by_cases hk : e.1 = key
    · have hrest : get? key t = none := get?_eq_none (by subst hk; exact hnew)
      by_cases hkeep : keep e.2 = true
      · simp [get?, hk, hkeep, Option.filter]
      · simp [get?, hk, hkeep, Option.filter, ih ht, hrest]
    · by_cases hkeep : keep e.2 = true
      · simp [get?, hk, hkeep, ih ht]
      · simp [get?, hk, hkeep, ih ht]

theorem mem_keys_put {key other : κ} {value : α} :
    other ∈ (t.put key value).keys ↔ other = key ∨ other ∈ t.keys := by
  induction t with
  | nil => simp [put, keys]
  | cons e t ih =>
    by_cases hk : e.1 = key
    · subst hk
      simp [put, keys]
    · have hput : put key value (e :: t) = e :: put key value t := by simp [put, hk]
      rw [hput]
      simp only [keys, List.map_cons, List.mem_cons] at ih ⊢
      rw [ih]
      exact or_left_comm

theorem nodup_keys_put (h : t.keys.Nodup) (key : κ) (value : α) : (t.put key value).keys.Nodup := by
  induction t with
  | nil => simp [put, keys]
  | cons e t ih =>
    obtain ⟨hnew, ht⟩ := List.nodup_cons.1 h
    by_cases hk : e.1 = key
    · subst hk
      simpa [put, keys] using h
    · have hput : put key value (e :: t) = e :: put key value t := by simp [put, hk]
      rw [hput]
      refine List.nodup_cons.2 ⟨?_, ih ht⟩
      intro hmem
      rcases mem_keys_put.1 hmem with he | he
      · exact hk he
      · exact hnew he

omit [DecidableEq κ] in
theorem nodup_keys_filter (h : t.keys.Nodup) (keep : κ × α → Bool) :
    (keys (t.filter keep)).Nodup :=
  (List.filter_sublist.map _).nodup h

theorem contains_of_mem {e : κ × α} (h : e ∈ t) : t.contains e.1 = true := by
  induction t with
  | nil => cases h
  | cons entry rest ih =>
    by_cases hk : entry.1 = e.1
    · simp [contains, get?, hk]
    · have hm : e ∈ rest := (List.mem_cons.1 h).resolve_left fun he => hk (he ▸ rfl)
      simpa [contains, get?, hk] using ih hm

theorem contains_iff {key : κ} : t.contains key = true ↔ ∃ value, t.get? key = some value := by
  rw [contains, Option.isSome_iff_exists]

theorem contains_eq_false {key : κ} : t.contains key = false ↔ t.get? key = none := by
  simp [contains]

theorem contains_iff_mem {key : κ} : t.contains key = true ↔ key ∈ t.keys := by
  constructor
  · intro h
    obtain ⟨value, hv⟩ := contains_iff.1 h
    exact List.mem_map_of_mem (mem_of_get? hv)
  · intro h
    obtain ⟨e, he, rfl⟩ := List.mem_map.1 h
    exact contains_of_mem he

theorem get?_of_mem (h : t.keys.Nodup) {key : κ} {value : α} (he : (key, value) ∈ t) :
    t.get? key = some value := by
  induction t with
  | nil => cases he
  | cons e t ih =>
    obtain ⟨hnew, ht⟩ := List.nodup_cons.1 h
    rcases List.mem_cons.1 he with rfl | he
    · simp [get?]
    · have hk : e.1 ≠ key := by
        rintro rfl
        exact hnew (List.mem_map.2 ⟨_, he, rfl⟩)
      rw [get?, if_neg hk]
      exact ih ht he

theorem put_of_not_contains {key : κ} (h : t.contains key = false) (value : α) :
    t.put key value = t ++ [(key, value)] := by
  induction t with
  | nil => rfl
  | cons e t ih =>
    have hk : e.1 ≠ key := by
      rintro rfl
      simp [contains, get?] at h
    rw [put, if_neg hk, ih (by simpa [contains, get?, hk] using h), List.cons_append]

theorem length_put_le (t : Table κ α) (key : κ) (value : α) :
    (t.put key value).length ≤ t.length + 1 := by
  induction t with
  | nil => exact Nat.le_refl _
  | cons e t ih =>
    rw [put]
    split
    · exact Nat.le_succ _
    · exact Nat.succ_le_succ ih

theorem get?_map (f : α → α) (key : κ) :
    get? key (t.map fun e => (e.1, f e.2)) = (t.get? key).map f := by
  induction t with
  | nil => rfl
  | cons e t ih => by_cases hk : e.1 = key <;> simp [get?, hk, ih]

theorem erase_of_not_mem {key : κ} (h : key ∉ t.keys) : t.erase key = t := by
  refine List.filter_eq_self.2 fun e he => decide_eq_true ?_
  rintro rfl
  exact h (List.mem_map_of_mem he)

/-- Where keys are distinct, erasing one takes out one entry. -/
theorem perm_erase (h : t.keys.Nodup) {key : κ} {value : α} (hg : t.get? key = some value) :
    t ~ (key, value) :: t.erase key := by
  induction t with
  | nil => cases hg
  | cons e t ih =>
    obtain ⟨hnew, ht⟩ := List.nodup_cons.1 h
    by_cases hk : e.1 = key
    · obtain rfl : e = (key, value) := Prod.ext hk (by simpa [get?, hk] using hg)
      have hrest : erase key ((key, value) :: t) = t := by
        rw [erase, List.filter_cons_of_neg (by simp)]
        exact erase_of_not_mem hnew
      rw [hrest]
    · have hrest : erase key (e :: t) = e :: erase key t :=
        List.filter_cons_of_pos (by simpa using hk)
      rw [hrest]
      exact ((ih ht (by simpa [get?, hk] using hg)).cons e).trans (.swap _ _ _)

end Table
end ViewerCircuit
