/-!
# Tables

Finite maps as lists of pairs. A table that is built from the empty one by `put` and `erase` has
each key at most once, in the order in which the keys came in.
-/
namespace ViewerCircuit

abbrev Table (κ α : Type) := List (κ × α)

namespace Table

variable {κ α : Type} [DecidableEq κ]

def get? (key : κ) : Table κ α → Option α
  | [] => none
  | (k, v) :: rest => if k = key then some v else get? key rest

def contains (key : κ) (t : Table κ α) : Bool := (get? key t).isSome

/-- Replaces the value of the key, or adds the key at the end. -/
def put (key : κ) (value : α) : Table κ α → Table κ α
  | [] => [(key, value)]
  | (k, v) :: rest => if k = key then (key, value) :: rest else (k, v) :: put key value rest

def erase (key : κ) (t : Table κ α) : Table κ α := t.filter (·.1 ≠ key)

def keys (t : Table κ α) : List κ := t.map (·.1)

@[simp] theorem get?_put_self (key : κ) (value : α) (t : Table κ α) :
    get? key (put key value t) = some value := by
  induction t with
  | nil => simp [put, get?]
  | cons entry rest ih => by_cases h : entry.1 = key <;> simp [put, get?, h, ih]

theorem get?_put_of_ne {key other : κ} (h : other ≠ key) (value : α) (t : Table κ α) :
    get? other (put key value t) = get? other t := by
  induction t with
  | nil => simp [put, get?, Ne.symm h]
  | cons entry rest ih =>
    by_cases hk : entry.1 = key
    · simp [put, get?, hk, Ne.symm h]
    · simp [put, get?, hk, ih]

@[simp] theorem get?_erase_self (key : κ) (t : Table κ α) : get? key (erase key t) = none := by
  induction t with
  | nil => rfl
  | cons entry rest ih =>
    by_cases h : entry.1 = key
    · simpa [erase, h] using ih
    · simpa [erase, h, get?] using ih

theorem get?_erase_of_ne {key other : κ} (h : other ≠ key) (t : Table κ α) :
    get? other (erase key t) = get? other t := by
  induction t with
  | nil => rfl
  | cons entry rest ih =>
    by_cases hk : entry.1 = key
    · have he : entry.1 ≠ other := fun e => h (e ▸ hk)
      simpa [erase, hk, get?, Ne.symm h] using ih
    · simpa [erase, hk, get?] using
        congrArg (fun o => if entry.1 = other then some entry.2 else o) ih

theorem mem_of_get? {key : κ} {value : α} {t : Table κ α} (h : get? key t = some value) :
    (key, value) ∈ t := by
  induction t with
  | nil => cases h
  | cons entry rest ih =>
    by_cases hk : entry.1 = key
    · obtain rfl : entry.2 = value := by simpa [get?, hk] using h
      exact List.mem_cons.2 (.inl (Prod.ext hk.symm rfl))
    · exact List.mem_cons_of_mem _ (ih (by simpa [get?, hk] using h))

theorem mem_of_mem_put {key : κ} {value : α} {t : Table κ α} {entry : κ × α}
    (h : entry ∈ put key value t) : entry ∈ t ∨ entry = (key, value) := by
  induction t with
  | nil => exact .inr (List.mem_singleton.1 h)
  | cons first rest ih =>
    by_cases hk : first.1 = key
    · rw [put, if_pos hk] at h
      rcases List.mem_cons.1 h with rfl | h
      · exact .inr rfl
      · exact .inl (List.mem_cons_of_mem _ h)
    · rw [put, if_neg hk] at h
      rcases List.mem_cons.1 h with rfl | h
      · exact .inl List.mem_cons_self
      · exact (ih h).imp_left (List.mem_cons_of_mem _)

end Table
end ViewerCircuit
