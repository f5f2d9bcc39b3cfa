/-!
# Throttle categories

Outbound traffic is divided into eight categories with separate budgets.
-/
namespace ViewerCircuit

inductive Category where
  | resend
  | land
  | wind
  | cloud
  | task
  | texture
  | asset
  | unknown
  deriving DecidableEq, Repr

namespace Category

def all : List Category := [resend, land, wind, cloud, task, texture, asset, unknown]

def count : Nat := 8

def requestable : Nat := 7

def index : Category → Fin 8
  | resend => 0
  | land => 1
  | wind => 2
  | cloud => 3
  | task => 4
  | texture => 5
  | asset => 6
  | unknown => 7

def ofIndex (i : Fin 8) : Category :=
  match i with
  | 0 => resend
  | 1 => land
  | 2 => wind
  | 3 => cloud
  | 4 => task
  | 5 => texture
  | 6 => asset
  | 7 => unknown

def ofNat? (n : Nat) : Option Category := if h : n < 8 then some (ofIndex ⟨n, h⟩) else none

def name : Category → String
  | resend => "Resend"
  | land => "Land"
  | wind => "Wind"
  | cloud => "Cloud"
  | task => "Task"
  | texture => "Texture"
  | asset => "Asset"
  | unknown => "Unknown"

@[simp] theorem ofIndex_index (c : Category) : ofIndex c.index = c := by cases c <;> rfl

@[simp] theorem index_ofIndex (i : Fin 8) : (ofIndex i).index = i := by
  revert i; decide

theorem index_inj {a b : Category} : a.index = b.index ↔ a = b :=
  ⟨fun h => by simpa using congrArg ofIndex h, fun h => h ▸ rfl⟩

theorem mem_all (c : Category) : c ∈ all := by cases c <;> decide

def next (c : Category) : Category := ofIndex (c.index + 1)

def roundFrom (c : Category) : List Category :=
  (List.finRange 8).map fun i => ofIndex (c.index + i)

end Category

structure PerCategory (α : Type) where
  values : Vector α 8
  deriving DecidableEq, Repr

namespace PerCategory

variable {α β : Type}

def get (p : PerCategory α) (c : Category) : α := p.values[c.index]

def set (p : PerCategory α) (c : Category) (v : α) : PerCategory α := ⟨p.values.set c.index v⟩

def all (v : α) : PerCategory α := ⟨Vector.replicate 8 v⟩

def ofFn (f : Category → α) : PerCategory α := ⟨Vector.ofFn fun i => f (.ofIndex i)⟩

def toList (p : PerCategory α) : List α := Category.all.map p.get

@[simp] theorem get_all (v : α) (c : Category) : (all v).get c = v := by
  simp [all, get]

@[simp] theorem get_ofFn (f : Category → α) (c : Category) : (ofFn f).get c = f c := by
  simp [ofFn, get]

@[simp] theorem get_set_self (p : PerCategory α) (c : Category) (v : α) :
    (p.set c v).get c = v := by
  simp [set, get]

theorem get_set_of_ne (p : PerCategory α) {c d : Category} (h : d ≠ c) (v : α) :
    (p.set c v).get d = p.get d := by
  have hi : (c.index : Nat) ≠ d.index := fun e =>
    h (Category.index_inj.1 (Fin.ext e)).symm
  simp [set, get, Vector.getElem_set_ne, hi]

@[simp] theorem flatten_all_nil : (all ([] : List α)).toList.flatten = [] := by
  simp [toList, Category.all]

@[ext] theorem ext {p q : PerCategory α} (h : ∀ c, p.get c = q.get c) : p = q := by
  rcases p with ⟨p⟩
  rcases q with ⟨q⟩
  congr 1
  ext i hi
  simpa [get] using h (.ofIndex ⟨i, hi⟩)

end PerCategory
end ViewerCircuit
