import ViewerCircuit.Message.Kind
import ViewerCircuit.Table

/-!
# Handler registries

A registry has at most one handler for each kind of message: the one that was registered first.
-/
namespace ViewerCircuit

structure Registry (η : Type) where
  handlers : Table MessageKind η := []

namespace Registry

variable {η : Type}

def get? (r : Registry η) (kind : MessageKind) : Option η := r.handlers.get? kind

def contains (r : Registry η) (kind : MessageKind) : Bool := (r.get? kind).isSome

def length (r : Registry η) : Nat := r.handlers.length

/-- Adds a handler, unless there is one for the kind; then the answer is `false`. -/
def register (r : Registry η) (kind : MessageKind) (handler : η) : Bool × Registry η :=
  if r.contains kind then (false, r)
  else (true, { r with handlers := r.handlers.put kind handler })

end Registry
end ViewerCircuit
