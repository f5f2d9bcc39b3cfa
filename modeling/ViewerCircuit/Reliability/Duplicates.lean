import ViewerCircuit.Message.Kind
import ViewerCircuit.Table

/-!
# Duplicate tracking

Inbound sequence numbers are remembered for a window of time, so that a packet that was processed
already is recognised when it comes again.
-/
namespace ViewerCircuit

structure Duplicates where
  window : Nat
  entries : Table UInt32 (Nat × MessageKind) := []
  deriving DecidableEq, Repr

namespace Duplicates

def fresh (d : Duplicates) (now : Nat) (entry : Nat × MessageKind) : Bool :=
  now - entry.1 ≤ d.window

/-- Whether the number was recorded within the window; if not, it is recorded now. -/
def seen (d : Duplicates) (sequence : UInt32) (kind : MessageKind) (now : Nat) :
    Bool × Duplicates :=
  if (d.entries.get? sequence).any (d.fresh now) then (true, d)
  else (false, { d with entries := d.entries.put sequence (now, kind) })

def sweep (d : Duplicates) (now : Nat) : Nat × Duplicates :=
  let kept := d.entries.filter fun e => d.fresh now e.2
  (d.entries.length - kept.length, { d with entries := kept })

def length (d : Duplicates) : Nat := d.entries.length

def kindOf? (d : Duplicates) (sequence : UInt32) : Option MessageKind :=
  (d.entries.get? sequence).map (·.2)

end Duplicates
end ViewerCircuit
