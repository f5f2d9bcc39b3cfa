/-!
# Sequence numbers

Outbound packets are numbered from one up to a limit, and then from one again.
-/
namespace ViewerCircuit

structure Numbering where
  last : UInt32 := 0
  max : UInt32
  deriving DecidableEq, Repr

namespace Numbering

def successor (s : Numbering) : UInt32 := if s.max ≤ s.last then 1 else s.last + 1

def next (s : Numbering) : UInt32 × Numbering :=
  (s.successor, { s with last := s.successor })

def take : (count : Nat) → Numbering → List UInt32 × Numbering
  | 0, s => ([], s)
  | count + 1, s =>
    let (n, s) := s.next
    let (rest, s) := take count s
    (n :: rest, s)

end Numbering
end ViewerCircuit
