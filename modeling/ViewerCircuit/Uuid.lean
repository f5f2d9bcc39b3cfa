import ViewerCircuit.Wire.Codec

/-!
# Identifiers

Agents, sessions and everything that a viewer can name carry a 128-bit identifier, written with
its highest byte first.
-/
namespace ViewerCircuit

structure Uuid where
  value : BitVec 128
  deriving DecidableEq, Repr

namespace Uuid

def zero : Uuid := ⟨0⟩

instance : Inhabited Uuid := ⟨zero⟩

def ofNat (n : Nat) : Uuid := ⟨BitVec.ofNat 128 n⟩

def toNat (id : Uuid) : Nat := id.value.toNat

def codec : Codec Uuid := Codec.big 16 toNat ofNat

def hexDigits (count n : Nat) : List Char :=
  ((List.range count).map fun i => Nat.digitChar (n >>> (4 * i) % 16)).reverse

def hyphenated (id : Uuid) : String :=
  let digits := hexDigits 32 id.toNat
  let group (start length : Nat) := String.ofList ((digits.drop start).take length)
  "-".intercalate [group 0 8, group 8 4, group 12 4, group 16 4, group 20 12]

end Uuid
end ViewerCircuit
