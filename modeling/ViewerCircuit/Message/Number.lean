import ViewerCircuit.Wire.Codec

/-!
# Message numbers

A body starts with the number of its message. Frequent messages have short numbers: the longer
ones escape with bytes `0xFF`, so a number is read without knowing how long it is.
-/
namespace ViewerCircuit

/-- A message number takes one byte, `0xFF` and one, two times `0xFF` and two, or three times `0xFF`
and one. No datagram carries `invalid`, the number of an empty message. -/
inductive MessageNumber where
  | high (n : UInt8)
  | medium (n : UInt8)
  | low (n : UInt16)
  | fixed (n : UInt8)
  | invalid
  deriving DecidableEq, Repr, Inhabited

namespace MessageNumber

def wireLength : MessageNumber → Nat
  | high _ => 1
  | medium _ => 2
  | low _ => 4
  | fixed _ => 4
  | invalid => 1

def write : MessageNumber → Bytes
  | high n => [n]
  | medium n => [0xFF, n]
  | low n => [0xFF, 0xFF] ++ bigEndian 2 n.toNat
  | fixed n => [0xFF, 0xFF, 0xFF, n]
  | invalid => [0]

def readLong : Reader MessageNumber
  | a :: b :: rest =>
    if a = 0xFF then (.ok (fixed b), rest)
    else (.ok (low (UInt16.ofNat (ofBigEndian [a, b]))), rest)
  | _ => (.error .underflow, [])

def readEscaped : Reader MessageNumber
  | [] => (.error .underflow, [])
  | b :: rest => if b = 0xFF then readLong rest else (.ok (medium b), rest)

def read : Reader MessageNumber
  | [] => (.error .underflow, [])
  | b :: rest =>
    if b = 0 then (.error .messageNumberZero, rest)
    else if b = 0xFF then readEscaped rest
    else (.ok (high b), rest)

/-- The number can be written and read back. -/
def Canonical : MessageNumber → Prop
  | high n => n ≠ 0 ∧ n ≠ 0xFF
  | medium n => n ≠ 0xFF
  | low n => n.toNat / 256 ≠ 0xFF
  | fixed _ => True
  | invalid => False

theorem length_write (n : MessageNumber) : n.write.length = n.wireLength := by
  cases n <;> simp [write, wireLength]

end MessageNumber
end ViewerCircuit
