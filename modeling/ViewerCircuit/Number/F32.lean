/-!
# Single-precision numbers

A number on the wire is its bit pattern, so that reading and writing it change nothing, not even
the payload of a NaN. Arithmetic goes through `Float32` and rounds to nearest, ties to even. A
double has room for every single, so that nothing is rounded where one is converted.
-/
namespace ViewerCircuit

structure F32 where
  bits : UInt32
  deriving DecidableEq, Repr, Inhabited

namespace F32

def toFloat32 (x : F32) : Float32 := Float32.ofBits x.bits

def ofFloat32 (x : Float32) : F32 := ⟨x.toBits⟩

def zero : F32 := ⟨0⟩

def one : F32 := ⟨0x3F800000⟩

def isNaN (x : F32) : Bool := (x.bits &&& 0x7FFFFFFF) > 0x7F800000

def isFinite (x : F32) : Bool := (x.bits &&& 0x7F800000) != 0x7F800000

def isNegative (x : F32) : Bool := x.bits ≥ 0x80000000

def exponentField (x : F32) : Nat := x.bits.toNat / 0x800000 % 256

/-- The digits; the leading one is only stored for subnormal numbers, where it is zero. -/
def mantissa (x : F32) : Nat :=
  let fraction := x.bits.toNat % 0x800000
  if x.exponentField = 0 then fraction else 0x800000 + fraction

/-- The same number as a double; there is none for infinities and what is not a number. -/
def toFloat? (x : F32) : Option Float :=
  if x.isFinite then
    let magnitude := Float.ofNat (x.mantissa <<< (x.exponentField - 1)) / Float.ofNat (1 <<< 149)
    some (if x.isNegative then -magnitude else magnitude)
  else none

end F32
end ViewerCircuit
