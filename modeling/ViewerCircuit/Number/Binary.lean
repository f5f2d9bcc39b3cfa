/-!
# Binary numbers

A finite double-precision number, taken apart into a whole mantissa and a power of two, so that
its rounding and its text can be computed exactly.
-/
namespace ViewerCircuit

/-- The number `mantissa · 2 ^ exponent`. At a boundary, the next lower number of the format is only
half as far away as the next higher one. -/
structure Binary where
  mantissa : Nat
  exponent : Int
  atBoundary : Bool := false
  deriving DecidableEq, Repr

namespace Binary

def specialField : Nat := 2047

def signBit (x : Float) : Bool := x.toBits >>> 63 = 1

def exponentField (x : Float) : Nat := (x.toBits >>> 52 &&& 0x7FF).toNat

def fractionField (x : Float) : Nat := (x.toBits &&& 0xFFFFFFFFFFFFF).toNat

def ofFloat (x : Float) : Binary :=
  if exponentField x = 0 then ⟨fractionField x, -1074, false⟩
  else ⟨0x10000000000000 + fractionField x, Int.ofNat (exponentField x) - 1075,
    fractionField x = 0 ∧ 1 < exponentField x⟩

/-- The whole number nearest to `numerator / denominator`; of two, the even one. -/
def roundQuotient (numerator denominator : Nat) : Nat :=
  let q := numerator / denominator
  let twice := 2 * (numerator % denominator)
  if twice < denominator then q
  else if denominator < twice then q + 1
  else q + q % 2

def scaleRound (b : Binary) (factor : Nat) : Nat :=
  roundQuotient ((b.mantissa * factor) <<< b.exponent.toNat) (1 <<< (-b.exponent).toNat)

end Binary
end ViewerCircuit
