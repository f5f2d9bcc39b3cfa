import ViewerCircuit.Number.Binary

/-!
# Shortest decimals

The decimal with the fewest digits that reads back as a given double-precision number; among
several, the one nearest to it, and of two equally near ones the one further from zero. It is
written without an exponent.
-/
namespace ViewerCircuit.Decimal

/-- A number and the ends of the interval of reals that round to it, as numerators over one
denominator. The ends belong to it if it is closed. -/
structure Interval where
  value : Nat
  low : Nat
  high : Nat
  denominator : Nat
  closed : Bool
  deriving DecidableEq, Repr

def interval (b : Binary) : Interval where
  value := (4 * b.mantissa) <<< b.exponent.toNat
  low := (4 * b.mantissa - if b.atBoundary then 1 else 2) <<< b.exponent.toNat
  high := (4 * b.mantissa + 2) <<< b.exponent.toNat
  denominator := 4 <<< (-b.exponent).toNat
  closed := b.mantissa % 2 = 0

namespace Interval

/-- The power of ten that is not above the number while the next one is. -/
def magnitude (s : Interval) : Int :=
  if s.denominator ≤ s.value then
    ((Nat.toDigits 10 (s.value / s.denominator)).length : Int) - 1
  else
    -(((List.range 400).find? fun t => s.denominator ≤ s.value * Nat.pow 10 t).getD 400 : Nat)

def inUnits (s : Interval) (exponent : Int) : Interval :=
  let up := Nat.pow 10 (-exponent).toNat
  { s with
    value := s.value * up
    low := s.low * up
    high := s.high * up
    denominator := s.denominator * Nat.pow 10 exponent.toNat }

def contains (s : Interval) (n : Nat) : Bool :=
  if s.closed then s.low ≤ n * s.denominator && n * s.denominator ≤ s.high
  else s.low < n * s.denominator && n * s.denominator < s.high

/-- Of the two whole numbers around the value, the one in the interval; of two the nearer one, and
the upper one if the value is halfway. -/
def nearest? (s : Interval) : Option Nat :=
  let below := s.value / s.denominator
  let above := below + 1
  match s.contains below, s.contains above with
  | true, true =>
    if s.value - below * s.denominator < above * s.denominator - s.value then some below
    else some above
  | true, false => some below
  | false, true => some above
  | false, false => none

end Interval

/-- Digits and power of ten of the shortest decimal. One digit may round up to ten. -/
def shortest (b : Binary) : Nat × Int :=
  let s := interval b
  let found := (List.range 17).findSome? fun (i : Nat) =>
    let exponent := s.magnitude - (i : Int)
    (s.inUnits exponent).nearest?.map fun digits => (digits, exponent)
  match found.getD (0, 0) with
  | (10, exponent) => (1, exponent + 1)
  | other => other

def positional (digits : Nat) (exponent : Int) : String :=
  let text := Nat.toDigits 10 digits
  let chars :=
    if 0 ≤ exponent then text ++ List.replicate exponent.toNat '0'
    else
      let places := (-exponent).toNat
      if places < text.length then
        text.take (text.length - places) ++ '.' :: text.drop (text.length - places)
      else '0' :: '.' :: List.replicate (places - text.length) '0' ++ text
  String.ofList chars

def render (x : Float) : String :=
  let sign := if Binary.signBit x then "-" else ""
  let b := Binary.ofFloat x
  if Binary.exponentField x = Binary.specialField then
    if Binary.fractionField x = 0 then sign ++ "inf" else "NaN"
  else if b.mantissa = 0 then sign ++ "0"
  else
    let (digits, exponent) := shortest b
    sign ++ positional digits exponent

end ViewerCircuit.Decimal
