import ViewerCircuit.Number.F32

/-!
# Quantisation

A number from a range is carried in sixteen bits: the ends of the range are the ends of the bits.
-/
namespace ViewerCircuit

structure Range where
  lower : Float32
  upper : Float32

namespace Range

def symmetric (limit : Float32) : Range := ⟨-limit, limit⟩

/-- `value`, moved into the range, as a fraction of sixteen bits; what is not a number counts as
zero. A range whose ends are crossed has no values. -/
def quantize? (range : Range) (value : F32) : Option UInt16 :=
  if range.lower ≤ range.upper then
    let x : Float32 := if value.isNaN then 0 else value.toFloat32
    let clamped :=
      if x < range.lower then range.lower
      else if range.upper < x then range.upper
      else x
    some ((clamped - range.lower) / (range.upper - range.lower) * 65535).round.toUInt16
  else none

def restore (range : Range) (value : UInt16) : F32 :=
  .ofFloat32 (range.lower + Float32.ofNat value.toNat / 65535 * (range.upper - range.lower))

end Range
end ViewerCircuit
