import ViewerCircuit.Number.F32
import ViewerCircuit.Throttle.Queue

/-!
# Throttle settings

The budgets a circuit starts with, and the ones its viewer asks for within the configured bounds.
-/
namespace ViewerCircuit

structure ThrottleSettings where
  initialRates : Rates
  multiplier : Float
  minRate : UInt32
  maxRate : UInt32
  burst : Nat

inductive ThrottleError where
  | blockTooShort (length : Nat)
  | boundsCrossed
  deriving DecidableEq, Repr

def throttleBlockLength : Nat := 4 * Category.requestable

def ThrottleError.message : ThrottleError → String
  | blockTooShort n => s!"throttle block has {n} bytes, expected at least {throttleBlockLength}"
  | boundsCrossed => "throttle rate bounds are crossed"

namespace ThrottleSettings

def bytesPerSecond (config : ThrottleSettings) (bits : F32) : Float :=
  match bits.toFloat? with
  | some bits => bits / 8 * config.multiplier
  | none => 0

def clamp (config : ThrottleSettings) (rate : Float) : UInt32 :=
  let low := Float.ofNat config.minRate.toNat
  let high := Float.ofNat config.maxRate.toNat
  (if rate < low then low else if high < rate then high else rate).toUInt32

end ThrottleSettings

def reportedRate (block : Bytes) (c : Category) : F32 :=
  ⟨UInt32.ofNat (ofLittleEndian ((block.drop (4 * c.index)).take 4))⟩

/-- Applies the throttle block of a viewer. The last category is not the viewer's to set. -/
def Rates.grant (rates : Rates) (block : Bytes) (config : ThrottleSettings) :
    Except ThrottleError Rates :=
  if block.length < throttleBlockLength then .error (.blockTooShort block.length)
  else if config.maxRate < config.minRate then .error .boundsCrossed
  else .ok (.ofFn fun c =>
    if c.index.val < Category.requestable then
      config.clamp (config.bytesPerSecond (reportedRate block c))
    else rates.get c)

end ViewerCircuit
