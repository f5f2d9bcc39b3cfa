import ViewerCircuit.Number.Decimal
import ViewerCircuit.Throttle.Rates

/-!
# Configuration

Every limit and interval, with its default, and the rule that a usable configuration follows.
-/
namespace ViewerCircuit

def sequenceLimit : UInt32 := 0xFFFFFF

def datagramLimit : Nat := 65507

structure Config where
  maxSequence : UInt32 := sequenceLimit
  resendTimeout : Nat := Time.ofMilliseconds 4000
  ackInterval : Nat := Time.ofMilliseconds 750
  pingInterval : Nat := Time.ofMilliseconds 5000
  maxProbeFailures : UInt32 := 30
  maxProbeFailuresBlocked : UInt32 := 90
  dupeWindow : Nat := Time.ofMilliseconds 30000
  maxAppendedAcks : Nat := 10
  appendAckThreshold : Nat := 250
  maxPendingAcks : Nat := 1024
  maxUnackedPackets : Nat := 4096
  maxPacketSize : Nat := 1500
  packetPooling : Bool := true
  packetPoolSize : Nat := 64
  bufferPoolSize : Nat := 256
  throttle : ThrottleSettings := {
    initialRates := ⟨#v[12500, 12500, 5000, 5000, 25000, 100000, 50000, 50000]⟩
    multiplier := 1
    minRate := 1000
    maxRate := 1000000
    burst := Time.ofMilliseconds 250 }
  malformedLogInterval : Nat := Time.ofMilliseconds 10000

inductive ConfigError where
  | maxSequence (was : UInt32)
  | zeroInterval
  | tooManyAppendedAcks (configured : Nat)
  | packetSizeTooSmall
  | packetSizeTooLarge (size : Nat)
  | multiplier (was : Float)
  | rateBounds (min max : UInt32)
  | zeroRate (category : Category)

def ConfigError.message : ConfigError → String
  | maxSequence was => s!"max_sequence must be in 1..={sequenceLimit.toNat}, was {was.toNat}"
  | zeroInterval => "timer intervals must not be zero"
  | tooManyAppendedAcks n => s!"at most 255 acks can be appended to a packet, configured {n}"
  | packetSizeTooSmall => "max packet size is too small"
  | packetSizeTooLarge n =>
    s!"max packet size {n} exceeds the UDP payload limit of {datagramLimit}"
  | multiplier was => s!"throttle multiplier must be positive, was {Decimal.render was}"
  | rateBounds min max =>
    s!"throttle rate bounds are inconsistent: {min.toNat}..{max.toNat}"
  | zeroRate c => s!"initial throttle rate for {c.name} must not be zero"

def ThrottleSettings.validate (config : ThrottleSettings) : Except ConfigError Unit :=
  if ¬ 0 < config.multiplier then .error (.multiplier config.multiplier)
  else if config.minRate = 0 ∨ config.maxRate < config.minRate then
    .error (.rateBounds config.minRate config.maxRate)
  else
    match Category.all.find? fun c => config.initialRates.get c = 0 with
    | some c => .error (.zeroRate c)
    | none => .ok ()

namespace Config

def validate (config : Config) : Except ConfigError Unit :=
  if config.maxSequence = 0 ∨ sequenceLimit < config.maxSequence then
    .error (.maxSequence config.maxSequence)
  else if config.resendTimeout = 0 ∨ config.ackInterval = 0 ∨ config.pingInterval = 0 then
    .error .zeroInterval
  else if 255 < config.maxAppendedAcks then .error (.tooManyAppendedAcks config.maxAppendedAcks)
  else if config.maxPacketSize < 100 then .error .packetSizeTooSmall
  else if datagramLimit < config.maxPacketSize then
    .error (.packetSizeTooLarge config.maxPacketSize)
  else config.throttle.validate

def Valid (config : Config) : Prop := config.validate.isOk = true

end Config
end ViewerCircuit
