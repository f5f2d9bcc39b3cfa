/-!
# Wire errors

Why bytes cannot be read as a packet, and why a packet cannot be written as bytes.
-/
namespace ViewerCircuit

abbrev Bytes := List UInt8

inductive DecodeError where
  | packetTooShort (length : Nat)
  | extraTooLong (extraLength : Nat)
  | acksTooLong (count : Nat)
  | unterminatedRun
  | emptyRun
  | messageNumberZero
  | underflow
  | fieldUnderflow (expected remaining : Nat)
  deriving DecidableEq, Repr

def DecodeError.message : DecodeError → String
  | packetTooShort n => s!"packet too short: {n} bytes"
  | extraTooLong n => s!"packet too short for extra header of {n} bytes"
  | acksTooLong n => s!"packet too short for {n} appended acks"
  | unterminatedRun => "zero-coded data ends with an unterminated zero run"
  | emptyRun => "zero-coded data contains a zero run of length 0"
  | messageNumberZero => "invalid message number 0"
  | underflow => "buffer underflow"
  | fieldUnderflow e r => s!"buffer underflow: expected {e} bytes, {r} remaining"

inductive EncodeError where
  | extraTooLong (length : Nat)
  | tooManyAcks (count : Nat)
  | tooManyEntries (count : Nat)
  | fieldTooLong (length : Nat)
  | noRoomForTerminator
  deriving DecidableEq, Repr

end ViewerCircuit
