import ViewerCircuit.Message.Format
import ViewerCircuit.Packet.Basic
import ViewerCircuit.ZeroCoding

/-!
# Packets on the wire

A datagram holds flags, sequence number, extra header, body and appended acks. The acks are found
from the end: the last byte counts them. Also here are the changes that a datagram allows without
being read: acks can be appended to it, and it can be marked as resent.
-/
namespace ViewerCircuit

def ackLength : Nat := 4

namespace Packet

def headerLength : Nat := 6

def ackTail (acks : List UInt32) : Except EncodeError Bytes :=
  if acks.isEmpty then .ok []
  else if acks.length < 256 then
    .ok (acks.flatMap (fun ack => bigEndian ackLength ack.toNat) ++ [UInt8.ofNat acks.length])
  else .error (.tooManyAcks acks.length)

def wireFlags (p : Packet) : Flags := { p.flags with appendedAcks := !p.acks.isEmpty }

def encode (p : Packet) : Except EncodeError Bytes := do
  if p.extra.length < 256 then
    let plain ← p.message.write
    let body := if p.flags.zeroCoded then ZeroCoding.encode plain else plain
    let tail ← ackTail p.acks
    return p.wireFlags.toByte :: bigEndian 4 p.sequence.toNat ++
      UInt8.ofNat p.extra.length :: p.extra ++ body ++ tail
  else .error (.extraTooLong p.extra.length)

/-- The numbers written with four bytes each; bytes that do not make up four are ignored. -/
def readAcks : Bytes → List UInt32
  | a :: b :: c :: d :: rest => UInt32.ofNat (ofBigEndian [a, b, c, d]) :: readAcks rest
  | _ => []

def splitAcks (announced : Bool) (bytes : Bytes) : Except DecodeError (Bytes × List UInt32) :=
  if announced then
    let count := (bytes.getLast?.getD 0).toNat
    let tail := count * ackLength + 1
    if bytes.length < 1 + tail then .error (.acksTooLong count)
    else
      let cut := bytes.length - tail
      .ok (bytes.take cut, readAcks ((bytes.drop cut).dropLast))
  else .ok (bytes, [])

def decode (raw : Bytes) : Except DecodeError Packet :=
  match raw with
  | flagByte :: s₁ :: s₂ :: s₃ :: s₄ :: extraLength :: first :: more => do
    let rest := first :: more
    let flags := Flags.ofByte flagByte
    if rest.length ≤ extraLength.toNat then throw (.extraTooLong extraLength.toNat)
    let (body, acks) ← splitAcks flags.appendedAcks (rest.drop extraLength.toNat)
    let plain ← if flags.zeroCoded then ZeroCoding.decode body else .ok body
    let message ← Message.read plain
    return {
      flags
      sequence := UInt32.ofNat (ofBigEndian [s₁, s₂, s₃, s₄])
      extra := rest.take extraLength.toNat
      acks
      message }
  | _ => .error (.packetTooShort raw.length)

end Packet

namespace Datagram

def setFlag (mask : UInt8) : Bytes → Bytes
  | [] => []
  | flags :: rest => (flags ||| mask) :: rest

theorem length_setFlag (mask : UInt8) (raw : Bytes) : (setFlag mask raw).length = raw.length := by
  cases raw <;> rfl

/-- Appends acks to a datagram that has none yet. -/
def withAcks (raw : Bytes) (acks : List UInt32) : Except EncodeError Bytes := do
  if acks.isEmpty then return raw
  return setFlag Flags.appendedAcksBit raw ++ (← Packet.ackTail acks)

def asResent (raw : Bytes) : Bytes := setFlag Flags.resentBit raw

def sequence? : Bytes → Option UInt32
  | _ :: a :: b :: c :: d :: _ => some (UInt32.ofNat (ofBigEndian [a, b, c, d]))
  | _ => none

end Datagram
end ViewerCircuit
