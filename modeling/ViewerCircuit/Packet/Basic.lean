import ViewerCircuit.Message.Basic

/-!
# Packets

A packet is a message with the header that carries it: flags, a sequence number, opaque extra
bytes, and the acks that travel with it.
-/
namespace ViewerCircuit

structure Flags where
  zeroCoded : Bool := false
  reliable : Bool := false
  resent : Bool := false
  appendedAcks : Bool := false
  deriving DecidableEq, Repr

namespace Flags

def zeroCodedBit : UInt8 := 0x80
def reliableBit : UInt8 := 0x40
def resentBit : UInt8 := 0x20
def appendedAcksBit : UInt8 := 0x10

def bit (present : Bool) (mask : UInt8) : UInt8 := if present then mask else 0

def toByte (f : Flags) : UInt8 :=
  bit f.zeroCoded zeroCodedBit ||| bit f.reliable reliableBit ||| bit f.resent resentBit |||
    bit f.appendedAcks appendedAcksBit

/-- The four flags of a byte; its other bits mean nothing. -/
def ofByte (b : UInt8) : Flags where
  zeroCoded := b &&& zeroCodedBit != 0
  reliable := b &&& reliableBit != 0
  resent := b &&& resentBit != 0
  appendedAcks := b &&& appendedAcksBit != 0

@[simp] theorem ofByte_toByte (f : Flags) : ofByte f.toByte = f := by
  rcases f with ⟨_ | _, _ | _, _ | _, _ | _⟩ <;> decide

end Flags

structure Packet where
  flags : Flags := {}
  sequence : UInt32 := 0
  extra : Bytes := []
  acks : List UInt32 := []
  message : Message
  deriving DecidableEq, Repr

namespace Packet

def kind (p : Packet) : MessageKind := p.message.kind

def ofMessage (m : Message) : Packet :=
  { flags := { zeroCoded := m.kind.zeroCoded }, message := m }

def withReliable (p : Packet) (reliable : Bool) : Packet :=
  { p with flags := { p.flags with reliable := reliable } }

def reliable (m : Message) : Packet := (ofMessage m).withReliable true

/-- Makes a packet as good as new for its kind. The content of an unknown message stays. -/
def reset (p : Packet) : Packet where
  flags := { zeroCoded := p.kind.zeroCoded }
  sequence := 0
  extra := emptied p.extra
  acks := emptied p.acks
  message := if p.kind = .unknown then p.message else p.message.clear

end Packet
end ViewerCircuit
