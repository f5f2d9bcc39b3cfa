import ViewerCircuit.Message.Kind

/-!
# Owed acks

Inbound reliable packets are owed an ack. Acks wait, each number once, until they are appended to
an outbound packet or sent in a packet of their own.
-/
namespace ViewerCircuit

structure OwedAcks where
  limit : Nat
  appendThreshold : Nat
  maxAppended : Nat
  waiting : List UInt32 := []
  members : List UInt32 := []
  deriving DecidableEq, Repr

namespace OwedAcks

def count (o : OwedAcks) : Nat := o.waiting.length

/-- Adds an ack, unless its number waits already or too many do. -/
def accept (o : OwedAcks) (sequence : UInt32) : Bool × OwedAcks :=
  if o.members.contains sequence then (false, o)
  else if o.limit ≤ o.count then (false, o)
  else (true, { o with
    waiting := o.waiting ++ [sequence]
    members := sequence :: o.members })

def take (o : OwedAcks) (max : Nat) : List UInt32 × OwedAcks :=
  let taken := o.waiting.take max
  (taken, { o with
    waiting := o.waiting.drop max
    members := o.members.filter fun s => !taken.contains s })

def refusesAcks (kind : MessageKind) : Bool :=
  kind = .packetAck || kind = .logoutRequest || kind = .logoutReply

def piggyback (o : OwedAcks) (kind : MessageKind) (room : Nat) : List UInt32 × OwedAcks :=
  if refusesAcks kind then ([], o)
  else if o.appendThreshold < o.count then ([], o)
  else o.take (min o.maxAppended room)

end OwedAcks
end ViewerCircuit
