import ViewerCircuit.Config
import ViewerCircuit.Reliability.InFlight
import ViewerCircuit.Reliability.OwedAcks
import ViewerCircuit.Throttle.Queue

/-!
# Reliable delivery

Both directions of reliable delivery on one circuit: the packets that wait for acks from the
viewer, and the acks that are owed to it.
-/
namespace ViewerCircuit

def Packet.acked (p : Packet) : List UInt32 :=
  p.acks ++ match p.message with
    | .packetAck m => m.ids
    | _ => []

structure AckState where
  inFlight : InFlight
  owed : OwedAcks
  deriving DecidableEq, Repr

namespace AckState

def ofConfig (config : Config) : AckState where
  inFlight := { resendTimeout := config.resendTimeout, limit := config.maxUnackedPackets }
  owed := {
    limit := config.maxPendingAcks
    appendThreshold := config.appendAckThreshold
    maxAppended := config.maxAppendedAcks }

def acked (a : AckState) (sequences : List UInt32) : AckState :=
  { a with inFlight := sequences.foldl (fun kept s => (kept.remove s).2) a.inFlight }

/-- The datagram in which a packet goes on the wire, with at most `room` of the owed acks behind
it. A retransmission carries none, and a reliable packet is tracked without them. -/
def depart (now room : Nat) (p : Outgoing) (a : AckState) : Bytes × AckState :=
  let (acks, owed) :=
    if p.delivery = .resend then ([], a.owed) else a.owed.piggyback p.kind room
  let inFlight :=
    if p.delivery = .reliable then
      (a.inFlight.track p.sequence p.kind p.bytes p.category now).2
    else a.inFlight
  (((Datagram.withAcks p.bytes acks).toOption).getD p.bytes, { inFlight, owed })

/-- Settles what a packet acks; the packet is then owed an ack itself if it is reliable. -/
def arrive (p : Packet) (a : AckState) : Bool × AckState :=
  let a := a.acked p.acked
  if p.flags.reliable then
    let (owes, owed) := a.owed.accept p.sequence
    (owes, { a with owed })
  else (false, a)

end AckState
end ViewerCircuit
