import ViewerCircuit.Packet.Wire
import ViewerCircuit.Table
import ViewerCircuit.Throttle.Category

/-!
# Packets in flight

Outbound reliable packets are kept until they are acked, and come back for retransmission when
that takes too long.
-/
namespace ViewerCircuit

/-- A packet as it was first built, until it is acked. The time is that of its last transmission, or
when it was last given out for one. -/
structure KeptPacket where
  kind : MessageKind
  bytes : Bytes
  category : Category
  sentAt : Nat
  retries : Nat
  deriving DecidableEq, Repr

def KeptPacket.resentAt (p : KeptPacket) (now : Nat) : KeptPacket :=
  { p with
    bytes := Datagram.asResent p.bytes
    sentAt := now
    retries := p.retries + 1 }

structure Retransmission where
  sequence : UInt32
  kind : MessageKind
  bytes : Bytes
  deriving DecidableEq, Repr

structure InFlight where
  resendTimeout : Nat
  limit : Nat
  kept : Table UInt32 KeptPacket := []
  bytes : Nat := 0
  deriving DecidableEq, Repr

namespace InFlight

def contains (f : InFlight) (sequence : UInt32) : Bool := f.kept.contains sequence

def count (f : InFlight) : Nat := f.kept.length

def retries? (f : InFlight) (sequence : UInt32) : Option Nat :=
  (f.kept.get? sequence).map (·.retries)

/-- The number of a packet that was sent before all others, or with the first. -/
def oldestSent? (f : InFlight) : Option UInt32 :=
  let earlier (best : Option (UInt32 × Nat)) (e : UInt32 × KeptPacket) :=
    match best with
    | some (s, time) => if e.2.sentAt < time then some (e.1, e.2.sentAt) else some (s, time)
    | none => some (e.1, e.2.sentAt)
  (f.kept.foldl earlier none).map (·.1)

def remove (f : InFlight) (sequence : UInt32) : Bool × InFlight :=
  match f.kept.get? sequence with
  | some p =>
    (true, { f with kept := f.kept.erase sequence, bytes := f.bytes - p.bytes.length })
  | none => (false, f)

def evict (f : InFlight) : InFlight :=
  if f.limit ≤ f.count then
    match f.oldestSent? with
    | some oldest => (f.remove oldest).2
    | none => f
  else f

/-- Keeps a packet until it is acked. A packet that is kept under the same number stays, with
`false`. -/
def track (f : InFlight) (sequence : UInt32) (kind : MessageKind) (bytes : Bytes)
    (category : Category) (now : Nat) : Bool × InFlight :=
  if f.contains sequence then (false, f)
  else
    let f := f.evict
    (true, { f with
      kept := f.kept.put sequence ⟨kind, bytes, category, now, 0⟩
      bytes := f.bytes + bytes.length })

def isDue (f : InFlight) (now : Nat) (p : KeptPacket) : Bool :=
  f.resendTimeout < now - p.sentAt

/-- The packets that were sent too long ago, in the order of their numbers. Their time starts
again. -/
def retransmit (f : InFlight) (now : Nat) : List Retransmission × InFlight :=
  let due := f.kept.filter fun e => f.isDue now e.2
  let items := due.map fun (s, p) => (⟨s, p.kind, Datagram.asResent p.bytes⟩ : Retransmission)
  (items.mergeSort fun a b => a.sequence ≤ b.sequence,
    { f with kept := f.kept.map fun (s, p) =>
        (s, if f.isDue now p then p.resentAt now else p) })

/-- The lowest number that waits for an ack, zero if there is none. -/
def oldest (f : InFlight) : UInt32 := (f.kept.keys.min?).getD 0

end InFlight
end ViewerCircuit
