import ViewerCircuit.Dispatch.Handler
import ViewerCircuit.Login
import ViewerCircuit.Outbound.Messages
import ViewerCircuit.Reliability.Duplicates
import ViewerCircuit.Reliability.AckState
import ViewerCircuit.Reliability.Numbering

/-!
# Circuits

The simulation's side of one viewer's circuit. An attendant authenticates it, joins the scene,
serves the queue until the circuit is closed, and then sends what is left. Two timers of the
attendant and any number of callers act on the circuit meanwhile. A circuit that is started again
gets one more attendant, and all of them serve the one queue.
-/
namespace ViewerCircuit

inductive Phase where
  | authenticating
  | active
  | closing
  | closed
  deriving DecidableEq, Repr

def Phase.rank : Phase → Nat
  | authenticating => 0
  | active => 1
  | closing => 2
  | closed => 3

/-- Nothing new is accepted from the viewer any more. -/
def Phase.isEnding (p : Phase) : Bool := Phase.closing.rank ≤ p.rank

abbrev AttendantId := Nat

/-- How far an attendant has come. One that is `finishing` has yet to flush the queue; it leaves the
scene afterwards if it joined it. -/
inductive Stage where
  | authenticating
  | joining
  | serving
  | finishing (joined : Bool)
  | flushing (joined : Bool) (remaining : List Outgoing)
  | ended
  deriving DecidableEq, Repr

inductive TimerState where
  | off
  | running
  | stopped
  deriving DecidableEq, Repr

structure Attendant where
  stage : Stage := .authenticating
  ackTimer : TimerState := .off
  probeTimer : TimerState := .off
  awaitedBy : Option AttendantId := none
  deriving DecidableEq, Repr

namespace Attendant

def isQuiet (a : Attendant) : Bool := a.ackTimer ≠ .running && a.probeTimer ≠ .running

/-- Leaves it to attendant `i` to wait for the timers, if there are any and nobody waits yet. -/
def claimedBy (i : AttendantId) (a : Attendant) : Attendant :=
  if a.ackTimer ≠ .off ∧ a.awaitedBy = none then { a with awaitedBy := some i } else a

end Attendant

structure Counters where
  packetsIn : Nat := 0
  packetsOut : Nat := 0
  packetsResent : Nat := 0
  duplicatesDropped : Nat := 0
  deriving DecidableEq, Repr

structure Circuit where
  config : Config
  viewer : Viewer
  remote : Address
  proxy : Option Address := none
  phase : Phase := .authenticating
  closeReason : Option CloseReason := none
  attendants : List Attendant := []
  login : Option Login := none
  startPosition : Vec3 := .zero
  sequences : Numbering
  duplicates : Duplicates
  ackState : AckState
  queue : Queue Nat Float
  handlers : Registry Handler := {}
  defaults : Registry DefaultHandler := builtInHandlers
  subscribers : List (ViewerEventKind × Handler) := []
  blocked : Bool := false
  heard : Bool := false
  probeFailures : UInt32 := 0
  nextPingId : UInt8 := 0
  crashAlerted : Bool := false
  counters : Counters := {}

inductive Effect where
  | queued (packet : Outgoing)
  | unwritable (packet : Packet) (error : EncodeError)
  | turnedAway (packet : Packet)
  | requeued (packet : Outgoing)
  | transmitted (destination : Address) (datagram : Bytes) (packet : Outgoing) (delivered : Bool)
  | accepted (packet : Packet)
  | processed (packet : Packet) (now : Nat)
  | owes (sequence : UInt32)
  | dispatched (packet : Packet) (now : Nat)
  | dropped (packet : Packet) (now : Nat)
  | concluded (packet : Packet) (outcome : Outcome)
  | handlerCalled (tag : String) (kind : MessageKind) (sequence : UInt32)
  | eventPublished (tag : String) (event : ViewerEvent)
  | closeCalled (reason : CloseReason)
  | sceneAdd (attendant : AttendantId)
  | sceneRemove
  | recycled (packet : Packet)
  deriving DecidableEq, Repr

/-- What a step works on: the circuit, the pool it shares with others, and the effects of the step
so far, the latest first. -/
structure Site where
  circuit : Circuit
  pool : PacketPool
  effects : List Effect := []

namespace Circuit

def new (config : Config) (viewer : Viewer) (remote : Address) (now : Nat) :
    Circuit where
  config
  viewer
  remote
  sequences := { max := config.maxSequence }
  duplicates := { window := config.dupeWindow }
  ackState := .ofConfig config
  queue := .new config.throttle.initialRates config.throttle.burst config.maxPacketSize now

def stage? (c : Circuit) (i : AttendantId) : Option Stage := c.attendants[i]?.map (·.stage)

def withAttendant (i : AttendantId) (f : Attendant → Attendant) (c : Circuit) : Circuit :=
  { c with attendants := c.attendants.modify i f }

def withStage (i : AttendantId) (stage : Stage) (c : Circuit) : Circuit :=
  c.withAttendant i ({ · with stage })

/-- Gives the attendant packets to be sent before it leaves. Once there is none left, it waits for
the timers that nobody else waits for. -/
def withRemaining (i : AttendantId) (joined : Bool) (remaining : List Outgoing) (c : Circuit) :
    Circuit :=
  let c := c.withStage i (.flushing joined remaining)
  if remaining.isEmpty then { c with attendants := c.attendants.map (·.claimedBy i) } else c

def TimersStopped (c : Circuit) (i : AttendantId) : Prop :=
  ∀ a ∈ c.attendants, a.awaitedBy = some i → a.isQuiet

instance (c : Circuit) (i : AttendantId) : Decidable (c.TimersStopped i) :=
  inferInstanceAs (Decidable (∀ a ∈ c.attendants, a.awaitedBy = some i → a.isQuiet))

def sendAddress (c : Circuit) : Address := c.proxy.getD c.remote

structure Stats where
  packetsIn : Nat
  packetsOut : Nat
  packetsResent : Nat
  duplicatesDropped : Nat
  unackedPackets : Nat
  unackedBytes : Nat
  pendingAcks : Nat
  probeFailures : UInt32
  deriving DecidableEq, Repr

def stats (c : Circuit) : Stats where
  packetsIn := c.counters.packetsIn
  packetsOut := c.counters.packetsOut
  packetsResent := c.counters.packetsResent
  duplicatesDropped := c.counters.duplicatesDropped
  unackedPackets := c.ackState.inFlight.count
  unackedBytes := c.ackState.inFlight.bytes
  pendingAcks := c.ackState.owed.count
  probeFailures := c.probeFailures

def description (c : Circuit) : String :=
  "Connection\x7bagent:" ++ c.viewer.agentId.hyphenated ++ ", circuit:" ++
    s!"{c.viewer.circuitCode.toNat}" ++ ", remote:" ++ c.remote.toString ++ "\x7d"

end Circuit

namespace Site

def emit (e : Effect) (s : Site) : Site := { s with effects := e :: s.effects }

def update (f : Circuit → Circuit) (s : Site) : Site := { s with circuit := f s.circuit }

def recycle (p : Packet) (s : Site) : Site :=
  { s with pool := s.pool.takeBack p, effects := .recycled p :: s.effects }

end Site
end ViewerCircuit
