import ViewerCircuit.Endpoint.Basic

/-!
# Simulated runs

An endpoint among stand-ins: an authenticator and a scene that answer after a fixed delay, and a
transport that works or fails. Time is simulated. It stands still while anything can be done, and
then jumps to the next alarm.
-/
namespace ViewerCircuit

inductive Authenticator where
  | announced (circuits : Announcements)
  | welcoming
  | failing
  deriving DecidableEq, Repr

def Authenticator.verdict : Authenticator → Viewer → Verdict
  | announced circuits, viewer => circuits.authenticate viewer
  | welcoming, _ => .authorized none
  | failing, _ => .failed

structure Surroundings where
  authenticator : Authenticator
  authenticatorDelay : Nat
  sceneDelay : Nat
  sceneGreets : Bool
  deriving DecidableEq, Repr

structure Alarms where
  verdictAt : Nat := 0
  joinedAt : Nat := 0
  ackAt : Nat := 0
  probeAt : Nat := 0
  deriving DecidableEq, Repr

structure Sleeper where
  attendant : AttendantId
  wakeAt : Option Nat
  deriving DecidableEq, Repr

inductive LogEntry where
  | sceneAdd (phase : Phase)
  | sceneRemove
  | handlerCalled (tag : String) (kind : MessageKind) (sequence : UInt32)
  | eventPublished (tag : String) (event : ViewerEvent)
  deriving DecidableEq, Repr

structure Sent where
  time : Nat
  destination : Address
  datagram : Bytes
  deriving DecidableEq, Repr

structure Simulation where
  now : Nat := 0
  surroundings : Surroundings
  endpoint : Endpoint
  alarms : Table (CircuitId × AttendantId) Alarms := []
  sleepers : Table CircuitId (List Sleeper) := []
  linkUp : Bool := true
  attempts : Nat := 0
  sent : List Sent := []
  log : List (Uuid × LogEntry) := []

namespace Simulation

def circuit? (s : Simulation) (id : CircuitId) : Option Circuit := s.endpoint.circuits.get? id

def alarmsOf (s : Simulation) (id : CircuitId) (i : AttendantId) : Alarms :=
  (s.alarms.get? (id, i)).getD {}

def setAlarms (id : CircuitId) (i : AttendantId) (f : Alarms → Alarms) (s : Simulation) :
    Simulation :=
  { s with alarms := s.alarms.put (id, i) (f (s.alarmsOf id i)) }

def sleepersOf (s : Simulation) (id : CircuitId) : List Sleeper := (s.sleepers.get? id).getD []

def setSleepers (id : CircuitId) (f : List Sleeper → List Sleeper) (s : Simulation) : Simulation :=
  { s with sleepers := s.sleepers.put id (f (s.sleepersOf id)) }

/-- Takes note of the calls to a queue: each wakes the attendant that has slept longest, and the
closing of the queue wakes all of them. -/
def wake (id : CircuitId) (callsBefore : Nat) (s : Simulation) : Simulation :=
  match s.circuit? id with
  | some c =>
    s.setSleepers id fun sleepers =>
      if c.queue.closed then [] else sleepers.drop (c.queue.calls - callsBefore)
  | none => s

def callsTo (s : Simulation) (id : CircuitId) : Nat := (s.circuit? id).elim 0 (·.queue.calls)

def note (agent : Uuid) (entry : LogEntry) (s : Simulation) : Simulation :=
  { s with log := (agent, entry) :: s.log }

def observe (id : CircuitId) (agent : Uuid) (s : Simulation) : Effect → Simulation
  | .transmitted destination datagram _ delivered =>
    let s := { s with attempts := s.attempts + 1 }
    if delivered then { s with sent := ⟨s.now, destination, datagram⟩ :: s.sent } else s
  | .handlerCalled tag kind sequence => s.note agent (.handlerCalled tag kind sequence)
  | .eventPublished tag event => s.note agent (.eventPublished tag event)
  | .sceneAdd i =>
    let config := s.endpoint.config
    s.setAlarms id i fun a => { a with
      joinedAt := s.now + s.surroundings.sceneDelay
      ackAt := s.now + config.ackInterval
      probeAt := s.now + config.pingInterval }
  | .sceneRemove => s.note agent .sceneRemove
  | _ => s

def step (id : CircuitId) (event : Event) (s : Simulation) : Option Failure × Simulation :=
  let agent := (s.circuit? id).elim .zero (·.viewer.agentId)
  let (failure, effects, endpoint) := s.endpoint.step id event
  (failure, (effects.foldl (observe id agent) { s with endpoint }).wake id (s.callsTo id))

def take (id : CircuitId) (event : Event) (s : Simulation) : Simulation := (s.step id event).2

def attendantCount (s : Simulation) (id : CircuitId) : Nat :=
  (s.circuit? id).elim 0 (·.attendants.length)

def askAuthenticator (id : CircuitId) (i : AttendantId) (s : Simulation) : Simulation :=
  s.setAlarms id i fun a => { a with verdictAt := s.now + s.surroundings.authenticatorDelay }

def start (id : CircuitId) (s : Simulation) : Simulation :=
  (s.take id .start).askAuthenticator id (s.attendantCount id)

end Simulation
end ViewerCircuit
