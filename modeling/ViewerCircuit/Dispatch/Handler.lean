import ViewerCircuit.Address
import ViewerCircuit.Dispatch.Registry
import ViewerCircuit.Outbound.Messages
import ViewerCircuit.ViewerEvent

/-!
# Handlers

What is done with inbound packets: the handlers that a simulation registers, for one circuit or
for all, and the built-in ones that keep a circuit going and publish events. A circuit knows only
which handlers there are. What they do is up to the simulation, and a parameter of every step.
-/
namespace ViewerCircuit

inductive CloseReason where
  | authenticationFailed
  | logout
  | circuitClosed
  | kicked
  | timedOut
  | transportFault
  | circuitShutdown
  deriving DecidableEq, Repr

/-- How a handler ends. What is `declined` is left to the next registry, and one that `crashed` came
to no end of its own. -/
inductive Outcome where
  | handled
  | declined
  | failed
  | crashed
  deriving DecidableEq, Repr

def Outcome.isFailure : Outcome → Bool
  | failed => true
  | crashed => true
  | _ => false

/-- A handler or an event subscriber of the simulation, known by its tag. -/
structure Handler where
  tag : String
  deriving DecidableEq, Repr

inductive HandlerAction where
  | send (p : Packet) (category : Category)
  | tell (notice : Notice)
  | startPing
  | close (reason : CloseReason)
  | kick (reason : String)
  | setBlocked (blocked : Bool)
  | applyThrottles (block : Bytes)
  | setProxy (proxy : Option Address)
  | setStartPosition (position : Vec3)
  | addHandler (kind : MessageKind) (handler : Handler)
  | subscribe (kind : ViewerEventKind) (subscriber : Handler)
  deriving DecidableEq, Repr

structure Reaction where
  actions : List HandlerAction := []
  outcome : Outcome := .handled
  deriving DecidableEq, Repr

inductive Occasion where
  | packet (p : Packet)
  | event (e : ViewerEvent)
  deriving DecidableEq, Repr

/-- The simulation's part in a step: who handles packets of all circuits, and what each handler does
when it is called. It may be another one in every step, since handlers remember things. -/
structure Conduct where
  globals : Registry Handler := {}
  respond : Handler → Occasion → Reaction := fun _ _ => {}

inductive BuiltIn where
  | consume
  | answerPing
  | applyThrottle
  | pause
  | logout
  | closeCircuit
  | publish
  deriving DecidableEq, Repr

def builtIns : List (MessageKind × BuiltIn) :=
  [(.useCircuitCode, .consume), (.openCircuit, .consume), (.packetAck, .consume),
   (.completePingCheck, .consume), (.startPingCheck, .answerPing),
   (.agentThrottle, .applyThrottle), (.agentPause, .pause), (.agentResume, .pause),
   (.logoutRequest, .logout), (.closeCircuit, .closeCircuit), (.chatFromViewer, .publish),
   (.agentUpdate, .publish), (.completeAgentMovement, .publish),
   (.regionHandshakeReply, .publish), (.uuidNameRequest, .publish),
   (.teleportLocationRequest, .publish)]

inductive DefaultHandler where
  | builtIn (handler : BuiltIn)
  | added (handler : Handler)
  deriving DecidableEq, Repr

def builtInHandlers : Registry DefaultHandler :=
  ⟨builtIns.map fun (kind, handler) => (kind, .builtIn handler)⟩

end ViewerCircuit
