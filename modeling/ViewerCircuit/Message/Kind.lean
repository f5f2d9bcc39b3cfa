import ViewerCircuit.Message.Number

/-!
# Message kinds

The part of the message template that is spoken here: each kind has a name, a number and a mark
that says whether its body is zero-coded. Every other number belongs to the kind `unknown`.
-/
namespace ViewerCircuit

inductive MessageKind where
  | startPingCheck
  | completePingCheck
  | agentUpdate
  | improvedTerseObjectUpdate
  | killObject
  | useCircuitCode
  | teleportLocationRequest
  | chatFromViewer
  | agentThrottle
  | alertMessage
  | chatFromSimulator
  | regionHandshakeReply
  | simulatorViewerTimeMessage
  | enableSimulator
  | disableSimulator
  | kickUser
  | agentPause
  | agentResume
  | uuidNameRequest
  | uuidNameReply
  | completeAgentMovement
  | agentMovementComplete
  | logoutRequest
  | logoutReply
  | packetAck
  | openCircuit
  | closeCircuit
  | unknown
  deriving DecidableEq, Repr

namespace MessageKind

structure Entry where
  name : String
  number : Option MessageNumber
  zeroCoded : Bool

def entry : MessageKind → Entry
  | startPingCheck => ⟨"StartPingCheck", some (.high 1), false⟩
  | completePingCheck => ⟨"CompletePingCheck", some (.high 2), false⟩
  | agentUpdate => ⟨"AgentUpdate", some (.high 4), true⟩
  | improvedTerseObjectUpdate => ⟨"ImprovedTerseObjectUpdate", some (.high 15), false⟩
  | killObject => ⟨"KillObject", some (.high 16), false⟩
  | useCircuitCode => ⟨"UseCircuitCode", some (.low 3), false⟩
  | teleportLocationRequest => ⟨"TeleportLocationRequest", some (.low 63), false⟩
  | chatFromViewer => ⟨"ChatFromViewer", some (.low 80), true⟩
  | agentThrottle => ⟨"AgentThrottle", some (.low 81), true⟩
  | alertMessage => ⟨"AlertMessage", some (.low 134), false⟩
  | chatFromSimulator => ⟨"ChatFromSimulator", some (.low 139), false⟩
  | regionHandshakeReply => ⟨"RegionHandshakeReply", some (.low 149), true⟩
  | simulatorViewerTimeMessage => ⟨"SimulatorViewerTimeMessage", some (.low 150), false⟩
  | enableSimulator => ⟨"EnableSimulator", some (.low 151), false⟩
  | disableSimulator => ⟨"DisableSimulator", some (.low 152), false⟩
  | kickUser => ⟨"KickUser", some (.low 163), false⟩
  | agentPause => ⟨"AgentPause", some (.low 212), false⟩
  | agentResume => ⟨"AgentResume", some (.low 213), false⟩
  | uuidNameRequest => ⟨"UuidNameRequest", some (.low 235), false⟩
  | uuidNameReply => ⟨"UuidNameReply", some (.low 236), false⟩
  | completeAgentMovement => ⟨"CompleteAgentMovement", some (.low 249), false⟩
  | agentMovementComplete => ⟨"AgentMovementComplete", some (.low 250), false⟩
  | logoutRequest => ⟨"LogoutRequest", some (.low 252), false⟩
  | logoutReply => ⟨"LogoutReply", some (.low 253), true⟩
  | packetAck => ⟨"PacketAck", some (.fixed 0xFB), false⟩
  | openCircuit => ⟨"OpenCircuit", some (.fixed 0xFC), false⟩
  | closeCircuit => ⟨"CloseCircuit", some (.fixed 0xFD), false⟩
  | unknown => ⟨"Unknown", none, false⟩

def name (k : MessageKind) : String := k.entry.name

def number (k : MessageKind) : Option MessageNumber := k.entry.number

def zeroCoded (k : MessageKind) : Bool := k.entry.zeroCoded

def all : List MessageKind :=
  [startPingCheck, completePingCheck, agentUpdate, improvedTerseObjectUpdate, killObject,
   useCircuitCode, teleportLocationRequest, chatFromViewer, agentThrottle, alertMessage,
   chatFromSimulator, regionHandshakeReply, simulatorViewerTimeMessage, enableSimulator,
   disableSimulator, kickUser, agentPause, agentResume, uuidNameRequest, uuidNameReply,
   completeAgentMovement, agentMovementComplete, logoutRequest, logoutReply, packetAck,
   openCircuit, closeCircuit, unknown]

theorem mem_all (k : MessageKind) : k ∈ all := by
  cases k <;> decide

def ofName? (name : String) : Option MessageKind := all.find? (·.name == name)

def ofNumber (number : MessageNumber) : MessageKind :=
  (all.find? (·.number = some number)).getD unknown

theorem ofNumber_number {k : MessageKind} {n : MessageNumber} (h : k.number = some n) :
    ofNumber n = k := by
  cases k <;> simp only [number, entry, Option.some.injEq, reduceCtorEq] at h <;>
    subst h <;> decide

end MessageKind
end ViewerCircuit
