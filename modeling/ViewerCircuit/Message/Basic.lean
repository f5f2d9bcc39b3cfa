import ViewerCircuit.Address
import ViewerCircuit.Geometry
import ViewerCircuit.Message.Kind

/-!
# Messages

The content of every supported message, in the order of its fields on the wire. The defaults make
up the empty message.
-/
namespace ViewerCircuit

structure StartPingCheck where
  pingId : UInt8 := 0
  oldestUnacked : UInt32 := 0
  deriving DecidableEq, Repr

structure CompletePingCheck where
  pingId : UInt8 := 0
  deriving DecidableEq, Repr

structure AgentUpdate where
  agentId : Uuid := .zero
  sessionId : Uuid := .zero
  bodyRotation : Quat := .identity
  headRotation : Quat := .identity
  state : UInt8 := 0
  cameraCenter : Vec3 := .zero
  cameraAtAxis : Vec3 := .zero
  cameraLeftAxis : Vec3 := .zero
  cameraUpAxis : Vec3 := .zero
  far : F32 := .zero
  controlFlags : UInt32 := 0
  flags : UInt8 := 0
  deriving DecidableEq, Repr

structure TerseObject where
  data : Bytes := []
  textureEntry : Bytes := []
  deriving DecidableEq, Repr

structure ImprovedTerseObjectUpdate where
  regionHandle : UInt64 := 0
  timeDilation : UInt16 := 0
  objects : List TerseObject := []
  deriving DecidableEq, Repr

structure KillObject where
  localIds : List UInt32 := []
  deriving DecidableEq, Repr

structure UseCircuitCode where
  code : UInt32 := 0
  sessionId : Uuid := .zero
  agentId : Uuid := .zero
  deriving DecidableEq, Repr

structure TeleportLocationRequest where
  agentId : Uuid := .zero
  sessionId : Uuid := .zero
  regionHandle : UInt64 := 0
  position : Vec3 := .zero
  lookAt : Vec3 := .zero
  deriving DecidableEq, Repr

structure ChatFromViewer where
  agentId : Uuid := .zero
  sessionId : Uuid := .zero
  message : String := ""
  chatType : UInt8 := 0
  channel : Int32 := 0
  deriving DecidableEq, Repr

structure AgentThrottle where
  agentId : Uuid := .zero
  sessionId : Uuid := .zero
  circuitCode : UInt32 := 0
  genCounter : UInt32 := 0
  throttles : Bytes := []
  deriving DecidableEq, Repr

structure AlertMessage where
  message : String := ""
  deriving DecidableEq, Repr

structure ChatFromSimulator where
  fromName : String := ""
  sourceId : Uuid := .zero
  ownerId : Uuid := .zero
  sourceType : UInt8 := 0
  chatType : UInt8 := 0
  audible : UInt8 := 0
  position : Vec3 := .zero
  message : String := ""
  deriving DecidableEq, Repr

structure RegionHandshakeReply where
  agentId : Uuid := .zero
  sessionId : Uuid := .zero
  flags : UInt32 := 0
  deriving DecidableEq, Repr

structure SimulatorViewerTime where
  usecSinceStart : UInt64 := 0
  secPerDay : UInt32 := 0
  secPerYear : UInt32 := 0
  sunDirection : Vec3 := .zero
  sunPhase : F32 := .zero
  sunAngVelocity : Vec3 := .zero
  deriving DecidableEq, Repr

structure EnableSimulator where
  regionHandle : UInt64 := 0
  ip : Ipv4 := .unspecified
  port : UInt16 := 0
  deriving DecidableEq, Repr

structure KickUser where
  targetIp : Ipv4 := .unspecified
  targetPort : UInt16 := 0
  agentId : Uuid := .zero
  sessionId : Uuid := .zero
  reason : String := ""
  deriving DecidableEq, Repr

structure AgentPause where
  agentId : Uuid := .zero
  sessionId : Uuid := .zero
  serialNum : UInt32 := 0
  deriving DecidableEq, Repr

structure UuidNameRequest where
  ids : List Uuid := []
  deriving DecidableEq, Repr

structure UuidName where
  id : Uuid := .zero
  firstName : String := ""
  lastName : String := ""
  deriving DecidableEq, Repr

structure UuidNameReply where
  entries : List UuidName := []
  deriving DecidableEq, Repr

structure CompleteAgentMovement where
  agentId : Uuid := .zero
  sessionId : Uuid := .zero
  circuitCode : UInt32 := 0
  deriving DecidableEq, Repr

structure AgentMovementComplete where
  agentId : Uuid := .zero
  sessionId : Uuid := .zero
  position : Vec3 := .zero
  lookAt : Vec3 := .zero
  regionHandle : UInt64 := 0
  timestamp : UInt32 := 0
  channelVersion : String := ""
  deriving DecidableEq, Repr

structure LogoutRequest where
  agentId : Uuid := .zero
  sessionId : Uuid := .zero
  deriving DecidableEq, Repr

structure LogoutReply where
  agentId : Uuid := .zero
  sessionId : Uuid := .zero
  itemIds : List Uuid := []
  deriving DecidableEq, Repr

structure PacketAck where
  ids : List UInt32 := []
  deriving DecidableEq, Repr

structure OpenCircuit where
  ip : Ipv4 := .unspecified
  port : UInt16 := 0
  deriving DecidableEq, Repr

structure UnknownMessage where
  number : MessageNumber := .invalid
  body : Bytes := []
  deriving DecidableEq, Repr

inductive Message where
  | startPingCheck (m : StartPingCheck)
  | completePingCheck (m : CompletePingCheck)
  | agentUpdate (m : AgentUpdate)
  | improvedTerseObjectUpdate (m : ImprovedTerseObjectUpdate)
  | killObject (m : KillObject)
  | useCircuitCode (m : UseCircuitCode)
  | teleportLocationRequest (m : TeleportLocationRequest)
  | chatFromViewer (m : ChatFromViewer)
  | agentThrottle (m : AgentThrottle)
  | alertMessage (m : AlertMessage)
  | chatFromSimulator (m : ChatFromSimulator)
  | regionHandshakeReply (m : RegionHandshakeReply)
  | simulatorViewerTimeMessage (m : SimulatorViewerTime)
  | enableSimulator (m : EnableSimulator)
  | disableSimulator
  | kickUser (m : KickUser)
  | agentPause (m : AgentPause)
  | agentResume (m : AgentPause)
  | uuidNameRequest (m : UuidNameRequest)
  | uuidNameReply (m : UuidNameReply)
  | completeAgentMovement (m : CompleteAgentMovement)
  | agentMovementComplete (m : AgentMovementComplete)
  | logoutRequest (m : LogoutRequest)
  | logoutReply (m : LogoutReply)
  | packetAck (m : PacketAck)
  | openCircuit (m : OpenCircuit)
  | closeCircuit
  | unknown (m : UnknownMessage)
  deriving DecidableEq, Repr

def emptied {α : Type} (xs : List α) : List α := xs.take 0

def emptiedText (s : String) : String := String.ofList (emptied s.toList)

@[simp] theorem emptied_eq {α : Type} (xs : List α) : emptied xs = [] := List.take_zero

@[simp] theorem emptiedText_eq (s : String) : emptiedText s = "" := by
  rw [emptiedText, emptied_eq, String.ofList_nil]

namespace Message

def kind : Message → MessageKind
  | startPingCheck _ => .startPingCheck
  | completePingCheck _ => .completePingCheck
  | agentUpdate _ => .agentUpdate
  | improvedTerseObjectUpdate _ => .improvedTerseObjectUpdate
  | killObject _ => .killObject
  | useCircuitCode _ => .useCircuitCode
  | teleportLocationRequest _ => .teleportLocationRequest
  | chatFromViewer _ => .chatFromViewer
  | agentThrottle _ => .agentThrottle
  | alertMessage _ => .alertMessage
  | chatFromSimulator _ => .chatFromSimulator
  | regionHandshakeReply _ => .regionHandshakeReply
  | simulatorViewerTimeMessage _ => .simulatorViewerTimeMessage
  | enableSimulator _ => .enableSimulator
  | disableSimulator => .disableSimulator
  | kickUser _ => .kickUser
  | agentPause _ => .agentPause
  | agentResume _ => .agentResume
  | uuidNameRequest _ => .uuidNameRequest
  | uuidNameReply _ => .uuidNameReply
  | completeAgentMovement _ => .completeAgentMovement
  | agentMovementComplete _ => .agentMovementComplete
  | logoutRequest _ => .logoutRequest
  | logoutReply _ => .logoutReply
  | packetAck _ => .packetAck
  | openCircuit _ => .openCircuit
  | closeCircuit => .closeCircuit
  | unknown _ => .unknown

def empty : MessageKind → Message
  | .startPingCheck => startPingCheck {}
  | .completePingCheck => completePingCheck {}
  | .agentUpdate => agentUpdate {}
  | .improvedTerseObjectUpdate => improvedTerseObjectUpdate {}
  | .killObject => killObject {}
  | .useCircuitCode => useCircuitCode {}
  | .teleportLocationRequest => teleportLocationRequest {}
  | .chatFromViewer => chatFromViewer {}
  | .agentThrottle => agentThrottle {}
  | .alertMessage => alertMessage {}
  | .chatFromSimulator => chatFromSimulator {}
  | .regionHandshakeReply => regionHandshakeReply {}
  | .simulatorViewerTimeMessage => simulatorViewerTimeMessage {}
  | .enableSimulator => enableSimulator {}
  | .disableSimulator => disableSimulator
  | .kickUser => kickUser {}
  | .agentPause => agentPause {}
  | .agentResume => agentResume {}
  | .uuidNameRequest => uuidNameRequest {}
  | .uuidNameReply => uuidNameReply {}
  | .completeAgentMovement => completeAgentMovement {}
  | .agentMovementComplete => agentMovementComplete {}
  | .logoutRequest => logoutRequest {}
  | .logoutReply => logoutReply {}
  | .packetAck => packetAck {}
  | .openCircuit => openCircuit {}
  | .closeCircuit => closeCircuit
  | .unknown => unknown {}

theorem kind_empty (k : MessageKind) : (empty k).kind = k := by
  cases k <;> rfl

/-- Makes a message an empty one of its kind. The long fields of a message are emptied in place, all
others get their defaults; the number of an unknown message stays. -/
def clear : Message → Message
  | improvedTerseObjectUpdate m => improvedTerseObjectUpdate { objects := emptied m.objects }
  | killObject m => killObject { localIds := emptied m.localIds }
  | chatFromViewer m => chatFromViewer { message := emptiedText m.message }
  | agentThrottle m => agentThrottle { throttles := emptied m.throttles }
  | alertMessage m => alertMessage { message := emptiedText m.message }
  | chatFromSimulator m => chatFromSimulator {
      fromName := emptiedText m.fromName
      message := emptiedText m.message }
  | kickUser m => kickUser { reason := emptiedText m.reason }
  | uuidNameRequest m => uuidNameRequest { ids := emptied m.ids }
  | uuidNameReply m => uuidNameReply { entries := emptied m.entries }
  | agentMovementComplete m =>
    agentMovementComplete { channelVersion := emptiedText m.channelVersion }
  | logoutReply m => logoutReply { itemIds := emptied m.itemIds }
  | packetAck m => packetAck { ids := emptied m.ids }
  | unknown m => unknown { m with body := emptied m.body }
  | m => empty m.kind

/-- No field of a supported message survives. -/
theorem clear_eq {m : Message} (h : m.kind ≠ .unknown) : m.clear = empty m.kind := by
  cases m <;> first
    | exact absurd rfl h
    | simp only [clear, emptied_eq, emptiedText_eq, kind, empty]

def number : Message → MessageNumber
  | unknown m => m.number
  | m => m.kind.number.getD .invalid

end Message
end ViewerCircuit
