import ViewerCircuit.Message.Basic
import ViewerCircuit.Text.Field

/-!
# Message bodies

The layout of every message body. Bytes behind a complete body are ignored, and a body that ends
before the count of its variable block has an empty block.

A program has a routine that writes a body and another one that reads it. One description stands for
both here, since both go by the same layout. Should the two routines of a message ever drift apart,
this cannot be expressed in terms of codecs, and the round trip says nothing about it.
-/
namespace ViewerCircuit

open Codec

def StartPingCheck.codec : Codec StartPingCheck :=
  (u8.seq u32).view (fun (p, o) => ⟨p, o⟩) fun m => (m.pingId, m.oldestUnacked)

def CompletePingCheck.codec : Codec CompletePingCheck := u8.view mk pingId

def AgentUpdate.codec : Codec AgentUpdate :=
  (Uuid.codec.seq <| Uuid.codec.seq <| Quat.codec.seq <| Quat.codec.seq <| u8.seq <|
    Vec3.codec.seq <| Vec3.codec.seq <| Vec3.codec.seq <| Vec3.codec.seq <| f32.seq <|
    u32.seq u8).view
    (fun (agent, session, body, head, state, center, front, left, up, far, control, flags) =>
      ⟨agent, session, body, head, state, center, front, left, up, far, control, flags⟩)
    fun m => (m.agentId, m.sessionId, m.bodyRotation, m.headRotation, m.state, m.cameraCenter,
      m.cameraAtAxis, m.cameraLeftAxis, m.cameraUpAxis, m.far, m.controlFlags, m.flags)

def TerseObject.codec : Codec TerseObject :=
  (variable1.seq variable2).view (fun (d, t) => ⟨d, t⟩) fun o => (o.data, o.textureEntry)

def ImprovedTerseObjectUpdate.codec : Codec ImprovedTerseObjectUpdate :=
  (u64.seq <| u16.seq (block TerseObject.codec)).view (fun (r, t, o) => ⟨r, t, o⟩)
    fun m => (m.regionHandle, m.timeDilation, m.objects)

def KillObject.codec : Codec KillObject := (block u32).view mk localIds

def UseCircuitCode.codec : Codec UseCircuitCode :=
  (u32.seq <| Uuid.codec.seq Uuid.codec).view (fun (c, s, a) => ⟨c, s, a⟩)
    fun m => (m.code, m.sessionId, m.agentId)

def TeleportLocationRequest.codec : Codec TeleportLocationRequest :=
  (Uuid.codec.seq <| Uuid.codec.seq <| u64.seq <| Vec3.codec.seq Vec3.codec).view
    (fun (a, s, r, p, l) => ⟨a, s, r, p, l⟩)
    fun m => (m.agentId, m.sessionId, m.regionHandle, m.position, m.lookAt)

def ChatFromViewer.codec : Codec ChatFromViewer :=
  (Uuid.codec.seq <| Uuid.codec.seq <| Text.longCodec.seq <| u8.seq i32).view
    (fun (a, s, t, k, c) => ⟨a, s, t, k, c⟩)
    fun m => (m.agentId, m.sessionId, m.message, m.chatType, m.channel)

def AgentThrottle.codec : Codec AgentThrottle :=
  (Uuid.codec.seq <| Uuid.codec.seq <| u32.seq <| u32.seq variable1).view
    (fun (a, s, c, g, t) => ⟨a, s, c, g, t⟩)
    fun m => (m.agentId, m.sessionId, m.circuitCode, m.genCounter, m.throttles)

def AlertMessage.codec : Codec AlertMessage := Text.shortCodec.view mk message

def ChatFromSimulator.codec : Codec ChatFromSimulator :=
  (Text.shortCodec.seq <| Uuid.codec.seq <| Uuid.codec.seq <| u8.seq <| u8.seq <| u8.seq <|
    Vec3.codec.seq Text.longCodec).view
    (fun (n, s, o, st, ct, a, p, t) => ⟨n, s, o, st, ct, a, p, t⟩)
    fun m => (m.fromName, m.sourceId, m.ownerId, m.sourceType, m.chatType, m.audible, m.position,
      m.message)

def RegionHandshakeReply.codec : Codec RegionHandshakeReply :=
  (Uuid.codec.seq <| Uuid.codec.seq u32).view (fun (a, s, f) => ⟨a, s, f⟩)
    fun m => (m.agentId, m.sessionId, m.flags)

def SimulatorViewerTime.codec : Codec SimulatorViewerTime :=
  (u64.seq <| u32.seq <| u32.seq <| Vec3.codec.seq <| f32.seq Vec3.codec).view
    (fun (u, d, y, s, p, v) => ⟨u, d, y, s, p, v⟩)
    fun m => (m.usecSinceStart, m.secPerDay, m.secPerYear, m.sunDirection, m.sunPhase,
      m.sunAngVelocity)

def EnableSimulator.codec : Codec EnableSimulator :=
  (u64.seq <| Ipv4.codec.seq u16Big).view (fun (r, i, p) => ⟨r, i, p⟩)
    fun m => (m.regionHandle, m.ip, m.port)

def KickUser.codec : Codec KickUser :=
  (Ipv4.codec.seq <| u16Big.seq <| Uuid.codec.seq <| Uuid.codec.seq Text.longCodec).view
    (fun (i, p, a, s, r) => ⟨i, p, a, s, r⟩)
    fun m => (m.targetIp, m.targetPort, m.agentId, m.sessionId, m.reason)

def AgentPause.codec : Codec AgentPause :=
  (Uuid.codec.seq <| Uuid.codec.seq u32).view (fun (a, s, n) => ⟨a, s, n⟩)
    fun m => (m.agentId, m.sessionId, m.serialNum)

def UuidNameRequest.codec : Codec UuidNameRequest := (block Uuid.codec).view mk ids

def UuidName.codec : Codec UuidName :=
  (Uuid.codec.seq <| Text.shortCodec.seq Text.shortCodec).view (fun (i, f, l) => ⟨i, f, l⟩)
    fun n => (n.id, n.firstName, n.lastName)

def UuidNameReply.codec : Codec UuidNameReply := (block UuidName.codec).view mk entries

def CompleteAgentMovement.codec : Codec CompleteAgentMovement :=
  (Uuid.codec.seq <| Uuid.codec.seq u32).view (fun (a, s, c) => ⟨a, s, c⟩)
    fun m => (m.agentId, m.sessionId, m.circuitCode)

def AgentMovementComplete.codec : Codec AgentMovementComplete :=
  (Uuid.codec.seq <| Uuid.codec.seq <| Vec3.codec.seq <| Vec3.codec.seq <| u64.seq <|
    u32.seq Text.longCodec).view
    (fun (a, s, p, l, r, t, v) => ⟨a, s, p, l, r, t, v⟩)
    fun m => (m.agentId, m.sessionId, m.position, m.lookAt, m.regionHandle, m.timestamp,
      m.channelVersion)

def LogoutRequest.codec : Codec LogoutRequest :=
  (Uuid.codec.seq Uuid.codec).view (fun (a, s) => ⟨a, s⟩) fun m => (m.agentId, m.sessionId)

def LogoutReply.codec : Codec LogoutReply :=
  (Uuid.codec.seq <| Uuid.codec.seq (block Uuid.codec)).view (fun (a, s, i) => ⟨a, s, i⟩)
    fun m => (m.agentId, m.sessionId, m.itemIds)

def PacketAck.codec : Codec PacketAck := (block u32).view mk ids

def OpenCircuit.codec : Codec OpenCircuit :=
  (Ipv4.codec.seq u16Big).view (fun (i, p) => ⟨i, p⟩) fun m => (m.ip, m.port)

namespace Message

def writeBody : Message → Except EncodeError Bytes
  | startPingCheck m => StartPingCheck.codec.write m
  | completePingCheck m => CompletePingCheck.codec.write m
  | agentUpdate m => AgentUpdate.codec.write m
  | improvedTerseObjectUpdate m => ImprovedTerseObjectUpdate.codec.write m
  | killObject m => KillObject.codec.write m
  | useCircuitCode m => UseCircuitCode.codec.write m
  | teleportLocationRequest m => TeleportLocationRequest.codec.write m
  | chatFromViewer m => ChatFromViewer.codec.write m
  | agentThrottle m => AgentThrottle.codec.write m
  | alertMessage m => AlertMessage.codec.write m
  | chatFromSimulator m => ChatFromSimulator.codec.write m
  | regionHandshakeReply m => RegionHandshakeReply.codec.write m
  | simulatorViewerTimeMessage m => SimulatorViewerTime.codec.write m
  | enableSimulator m => EnableSimulator.codec.write m
  | disableSimulator => .ok []
  | kickUser m => KickUser.codec.write m
  | agentPause m => AgentPause.codec.write m
  | agentResume m => AgentPause.codec.write m
  | uuidNameRequest m => UuidNameRequest.codec.write m
  | uuidNameReply m => UuidNameReply.codec.write m
  | completeAgentMovement m => CompleteAgentMovement.codec.write m
  | agentMovementComplete m => AgentMovementComplete.codec.write m
  | logoutRequest m => LogoutRequest.codec.write m
  | logoutReply m => LogoutReply.codec.write m
  | packetAck m => PacketAck.codec.write m
  | openCircuit m => OpenCircuit.codec.write m
  | closeCircuit => .ok []
  | unknown m => .ok m.body

def readBody (number : MessageNumber) : Reader Message :=
  match MessageKind.ofNumber number with
  | .startPingCheck => StartPingCheck.codec.read.map startPingCheck
  | .completePingCheck => CompletePingCheck.codec.read.map completePingCheck
  | .agentUpdate => AgentUpdate.codec.read.map agentUpdate
  | .improvedTerseObjectUpdate => ImprovedTerseObjectUpdate.codec.read.map improvedTerseObjectUpdate
  | .killObject => KillObject.codec.read.map killObject
  | .useCircuitCode => UseCircuitCode.codec.read.map useCircuitCode
  | .teleportLocationRequest => TeleportLocationRequest.codec.read.map teleportLocationRequest
  | .chatFromViewer => ChatFromViewer.codec.read.map chatFromViewer
  | .agentThrottle => AgentThrottle.codec.read.map agentThrottle
  | .alertMessage => AlertMessage.codec.read.map alertMessage
  | .chatFromSimulator => ChatFromSimulator.codec.read.map chatFromSimulator
  | .regionHandshakeReply => RegionHandshakeReply.codec.read.map regionHandshakeReply
  | .simulatorViewerTimeMessage => SimulatorViewerTime.codec.read.map simulatorViewerTimeMessage
  | .enableSimulator => EnableSimulator.codec.read.map enableSimulator
  | .disableSimulator => Codec.empty.read.map fun _ => disableSimulator
  | .kickUser => KickUser.codec.read.map kickUser
  | .agentPause => AgentPause.codec.read.map agentPause
  | .agentResume => AgentPause.codec.read.map agentResume
  | .uuidNameRequest => UuidNameRequest.codec.read.map uuidNameRequest
  | .uuidNameReply => UuidNameReply.codec.read.map uuidNameReply
  | .completeAgentMovement => CompleteAgentMovement.codec.read.map completeAgentMovement
  | .agentMovementComplete => AgentMovementComplete.codec.read.map agentMovementComplete
  | .logoutRequest => LogoutRequest.codec.read.map logoutRequest
  | .logoutReply => LogoutReply.codec.read.map logoutReply
  | .packetAck => PacketAck.codec.read.map packetAck
  | .openCircuit => OpenCircuit.codec.read.map openCircuit
  | .closeCircuit => Codec.empty.read.map fun _ => closeCircuit
  | .unknown => Codec.remainder.read.map fun body => unknown ⟨number, body⟩

def write (m : Message) : Except EncodeError Bytes := do
  return m.number.write ++ (← m.writeBody)

/-- Reads the number and the body; what follows the body is ignored. -/
def read (bytes : Bytes) : Except DecodeError Message :=
  (MessageNumber.read.andThen readBody bytes).1

end Message
end ViewerCircuit
