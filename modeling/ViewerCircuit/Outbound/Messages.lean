import ViewerCircuit.Outbound.Batch
import ViewerCircuit.Outbound.Terse
import ViewerCircuit.Pool.Packets
import ViewerCircuit.Text.Field
import ViewerCircuit.Throttle.Category

/-!
# Outbound messages

What the simulation says to a viewer, as messages. Long lists become several messages, each of
which fits a packet; every message comes with its reliability and with the budget that pays for it.
-/
namespace ViewerCircuit

structure Draft where
  message : Message
  reliable : Bool
  category : Category
  deriving DecidableEq, Repr

namespace Draft

def issue (d : Draft) (pool : PacketPool) : Packet × PacketPool :=
  let (p, pool) := pool.drawFor d.message
  (if d.reliable then p.withReliable true else p, pool)

def issueAll : List Draft → PacketPool → List (Packet × Category) × PacketPool
  | [], pool => ([], pool)
  | d :: rest, pool =>
    let (p, pool) := d.issue pool
    let (ps, pool) := issueAll rest pool
    ((p, d.category) :: ps, pool)

end Draft

namespace Outbound

def acks (ids : List UInt32) : Draft := ⟨.packetAck { ids }, false, .unknown⟩

def startPing (pingId : UInt8) (oldestUnacked : UInt32) : Draft :=
  ⟨.startPingCheck { pingId, oldestUnacked }, false, .unknown⟩

def completePing (pingId : UInt8) : Draft := ⟨.completePingCheck { pingId }, false, .unknown⟩

def alert (message : String) : Draft := ⟨.alertMessage { message }, true, .task⟩

def chat (line : ChatFromSimulator) : Draft := ⟨.chatFromSimulator line, true, .task⟩

def kick (m : KickUser) : Draft := ⟨.kickUser m, true, .task⟩

def disableSimulator : Draft := ⟨.disableSimulator, false, .unknown⟩

def enableSimulator (m : EnableSimulator) : Draft := ⟨.enableSimulator m, true, .unknown⟩

def logoutReply (agentId sessionId : Uuid) : Draft :=
  ⟨.logoutReply { agentId, sessionId }, true, .unknown⟩

def movementComplete (m : AgentMovementComplete) : Draft :=
  ⟨.agentMovementComplete m, true, .unknown⟩

def viewerTime (m : SimulatorViewerTime) : Draft :=
  ⟨.simulatorViewerTimeMessage m, false, .task⟩

def killObjects (maxPacketSize : Nat) (localIds : List UInt32) : List Draft :=
  (batches (entryRoom maxPacketSize .killObject 1) (fun _ => 4) localIds).map fun ids =>
    ⟨.killObject ⟨ids⟩, true, .task⟩

def nameLength (n : UuidName) : Nat :=
  16 + Text.shortLength n.firstName + Text.shortLength n.lastName

def names (maxPacketSize : Nat) (entries : List UuidName) : List Draft :=
  (batches (entryRoom maxPacketSize .uuidNameReply 1) nameLength entries).map fun entries =>
    ⟨.uuidNameReply ⟨entries⟩, true, .task⟩

def objectLength (o : TerseObject) : Nat := 1 + o.data.length + 2 + o.textureEntry.length

def terse (maxPacketSize : Nat) (regionHandle : UInt64) (timeDilation : F32)
    (objects : List TerseObject) : List Draft :=
  let dilation := ((Range.mk 0 1).quantize? timeDilation).getD 0
  (batches (entryRoom maxPacketSize .improvedTerseObjectUpdate 11) objectLength objects).map
    fun objects => ⟨.improvedTerseObjectUpdate ⟨regionHandle, dilation, objects⟩, false, .task⟩

def terseAvatars (maxPacketSize : Nat) (regionHandle : UInt64) (timeDilation : F32)
    (avatars : List Movement) : List Draft :=
  terse maxPacketSize regionHandle timeDilation (avatars.map fun a => ⟨a.block true, []⟩)

def tersePrims (maxPacketSize : Nat) (regionHandle : UInt64) (timeDilation : F32)
    (prims : List (Movement × Bytes)) : List Draft :=
  terse maxPacketSize regionHandle timeDilation
    (prims.map fun (u, textureEntry) => ⟨u.block false, textureEntry⟩)

end Outbound

inductive Notice where
  | acks (ids : List UInt32)
  | completePing (pingId : UInt8)
  | alert (message : String)
  | chat (line : ChatFromSimulator)
  | kick (reason : String)
  | logoutReply
  | disableSimulator
  | enableSimulator (m : EnableSimulator)
  | movementComplete (lookAt : Vec3) (regionHandle : UInt64) (timestamp : UInt32)
      (channelVersion : String)
  | terseAvatars (regionHandle : UInt64) (timeDilation : F32) (avatars : List Movement)
  | tersePrims (regionHandle : UInt64) (timeDilation : F32) (prims : List (Movement × Bytes))
  | killObjects (localIds : List UInt32)
  | names (entries : List UuidName)
  | viewerTime (m : SimulatorViewerTime)
  deriving DecidableEq, Repr

end ViewerCircuit
