import ViewerCircuit.Message.Basic

/-!
# Viewer events

What the simulation hears about a viewer. An event is attributed to the agent whose circuit the
message came in on, whatever agent the message names.
-/
namespace ViewerCircuit

inductive ViewerEventKind where
  | chat
  | agentUpdate
  | completeMovement
  | regionHandshakeReply
  | nameRequest
  | teleportLocationRequest
  deriving DecidableEq, Repr

inductive ViewerEventBody where
  | chat (message : String) (chatType : UInt8) (channel : Int32)
  | agentUpdate (update : AgentUpdate)
  | completeMovement
  | regionHandshakeReply (flags : UInt32)
  | nameRequest (ids : List Uuid)
  | teleportLocationRequest (regionHandle : UInt64) (position lookAt : Vec3)
  deriving DecidableEq, Repr

structure ViewerEvent where
  agentId : Uuid
  body : ViewerEventBody
  deriving DecidableEq, Repr

namespace ViewerEvent

def kind (e : ViewerEvent) : ViewerEventKind :=
  match e.body with
  | .chat .. => .chat
  | .agentUpdate _ => .agentUpdate
  | .completeMovement => .completeMovement
  | .regionHandshakeReply _ => .regionHandshakeReply
  | .nameRequest _ => .nameRequest
  | .teleportLocationRequest .. => .teleportLocationRequest

def ofMessage? (agentId : Uuid) (message : Message) : Option ViewerEvent :=
  match message with
  | .chatFromViewer m => some ⟨agentId, .chat m.message m.chatType m.channel⟩
  | .agentUpdate m => some ⟨agentId, .agentUpdate m⟩
  | .completeAgentMovement _ => some ⟨agentId, .completeMovement⟩
  | .regionHandshakeReply m => some ⟨agentId, .regionHandshakeReply m.flags⟩
  | .uuidNameRequest m => some ⟨agentId, .nameRequest m.ids⟩
  | .teleportLocationRequest m =>
    some ⟨agentId, .teleportLocationRequest m.regionHandle m.position m.lookAt⟩
  | _ => none

end ViewerEvent
end ViewerCircuit
