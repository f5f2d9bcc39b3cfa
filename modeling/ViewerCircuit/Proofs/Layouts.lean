import ViewerCircuit.Message.Format

/-!
# Layouts

Every message body is put together from the same few fields. Its layout says how, as a tree, and
what holds of all bodies is an induction over that tree. Only rotations lose bits on the way.
-/
namespace ViewerCircuit

inductive Codec.Layout : {α : Type} → Codec α → Type 1
  | little {α : Type} {width : Nat} {toNat : α → Nat} {ofNat : Nat → α}
    (h : ∀ v, ofNat (toNat v % span width) = v) : Layout (little width toNat ofNat)
  | big {α : Type} {width : Nat} {toNat : α → Nat} {ofNat : Nat → α}
    (h : ∀ v, ofNat (toNat v % span width) = v) : Layout (big width toNat ofNat)
  | counted (width : Nat) : Layout (counted width)
  | shortText : Layout Text.shortCodec
  | longText : Layout Text.longCodec
  | rotation (parts : Layout Vec3.codec) : Layout Quat.codec
  | nothing : Layout empty
  | seq {α β : Type} {a : Codec α} {b : Codec β} (first : Layout a) (second : Layout b) :
    Layout (a.seq b)
  | view {α β : Type} {c : Codec α} {ofParts : α → β} {toParts : β → α} (parts : Layout c)
    (h : ∀ x, toParts (ofParts x) = x) : Layout (c.view ofParts toParts)
  | block {α : Type} {c : Codec α} (entry : Layout c) : Layout (block c)

namespace Codec.Layout

/-- No field loses bits. -/
def isExact {α : Type} {c : Codec α} : Layout c → Bool
  | rotation _ => false
  | seq first second => first.isExact && second.isExact
  | view parts _ => parts.isExact
  | block entry => entry.isExact
  | _ => true

def u8 : Layout Codec.u8 :=
  .little fun v => by
    rw [show span 1 = UInt8.size from rfl, Nat.mod_eq_of_lt v.toNat_lt, UInt8.ofNat_toNat]

def u16 : Layout Codec.u16 :=
  .little fun v => by
    rw [show span 2 = UInt16.size from rfl, Nat.mod_eq_of_lt v.toNat_lt, UInt16.ofNat_toNat]

def u32 : Layout Codec.u32 :=
  .little fun v => by
    rw [show span 4 = UInt32.size from rfl, Nat.mod_eq_of_lt v.toNat_lt, UInt32.ofNat_toNat]

def u64 : Layout Codec.u64 :=
  .little fun v => by
    rw [show span 8 = UInt64.size from rfl, Nat.mod_eq_of_lt v.toNat_lt, UInt64.ofNat_toNat]

def u16Big : Layout Codec.u16Big :=
  .big fun v => by
    rw [show span 2 = UInt16.size from rfl, Nat.mod_eq_of_lt v.toNat_lt, UInt16.ofNat_toNat]

def u32Big : Layout Codec.u32Big :=
  .big fun v => by
    rw [show span 4 = UInt32.size from rfl, Nat.mod_eq_of_lt v.toNat_lt, UInt32.ofNat_toNat]

def i32 : Layout Codec.i32 := .view u32 UInt32.toUInt32_toInt32

def f32 : Layout Codec.f32 := .view u32 fun _ => rfl

end Codec.Layout

open Codec.Layout

def Uuid.layout : Codec.Layout Uuid.codec :=
  .big fun id => by
    have hlt : id.toNat < span 16 := id.value.isLt
    rw [Nat.mod_eq_of_lt hlt]
    simp [Uuid.ofNat, Uuid.toNat]

def Ipv4.layout : Codec.Layout Ipv4.codec := .view u32Big fun _ => rfl

def Vec3.layout : Codec.Layout Vec3.codec := .view (.seq f32 (.seq f32 f32)) fun _ => rfl

def Quat.layout : Codec.Layout Quat.codec := .rotation Vec3.layout

def StartPingCheck.layout : Codec.Layout StartPingCheck.codec := .view (.seq u8 u32) fun _ => rfl

def CompletePingCheck.layout : Codec.Layout CompletePingCheck.codec := .view u8 fun _ => rfl

def AgentUpdate.layout : Codec.Layout AgentUpdate.codec :=
  .view (.seq Uuid.layout <| .seq Uuid.layout <| .seq Quat.layout <| .seq Quat.layout <|
    .seq u8 <| .seq Vec3.layout <| .seq Vec3.layout <| .seq Vec3.layout <| .seq Vec3.layout <|
    .seq f32 <| .seq u32 u8) fun _ => rfl

def TerseObject.layout : Codec.Layout TerseObject.codec :=
  .view (.seq (counted 1) (counted 2)) fun _ => rfl

def ImprovedTerseObjectUpdate.layout : Codec.Layout ImprovedTerseObjectUpdate.codec :=
  .view (.seq u64 <| .seq u16 (.block TerseObject.layout)) fun _ => rfl

def KillObject.layout : Codec.Layout KillObject.codec := .view (.block u32) fun _ => rfl

def UseCircuitCode.layout : Codec.Layout UseCircuitCode.codec :=
  .view (.seq u32 <| .seq Uuid.layout Uuid.layout) fun _ => rfl

def TeleportLocationRequest.layout : Codec.Layout TeleportLocationRequest.codec :=
  .view (.seq Uuid.layout <| .seq Uuid.layout <| .seq u64 <| .seq Vec3.layout Vec3.layout)
    fun _ => rfl

def ChatFromViewer.layout : Codec.Layout ChatFromViewer.codec :=
  .view (.seq Uuid.layout <| .seq Uuid.layout <| .seq longText <| .seq u8 i32) fun _ => rfl

def AgentThrottle.layout : Codec.Layout AgentThrottle.codec :=
  .view (.seq Uuid.layout <| .seq Uuid.layout <| .seq u32 <| .seq u32 (counted 1)) fun _ => rfl

def AlertMessage.layout : Codec.Layout AlertMessage.codec := .view shortText fun _ => rfl

def ChatFromSimulator.layout : Codec.Layout ChatFromSimulator.codec :=
  .view (.seq shortText <| .seq Uuid.layout <| .seq Uuid.layout <| .seq u8 <| .seq u8 <|
    .seq u8 <| .seq Vec3.layout longText) fun _ => rfl

def RegionHandshakeReply.layout : Codec.Layout RegionHandshakeReply.codec :=
  .view (.seq Uuid.layout <| .seq Uuid.layout u32) fun _ => rfl

def SimulatorViewerTime.layout : Codec.Layout SimulatorViewerTime.codec :=
  .view (.seq u64 <| .seq u32 <| .seq u32 <| .seq Vec3.layout <| .seq f32 Vec3.layout)
    fun _ => rfl

def EnableSimulator.layout : Codec.Layout EnableSimulator.codec :=
  .view (.seq u64 <| .seq Ipv4.layout u16Big) fun _ => rfl

def KickUser.layout : Codec.Layout KickUser.codec :=
  .view (.seq Ipv4.layout <| .seq u16Big <| .seq Uuid.layout <| .seq Uuid.layout longText)
    fun _ => rfl

def AgentPause.layout : Codec.Layout AgentPause.codec :=
  .view (.seq Uuid.layout <| .seq Uuid.layout u32) fun _ => rfl

def UuidNameRequest.layout : Codec.Layout UuidNameRequest.codec :=
  .view (.block Uuid.layout) fun _ => rfl

def UuidName.layout : Codec.Layout UuidName.codec :=
  .view (.seq Uuid.layout <| .seq shortText shortText) fun _ => rfl

def UuidNameReply.layout : Codec.Layout UuidNameReply.codec :=
  .view (.block UuidName.layout) fun _ => rfl

def CompleteAgentMovement.layout : Codec.Layout CompleteAgentMovement.codec :=
  .view (.seq Uuid.layout <| .seq Uuid.layout u32) fun _ => rfl

def AgentMovementComplete.layout : Codec.Layout AgentMovementComplete.codec :=
  .view (.seq Uuid.layout <| .seq Uuid.layout <| .seq Vec3.layout <| .seq Vec3.layout <|
    .seq u64 <| .seq u32 longText) fun _ => rfl

def LogoutRequest.layout : Codec.Layout LogoutRequest.codec :=
  .view (.seq Uuid.layout Uuid.layout) fun _ => rfl

def LogoutReply.layout : Codec.Layout LogoutReply.codec :=
  .view (.seq Uuid.layout <| .seq Uuid.layout (.block Uuid.layout)) fun _ => rfl

def PacketAck.layout : Codec.Layout PacketAck.codec := .view (.block u32) fun _ => rfl

def OpenCircuit.layout : Codec.Layout OpenCircuit.codec :=
  .view (.seq Ipv4.layout u16Big) fun _ => rfl

namespace Message

structure Body (kind : MessageKind) where
  {Parts : Type}
  {codec : Codec Parts}
  layout : Codec.Layout codec
  ofParts : Parts → Message
  read_eq : ∀ n, MessageKind.ofNumber n = kind → readBody n = codec.read.map ofParts := by
    intro n h
    simp only [readBody, h]
  write_eq : ∀ v, (ofParts v).writeBody = codec.write v := by
    intro v
    rfl
  kind_eq : ∀ v, (ofParts v).kind = kind := by
    intro v
    rfl

def body? : (kind : MessageKind) → Option (Body kind)
  | .startPingCheck => some { layout := StartPingCheck.layout, ofParts := startPingCheck }
  | .completePingCheck => some { layout := CompletePingCheck.layout, ofParts := completePingCheck }
  | .agentUpdate => some { layout := AgentUpdate.layout, ofParts := agentUpdate }
  | .improvedTerseObjectUpdate => some {
      layout := ImprovedTerseObjectUpdate.layout, ofParts := improvedTerseObjectUpdate }
  | .killObject => some { layout := KillObject.layout, ofParts := killObject }
  | .useCircuitCode => some { layout := UseCircuitCode.layout, ofParts := useCircuitCode }
  | .teleportLocationRequest => some {
      layout := TeleportLocationRequest.layout, ofParts := teleportLocationRequest }
  | .chatFromViewer => some { layout := ChatFromViewer.layout, ofParts := chatFromViewer }
  | .agentThrottle => some { layout := AgentThrottle.layout, ofParts := agentThrottle }
  | .alertMessage => some { layout := AlertMessage.layout, ofParts := alertMessage }
  | .chatFromSimulator => some {
      layout := ChatFromSimulator.layout, ofParts := chatFromSimulator }
  | .regionHandshakeReply => some {
      layout := RegionHandshakeReply.layout, ofParts := regionHandshakeReply }
  | .simulatorViewerTimeMessage => some {
      layout := SimulatorViewerTime.layout, ofParts := simulatorViewerTimeMessage }
  | .enableSimulator => some { layout := EnableSimulator.layout, ofParts := enableSimulator }
  | .disableSimulator => some { layout := nothing, ofParts := fun _ => disableSimulator }
  | .kickUser => some { layout := KickUser.layout, ofParts := kickUser }
  | .agentPause => some { layout := AgentPause.layout, ofParts := agentPause }
  | .agentResume => some { layout := AgentPause.layout, ofParts := agentResume }
  | .uuidNameRequest => some { layout := UuidNameRequest.layout, ofParts := uuidNameRequest }
  | .uuidNameReply => some { layout := UuidNameReply.layout, ofParts := uuidNameReply }
  | .completeAgentMovement => some {
      layout := CompleteAgentMovement.layout, ofParts := completeAgentMovement }
  | .agentMovementComplete => some {
      layout := AgentMovementComplete.layout, ofParts := agentMovementComplete }
  | .logoutRequest => some { layout := LogoutRequest.layout, ofParts := logoutRequest }
  | .logoutReply => some { layout := LogoutReply.layout, ofParts := logoutReply }
  | .packetAck => some { layout := PacketAck.layout, ofParts := packetAck }
  | .openCircuit => some { layout := OpenCircuit.layout, ofParts := openCircuit }
  | .closeCircuit => some { layout := nothing, ofParts := fun _ => closeCircuit }
  | .unknown => none

/-- The body of an unknown message is whatever follows its number. -/
theorem body?_eq_none {kind : MessageKind} : body? kind = none ↔ kind = .unknown := by
  cases kind <;> simp [body?]

/-- Only updates of agents have rotations. -/
theorem isExact_of_body {kind : MessageKind} {body : Body kind} (h : body? kind = some body)
    (hk : kind ≠ .agentUpdate) : body.layout.isExact = true := by
  cases kind with
  | agentUpdate => exact absurd rfl hk
  | unknown => cases h
  | _ =>
    obtain rfl := Option.some.inj h
    rfl

end Message
end ViewerCircuit
