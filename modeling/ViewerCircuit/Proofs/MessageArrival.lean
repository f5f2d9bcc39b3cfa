import ViewerCircuit.Message.Format
import ViewerCircuit.Proofs.TextArrival

/-!
# How messages arrive

Every message whose lists, fields and texts fit their counts can be written, and what is written
reads as the same message. Only the two rotations of an agent update lose precision on the way.
-/
namespace ViewerCircuit

open Codec

namespace MessageNumber

/-- A canonical number is read back, whatever follows it. -/
theorem read_write {n : MessageNumber} (h : n.Canonical) (rest : Bytes) :
    read (n.write ++ rest) = (.ok n, rest) := by
  cases n with
  | high b => simp [read, write, h.1, h.2]
  | medium b =>
    have hb : b ≠ 255 := h
    simp [read, readEscaped, write, hb]
  | low w =>
    obtain ⟨a, b, hab⟩ : ∃ a b, bigEndian 2 w.toNat = [a, b] := ⟨_, _, rfl⟩
    have ha : a ≠ 0xFF := by
      intro e
      have hhigh : UInt8.ofNat (w.toNat / 256) = a := (List.cons.inj hab).1
      have hw := w.toNat_lt
      have := congrArg UInt8.toNat (hhigh.trans e)
      simp at this
      exact h (by omega)
    have hvalue : UInt16.ofNat (ofBigEndian [a, b]) = w := by
      rw [← hab, ofBigEndian_bigEndian, show span 2 = UInt16.size from rfl,
        Nat.mod_eq_of_lt w.toNat_lt, UInt16.ofNat_toNat]
    simp [read, readEscaped, readLong, write, hab, ha, hvalue]
  | fixed b => simp [read, readEscaped, readLong, write]
  | invalid => exact h.elim

theorem write_ne_nil (n : MessageNumber) : n.write ≠ [] := by
  cases n <;> simp [write]

end MessageNumber

theorem MessageKind.canonical_number {k : MessageKind} {n : MessageNumber}
    (h : k.number = some n) : n.Canonical := by
  cases k <;> simp only [number, entry, Option.some.injEq, reduceCtorEq] at h <;>
    subst h <;> simp [MessageNumber.Canonical]

/-- A number that no kind has belongs to an unknown message. -/
theorem MessageKind.ofNumber_eq_unknown {n : MessageNumber}
    (h : ∀ k : MessageKind, k.number ≠ some n) : ofNumber n = unknown := by
  have hnone : all.find? (fun k => decide (k.number = some n)) = none :=
    List.find?_eq_none.2 fun k _ => by simpa using h k
  rw [ofNumber, hnone]
  rfl

theorem StartPingCheck.carries (m : StartPingCheck) : StartPingCheck.codec.Carries m m :=
  .view ((carries_u8 _).seq (carries_u32 _)) rfl

theorem CompletePingCheck.carries (m : CompletePingCheck) :
    CompletePingCheck.codec.Carries m m :=
  .view (carries_u8 _) rfl

def AgentUpdate.arrived (m : AgentUpdate) : AgentUpdate :=
  { m with
    bodyRotation := .ofWireForm m.bodyRotation.wireForm
    headRotation := .ofWireForm m.headRotation.wireForm }

theorem AgentUpdate.carries (m : AgentUpdate) : AgentUpdate.codec.Carries m m.arrived :=
  .view ((Uuid.carries _).seq <| (Uuid.carries _).seq <| (Quat.carries _).seq <|
    (Quat.carries _).seq <| (carries_u8 _).seq <| (Vec3.carries _).seq <|
    (Vec3.carries _).seq <| (Vec3.carries _).seq <| (Vec3.carries _).seq <|
    (carries_f32 _).seq <| (carries_u32 _).seq (carries_u8 _)) rfl

theorem TerseObject.carries {o : TerseObject} (hd : o.data.length ≤ 255)
    (ht : o.textureEntry.length ≤ 65535) : TerseObject.codec.Carries o o :=
  .view ((carries_variable1 hd).seq (carries_variable2 ht)) rfl

theorem ImprovedTerseObjectUpdate.carries {m : ImprovedTerseObjectUpdate}
    (hn : m.objects.length ≤ 255)
    (ho : ∀ o ∈ m.objects, o.data.length ≤ 255 ∧ o.textureEntry.length ≤ 65535) :
    ImprovedTerseObjectUpdate.codec.Carries m m := by
  have hobjects : (block TerseObject.codec).Carries m.objects m.objects :=
    carries_block hn fun o h => TerseObject.carries (ho o h).1 (ho o h).2
  exact .view ((carries_u64 _).seq <| (carries_u16 _).seq hobjects) rfl

theorem KillObject.carries {m : KillObject} (hn : m.localIds.length ≤ 255) :
    KillObject.codec.Carries m m :=
  .view (carries_block hn fun id _ => carries_u32 id) rfl

theorem UseCircuitCode.carries (m : UseCircuitCode) : UseCircuitCode.codec.Carries m m :=
  .view ((carries_u32 _).seq <| (Uuid.carries _).seq (Uuid.carries _)) rfl

theorem TeleportLocationRequest.carries (m : TeleportLocationRequest) :
    TeleportLocationRequest.codec.Carries m m :=
  .view ((Uuid.carries _).seq <| (Uuid.carries _).seq <| (carries_u64 _).seq <|
    (Vec3.carries _).seq (Vec3.carries _)) rfl

theorem ChatFromViewer.carries {m : ChatFromViewer} (ht : Text.Fits Text.longCap m.message) :
    ChatFromViewer.codec.Carries m m :=
  .view ((Uuid.carries _).seq <| (Uuid.carries _).seq <| (Text.carries_long_of_fits ht).seq <|
    (carries_u8 _).seq (carries_i32 _)) rfl

theorem AgentThrottle.carries {m : AgentThrottle} (ht : m.throttles.length ≤ 255) :
    AgentThrottle.codec.Carries m m :=
  .view ((Uuid.carries _).seq <| (Uuid.carries _).seq <| (carries_u32 _).seq <|
    (carries_u32 _).seq (carries_variable1 ht)) rfl

theorem AlertMessage.carries {m : AlertMessage} (ht : Text.Fits Text.shortCap m.message) :
    AlertMessage.codec.Carries m m :=
  .view (Text.carries_short_of_fits ht) rfl

theorem ChatFromSimulator.carries {m : ChatFromSimulator}
    (hn : Text.Fits Text.shortCap m.fromName) (ht : Text.Fits Text.longCap m.message) :
    ChatFromSimulator.codec.Carries m m :=
  .view ((Text.carries_short_of_fits hn).seq <| (Uuid.carries _).seq <| (Uuid.carries _).seq <|
    (carries_u8 _).seq <| (carries_u8 _).seq <| (carries_u8 _).seq <|
    (Vec3.carries _).seq (Text.carries_long_of_fits ht)) rfl

theorem RegionHandshakeReply.carries (m : RegionHandshakeReply) :
    RegionHandshakeReply.codec.Carries m m :=
  .view ((Uuid.carries _).seq <| (Uuid.carries _).seq (carries_u32 _)) rfl

theorem SimulatorViewerTime.carries (m : SimulatorViewerTime) :
    SimulatorViewerTime.codec.Carries m m :=
  .view ((carries_u64 _).seq <| (carries_u32 _).seq <| (carries_u32 _).seq <|
    (Vec3.carries _).seq <| (carries_f32 _).seq (Vec3.carries _)) rfl

theorem EnableSimulator.carries (m : EnableSimulator) : EnableSimulator.codec.Carries m m :=
  .view ((carries_u64 _).seq <| (Ipv4.carries _).seq (carries_u16Big _)) rfl

theorem KickUser.carries {m : KickUser} (ht : Text.Fits Text.longCap m.reason) :
    KickUser.codec.Carries m m :=
  .view ((Ipv4.carries _).seq <| (carries_u16Big _).seq <| (Uuid.carries _).seq <|
    (Uuid.carries _).seq (Text.carries_long_of_fits ht)) rfl

theorem AgentPause.carries (m : AgentPause) : AgentPause.codec.Carries m m :=
  .view ((Uuid.carries _).seq <| (Uuid.carries _).seq (carries_u32 _)) rfl

theorem UuidNameRequest.carries {m : UuidNameRequest} (hn : m.ids.length ≤ 255) :
    UuidNameRequest.codec.Carries m m :=
  .view (carries_block hn fun id _ => Uuid.carries id) rfl

theorem UuidName.carries {n : UuidName} (hf : Text.Fits Text.shortCap n.firstName)
    (hl : Text.Fits Text.shortCap n.lastName) : UuidName.codec.Carries n n :=
  .view ((Uuid.carries _).seq <| (Text.carries_short_of_fits hf).seq
    (Text.carries_short_of_fits hl)) rfl

theorem UuidNameReply.carries {m : UuidNameReply} (hn : m.entries.length ≤ 255)
    (he : ∀ e ∈ m.entries,
      Text.Fits Text.shortCap e.firstName ∧ Text.Fits Text.shortCap e.lastName) :
    UuidNameReply.codec.Carries m m :=
  .view (carries_block hn fun e h => UuidName.carries (he e h).1 (he e h).2) rfl

theorem CompleteAgentMovement.carries (m : CompleteAgentMovement) :
    CompleteAgentMovement.codec.Carries m m :=
  .view ((Uuid.carries _).seq <| (Uuid.carries _).seq (carries_u32 _)) rfl

theorem AgentMovementComplete.carries {m : AgentMovementComplete}
    (ht : Text.Fits Text.longCap m.channelVersion) : AgentMovementComplete.codec.Carries m m :=
  .view ((Uuid.carries _).seq <| (Uuid.carries _).seq <| (Vec3.carries _).seq <|
    (Vec3.carries _).seq <| (carries_u64 _).seq <| (carries_u32 _).seq
    (Text.carries_long_of_fits ht)) rfl

theorem LogoutRequest.carries (m : LogoutRequest) : LogoutRequest.codec.Carries m m :=
  .view ((Uuid.carries _).seq (Uuid.carries _)) rfl

theorem LogoutReply.carries {m : LogoutReply} (hn : m.itemIds.length ≤ 255) :
    LogoutReply.codec.Carries m m :=
  .view ((Uuid.carries _).seq <| (Uuid.carries _).seq
    (carries_block hn fun id _ => Uuid.carries id)) rfl

theorem PacketAck.carries {m : PacketAck} (hn : m.ids.length ≤ 255) :
    PacketAck.codec.Carries m m :=
  .view (carries_block hn fun id _ => carries_u32 id) rfl

theorem OpenCircuit.carries (m : OpenCircuit) : OpenCircuit.codec.Carries m m :=
  .view ((Ipv4.carries _).seq (carries_u16Big _)) rfl

namespace Message

/-- Every list, field and text of the message fits the bytes that count it, and a message of an
unknown kind has a number that is not spoken here. -/
def Fits : Message → Prop
  | improvedTerseObjectUpdate m => m.objects.length ≤ 255 ∧
    ∀ o ∈ m.objects, o.data.length ≤ 255 ∧ o.textureEntry.length ≤ 65535
  | killObject m => m.localIds.length ≤ 255
  | chatFromViewer m => Text.Fits Text.longCap m.message
  | agentThrottle m => m.throttles.length ≤ 255
  | alertMessage m => Text.Fits Text.shortCap m.message
  | chatFromSimulator m =>
    Text.Fits Text.shortCap m.fromName ∧ Text.Fits Text.longCap m.message
  | kickUser m => Text.Fits Text.longCap m.reason
  | uuidNameRequest m => m.ids.length ≤ 255
  | uuidNameReply m => m.entries.length ≤ 255 ∧ ∀ e ∈ m.entries,
    Text.Fits Text.shortCap e.firstName ∧ Text.Fits Text.shortCap e.lastName
  | agentMovementComplete m => Text.Fits Text.longCap m.channelVersion
  | logoutReply m => m.itemIds.length ≤ 255
  | packetAck m => m.ids.length ≤ 255
  | unknown m => m.number.Canonical ∧ ∀ k : MessageKind, k.number ≠ some m.number
  | _ => True

/-- The message that is read where `m` was written. -/
def arrived : Message → Message
  | agentUpdate m => agentUpdate m.arrived
  | m => m

theorem arrives {α : Type} {c : Codec α} {v w : α} (h : c.Carries v w) (f : α → Message) :
    ∃ bytes, c.write v = .ok bytes ∧ (c.read.map f bytes).1 = .ok (f w) := by
  obtain ⟨bytes, hw, hr⟩ := h
  have whole := hr []
  rw [List.append_nil] at whole
  exact ⟨bytes, hw, by rw [Reader.map_of_eq whole]⟩

theorem body_arrives {m : Message} (h : m.Fits) :
    ∃ bytes, m.writeBody = .ok bytes ∧ (readBody m.number bytes).1 = .ok m.arrived := by
  cases m with
  | startPingCheck m => exact arrives (StartPingCheck.carries m) startPingCheck
  | completePingCheck m => exact arrives (CompletePingCheck.carries m) completePingCheck
  | agentUpdate m => exact arrives (AgentUpdate.carries m) agentUpdate
  | improvedTerseObjectUpdate m =>
    exact arrives (ImprovedTerseObjectUpdate.carries h.1 h.2) improvedTerseObjectUpdate
  | killObject m => exact arrives (KillObject.carries h) killObject
  | useCircuitCode m => exact arrives (UseCircuitCode.carries m) useCircuitCode
  | teleportLocationRequest m =>
    exact arrives (TeleportLocationRequest.carries m) teleportLocationRequest
  | chatFromViewer m => exact arrives (ChatFromViewer.carries h) chatFromViewer
  | agentThrottle m => exact arrives (AgentThrottle.carries h) agentThrottle
  | alertMessage m => exact arrives (AlertMessage.carries h) alertMessage
  | chatFromSimulator m => exact arrives (ChatFromSimulator.carries h.1 h.2) chatFromSimulator
  | regionHandshakeReply m => exact arrives (RegionHandshakeReply.carries m) regionHandshakeReply
  | simulatorViewerTimeMessage m =>
    exact arrives (SimulatorViewerTime.carries m) simulatorViewerTimeMessage
  | enableSimulator m => exact arrives (EnableSimulator.carries m) enableSimulator
  | disableSimulator => exact arrives carries_empty fun _ => disableSimulator
  | kickUser m => exact arrives (KickUser.carries h) kickUser
  | agentPause m => exact arrives (AgentPause.carries m) agentPause
  | agentResume m => exact arrives (AgentPause.carries m) agentResume
  | uuidNameRequest m => exact arrives (UuidNameRequest.carries h) uuidNameRequest
  | uuidNameReply m => exact arrives (UuidNameReply.carries h.1 h.2) uuidNameReply
  | completeAgentMovement m =>
    exact arrives (CompleteAgentMovement.carries m) completeAgentMovement
  | agentMovementComplete m => exact arrives (AgentMovementComplete.carries h) agentMovementComplete
  | logoutRequest m => exact arrives (LogoutRequest.carries m) logoutRequest
  | logoutReply m => exact arrives (LogoutReply.carries h) logoutReply
  | packetAck m => exact arrives (PacketAck.carries h) packetAck
  | openCircuit m => exact arrives (OpenCircuit.carries m) openCircuit
  | closeCircuit => exact arrives carries_empty fun _ => closeCircuit
  | unknown m =>
    refine ⟨m.body, rfl, ?_⟩
    rw [number, readBody, MessageKind.ofNumber_eq_unknown h.2]
    rfl

theorem canonical_number {m : Message} (h : m.Fits) : m.number.Canonical := by
  cases m with
  | unknown m => exact h.1
  | _ => simp [number, kind, MessageKind.number, MessageKind.entry, MessageNumber.Canonical]

/-- A message that fits is written, and read as it arrives. -/
theorem read_write {m : Message} (h : m.Fits) :
    ∃ bytes, m.write = .ok bytes ∧ bytes ≠ [] ∧ read bytes = .ok m.arrived := by
  obtain ⟨body, hw, hr⟩ := body_arrives h
  refine ⟨m.number.write ++ body, ?_, ?_, ?_⟩
  · simp [write, hw, bind, Except.bind, pure, Except.pure]
  · simp [MessageNumber.write_ne_nil]
  · rw [read, Reader.andThen_of_eq (MessageNumber.read_write (canonical_number h) body), hr]

end Message
end ViewerCircuit
