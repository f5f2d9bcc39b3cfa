import ViewerCircuit.Proofs.NumberCode
import ViewerCircuit.Proofs.PacketArrival
import ViewerCircuit.Proofs.StrictReading

/-!
# Reencoding

Readers accept more than writers produce: undefined flags, split runs of zeros, blocks that are
left out, bytes behind the body, ill-formed and overlong text. Whatever was read can be written,
and after one round it is written in the same way again.
-/
namespace ViewerCircuit

namespace Reader

theorem length_of_fixed {width : Nat} {input bytes rest : Bytes}
    (h : fixed width input = (.ok bytes, rest)) : bytes.length = width := by
  unfold fixed at h
  split at h
  · cases h
  · next hw =>
    cases h
    rw [List.length_take]
    omega

theorem length_of_field {length : Nat} {input bytes rest : Bytes}
    (h : field length input = (.ok bytes, rest)) : bytes.length = length := by
  unfold field at h
  split at h
  · cases h
  · next hw =>
    cases h
    rw [List.length_take]
    omega

end Reader

namespace Codec

variable {α β : Type}

/-- What is written of `v` is read as `w`. If no bits are lost, `w` is written as `v` is. -/
structure Settles (c : Codec α) (exact : Bool) (v w : α) : Prop where
  carries : c.Carries v w
  again : exact = true → c.write w = c.write v

theorem settles_of_carries {c : Codec α} {exact : Bool} {v : α} (h : c.Carries v v) :
    c.Settles exact v v :=
  ⟨h, fun _ => rfl⟩

theorem Settles.seq {a : Codec α} {b : Codec β} {first second : Bool} {v w : α} {x y : β}
    (ha : a.Settles first v w) (hb : b.Settles second x y) :
    (a.seq b).Settles (first && second) (v, x) (w, y) := by
  refine ⟨ha.carries.seq hb.carries, ?_⟩
  intro h
  obtain ⟨hf, hs⟩ := Bool.and_eq_true_iff.1 h
  simp only [Codec.seq, ha.again hf, hb.again hs]

theorem Settles.view {c : Codec α} {exact : Bool} {ofParts : α → β} {toParts : β → α}
    (hparts : ∀ x, toParts (ofParts x) = x) {v w : α} (h : c.Settles exact v w) :
    (c.view ofParts toParts).Settles exact (ofParts v) (ofParts w) := by
  constructor
  · exact Carries.view (by rw [hparts]; exact h.carries) rfl
  · intro he
    simp only [Codec.view, hparts, h.again he]

theorem writeAll_congr {c : Codec α} {vs ws : List α}
    (h : List.Forall₂ (fun v w => c.write w = c.write v) vs ws) :
    writeAll c ws = writeAll c vs := by
  induction h with
  | nil => rfl
  | cons hv _ ih => simp only [writeAll, hv, ih]

theorem settles_block {c : Codec α} {exact : Bool} {vs ws : List α} (hn : vs.length ≤ 255)
    (h : List.Forall₂ (c.Settles exact) vs ws) : (block c).Settles exact vs ws := by
  constructor
  · exact carries_entries hn (h.imp fun _ _ hv => hv.carries)
  · intro he
    simp only [block, h.length_eq, writeAll_congr (h.imp fun _ _ hv => hv.again he)]

theorem replicate_settles {c : Codec α} {exact : Bool}
    (hc : ∀ {input v rest}, c.read input = (.ok v, rest) → ∃ w, c.Settles exact v w)
    {n : Nat} {input rest : Bytes} {vs : List α}
    (h : c.read.replicate n input = (.ok vs, rest)) :
    vs.length = n ∧ ∃ ws, List.Forall₂ (c.Settles exact) vs ws := by
  induction n generalizing input vs with
  | zero =>
    cases h
    exact ⟨rfl, [], .nil⟩
  | succ n ih =>
    obtain ⟨v, behind, hv, hrest⟩ := Reader.andThen_ok h
    obtain ⟨others, hothers, rfl⟩ := Reader.map_ok hrest
    obtain ⟨w, hw⟩ := hc hv
    obtain ⟨hlen, ws, hws⟩ := ih hothers
    exact ⟨congrArg (· + 1) hlen, w :: ws, .cons hw hws⟩

theorem readBlockCount_le {input rest : Bytes} {count : Nat}
    (h : readBlockCount input = (.ok count, rest)) : count ≤ 255 := by
  cases input with
  | nil =>
    cases h
    exact Nat.zero_le _
  | cons b input =>
    cases h
    exact Nat.le_of_lt_succ b.toNat_lt

end Codec

namespace Text

open Codec

theorem settles_text {text : Codec String} {bytes : Codec Bytes} {cap : Nat}
    {exact : Bool} {s : String} (hr : text.read = bytes.read.map ofField)
    (hw : ∀ s, text.write s = bytes.write (terminated cap s))
    (hc : ∀ s, text.Carries s (received cap s)) {input rest : Bytes}
    (h : text.read input = (.ok s, rest)) : text.Settles exact s (received cap s) := by
  rw [hr] at h
  obtain ⟨field, -, rfl⟩ := Reader.map_ok h
  refine ⟨hc _, ?_⟩
  intro _
  rw [hw, hw, terminated_received (nul_not_mem_ofField field)]

theorem settles_short {exact : Bool} {input rest : Bytes} {s : String}
    (h : shortCodec.read input = (.ok s, rest)) :
    shortCodec.Settles exact s (received shortCap s) := by
  have hr : shortCodec.read = variable1.read.map ofField := by simp only [shortCodec]
  have hw : ∀ s, shortCodec.write s = variable1.write (terminated shortCap s) := by
    intro s
    simp only [shortCodec]
  exact settles_text hr hw carries_short h

theorem settles_long {exact : Bool} {input rest : Bytes} {s : String}
    (h : longCodec.read input = (.ok s, rest)) :
    longCodec.Settles exact s (received longCap s) := by
  have hr : longCodec.read = variable2.read.map ofField := by simp only [longCodec]
  exact settles_text hr writeLong_longCap carries_long h

end Text

/-- Whatever a reader accepts settles after one round. -/
theorem Codec.Layout.settles {α : Type} {c : Codec α} (l : Layout c) {input rest : Bytes} {v : α}
    (h : c.read input = (.ok v, rest)) : ∃ w, c.Settles l.isExact v w := by
  induction l generalizing input rest with
  | little hv => exact ⟨v, settles_of_carries (carries_little (hv v))⟩
  | big hv => exact ⟨v, settles_of_carries (carries_big (hv v))⟩
  | counted width =>
    obtain ⟨length, behind, hlength, hfield⟩ := Reader.andThen_ok h
    have hlt := ofLittleEndian_lt length
    rw [Reader.length_of_fixed hlength, ← Reader.length_of_field hfield] at hlt
    exact ⟨v, settles_of_carries (carries_counted hlt)⟩
  | shortText => exact ⟨_, Text.settles_short h⟩
  | longText => exact ⟨_, Text.settles_long h⟩
  | rotation parts => exact ⟨_, Quat.carries v, fun he => Bool.noConfusion he⟩
  | nothing => exact ⟨(), settles_of_carries carries_empty⟩
  | seq first second ihf ihs =>
    obtain ⟨x, behind, hx, hrest⟩ := Reader.andThen_ok h
    obtain ⟨y, hy, rfl⟩ := Reader.map_ok hrest
    obtain ⟨x', hx'⟩ := ihf hx
    obtain ⟨y', hy'⟩ := ihs hy
    exact ⟨(x', y'), hx'.seq hy'⟩
  | view parts hparts ih =>
    obtain ⟨x, hx, rfl⟩ := Reader.map_ok h
    obtain ⟨x', hx'⟩ := ih hx
    exact ⟨_, hx'.view hparts⟩
  | block entry ih =>
    obtain ⟨count, behind, hcount, hentries⟩ := Reader.andThen_ok h
    obtain ⟨hlen, ws, hws⟩ := replicate_settles (fun hv => ih hv) hentries
    exact ⟨ws, settles_block (hlen ▸ readBlockCount_le hcount) hws⟩

/-- A number that is spoken here is the number of its kind. -/
theorem MessageKind.number_ofNumber {n : MessageNumber} (h : ofNumber n ≠ unknown) :
    (ofNumber n).number = some n := by
  unfold ofNumber at h ⊢
  cases hf : all.find? (·.number = some n) with
  | none => exact absurd (by rw [hf]; rfl) h
  | some k => simpa using List.find?_some hf

namespace Message

theorem number_of_kind {m : Message} {n : MessageNumber} (hk : m.kind = MessageKind.ofNumber n)
    (hu : m.kind ≠ .unknown) : m.number = n := by
  have hn := MessageKind.number_ofNumber (hk ▸ hu)
  rw [← hk] at hn
  cases m with
  | unknown m => exact absurd rfl hu
  | _ => exact congrArg (Option.getD · .invalid) hn

/-- A message that was read can be written, and settles. -/
theorem read_settles {bytes : Bytes} {m : Message} (h : read bytes = .ok m) :
    ∃ plain w, m.write = .ok plain ∧ plain ≠ [] ∧ read plain = .ok w ∧ w.kind = m.kind ∧
      w.number = m.number ∧ (m.kind ≠ .agentUpdate → w.write = m.write) := by
  obtain ⟨rest, hread⟩ : ∃ rest, MessageNumber.read.andThen readBody bytes = (.ok m, rest) :=
    ⟨_, Prod.ext h rfl⟩
  obtain ⟨n, behind, hn, hbody⟩ := Reader.andThen_ok hread
  have hcanonical := MessageNumber.canonical_of_read hn
  cases hk : body? (MessageKind.ofNumber n) with
  | none =>
    have hu := body?_eq_none.1 hk
    have hall : readBody n = Codec.remainder.read.map fun body => unknown ⟨n, body⟩ := by
      simp only [readBody, hu]
    rw [hall] at hbody
    obtain ⟨body, -, rfl⟩ := Reader.map_ok hbody
    refine ⟨n.write ++ body, unknown ⟨n, body⟩, rfl, ?_, ?_, rfl, rfl, fun _ => rfl⟩
    · simp [MessageNumber.write_ne_nil]
    · rw [read, Reader.andThen_of_eq (MessageNumber.read_write hcanonical body), hall]
      rfl
  | some body =>
    rw [body.read_eq n rfl] at hbody
    obtain ⟨v, hv, rfl⟩ := Reader.map_ok hbody
    obtain ⟨w, ⟨bodyBytes, hw, hr⟩, again⟩ := body.layout.settles hv
    have hu : MessageKind.ofNumber n ≠ .unknown := by
      intro hu
      rw [body?_eq_none.2 hu] at hk
      cases hk
    have number_eq : ∀ x, (body.ofParts x).number = n := by
      intro x
      exact number_of_kind (body.kind_eq x) (by rw [body.kind_eq x]; exact hu)
    refine ⟨n.write ++ bodyBytes, body.ofParts w, ?_, ?_, ?_, ?_, ?_, ?_⟩
    · simp [write, number_eq, body.write_eq, hw, bind, Except.bind, pure, Except.pure]
    · simp [MessageNumber.write_ne_nil]
    · have whole := hr []
      rw [List.append_nil] at whole
      rw [read, Reader.andThen_of_eq (MessageNumber.read_write hcanonical bodyBytes),
        body.read_eq n rfl, Reader.map_of_eq whole]
    · rw [body.kind_eq, body.kind_eq]
    · rw [number_eq, number_eq]
    · intro ha
      rw [body.kind_eq] at ha
      simp only [write, number_eq, body.write_eq, again (isExact_of_body hk ha)]

end Message

namespace Packet

theorem length_readAcks_le (bytes : Bytes) :
    (readAcks bytes).length * ackLength ≤ bytes.length := by
  induction bytes using readAcks.induct with
  | case1 a b c d rest ih =>
    simp only [readAcks, List.length_cons, ackLength] at ih ⊢
    omega
  | case2 bytes hshort =>
    rw [readAcks]
    · simp
    · exact hshort

/-- One byte counts the acks. -/
theorem length_splitAcks_le {announced : Bool} {bytes body : Bytes} {acks : List UInt32}
    (h : splitAcks announced bytes = .ok (body, acks)) : acks.length ≤ 255 := by
  unfold splitAcks at h
  split at h
  · dsimp only at h
    have hcount := (bytes.getLast?.getD 0).toNat_lt
    split at h
    · cases h
    · next hfit =>
      cases h
      have hacks := length_readAcks_le ((bytes.drop (bytes.length -
        ((bytes.getLast?.getD 0).toNat * ackLength + 1))).dropLast)
      rw [List.length_dropLast, List.length_drop] at hacks
      unfold ackLength at *
      omega
  · cases h
    exact Nat.zero_le _

/-- The counts of a packet that was read come from single bytes. -/
theorem parts_of_decode {raw : Bytes} {p : Packet} (h : decode raw = .ok p) :
    p.extra.length ≤ 255 ∧ p.acks.length ≤ 255 ∧
      ∃ plain, Message.read plain = .ok p.message := by
  obtain ⟨_, _, _, plain, hextra, -, -, -, hs, -, hm⟩ := frame_of_decode h
  exact ⟨hextra, length_splitAcks_le hs, plain, hm⟩

/-- A packet that was read is written, and what is written reads as the packet with another form
of its message, which is as good as the first one. -/
theorem encode_decoded {raw : Bytes} {p : Packet} (h : decode raw = .ok p) :
    ∃ bytes w, p.encode = .ok bytes ∧
      decode bytes = .ok { p with flags := p.wireFlags, message := w } ∧
      w.kind = p.kind ∧ w.number = p.message.number ∧
      (p.kind ≠ .agentUpdate → w.write = p.message.write) := by
  obtain ⟨hextra, hacks, plain, hm⟩ := parts_of_decode h
  obtain ⟨settled, w, hw, hne, hr, hkind, hnumber, hagain⟩ := Message.read_settles hm
  obtain ⟨bytes, he, hd⟩ := decode_of_write hextra hacks hw hne hr
  exact ⟨bytes, w, he, hd, hkind, hnumber, hagain⟩

/-- The flags of a packet matter to its writer as they are written. -/
theorem encode_settled {p : Packet} {w : Message} (h : w.write = p.message.write) :
    { p with flags := p.wireFlags, message := w : Packet }.encode = p.encode := by
  simp only [encode, h]
  rfl

/-- No access of the reader fails, whatever the bytes are, and every packet it accepts can be
written: all its counts and lengths fit the bytes that hold them. -/
theorem reading_is_total (raw : Bytes) :
    decodeStrict raw = .ok (decode raw) ∧
      ∀ p, decode raw = .ok p → ∃ bytes, p.encode = .ok bytes := by
  refine ⟨decodeStrict_eq raw, ?_⟩
  intro p hp
  obtain ⟨bytes, -, he, -⟩ := encode_decoded hp
  exact ⟨bytes, he⟩

/-- An alert of 255 bytes, none of which is well-formed. Its text is three times as long. -/
def illFormedAlert : Bytes :=
  [0, 0, 0, 0, 1, 0, 0xFF, 0xFF, 0, 134, 255] ++ List.replicate 255 0xFF

theorem reading_illFormedAlert : ∃ bytes, Packet.encode {
      sequence := 1
      message := .alertMessage { message := String.ofList (List.replicate 255 Text.replacement) }
    } = .ok bytes :=
  (reading_is_total illFormedAlert).2 _ (by decide +kernel)

/-- Writing what was read settles everything that the reader left open: what is written reads as a
packet with the same header and the same kind of message, and is written again byte by byte. Only
rotations, which are rounded, may change once more. -/
theorem reencoding_is_canonical {raw : Bytes} {p : Packet} (h : decode raw = .ok p)
    (hk : p.kind ≠ .agentUpdate) :
    ∃ bytes p', p.encode = .ok bytes ∧ decode bytes = .ok p' ∧
      p'.sequence = p.sequence ∧ p'.extra = p.extra ∧ p'.acks = p.acks ∧
      p'.kind = p.kind ∧ p'.message.number = p.message.number ∧ p'.encode = .ok bytes := by
  obtain ⟨bytes, w, he, hd, hkind, hnumber, hagain⟩ := encode_decoded h
  refine ⟨bytes, _, he, hd, rfl, rfl, rfl, hkind, hnumber, ?_⟩
  rw [encode_settled (hagain hk), he]

/-- A zero-coded alert. All its flags are set, also the undefined ones, and they announce acks that
are none. A run of zeros is split, the text has an ill-formed byte and ends in front of its field,
and a byte follows the body. -/
def roughAlert : Bytes :=
  [0xFF, 0, 0, 0, 7, 1, 0xAB, 0xFF, 0xFF, 0, 1, 134, 5, 72, 0xE2, 33, 0, 1, 0, 1, 9, 0]

def readAlert : Packet where
  flags := { zeroCoded := true, reliable := true, resent := true, appendedAcks := true }
  sequence := 7
  extra := [0xAB]
  message := .alertMessage { message := "H\uFFFD!" }

theorem reencoding_roughAlert :
    decode roughAlert = .ok readAlert ∧ readAlert.kind ≠ .agentUpdate ∧
      ∃ bytes p', readAlert.encode = .ok bytes ∧ decode bytes = .ok p' ∧
        p'.sequence = 7 ∧ p'.extra = [0xAB] ∧ p'.acks = [] ∧ p'.kind = .alertMessage ∧
        p'.message.number = .low 134 ∧ p'.encode = .ok bytes := by
  have hread : decode roughAlert = .ok readAlert := by decide +kernel
  have hkind : readAlert.kind ≠ .agentUpdate := by decide
  exact ⟨hread, hkind, reencoding_is_canonical hread hkind⟩

end Packet
end ViewerCircuit
