import ViewerCircuit.Config
import ViewerCircuit.Proofs.Batches
import ViewerCircuit.Proofs.PacketArrival
import ViewerCircuit.Proofs.PooledPackets

/-!
# Lists over several packets

Entries are counted before they are written, and a packet is as long as its count said. So a list
that is sent is spread over packets that can be written and are short enough, as greedily as the
bytes of these packets allow, and nothing is dropped that a packet of its own could carry.
-/
namespace ViewerCircuit

variable {α : Type}

namespace Codec

variable {β : Type}

def Takes (c : Codec α) (length : α → Nat) : Prop :=
  ∀ v bytes, c.write v = .ok bytes → bytes.length = length v

theorem takes_little (width : Nat) (toNat : α → Nat) (ofNat : Nat → α) :
    (little width toNat ofNat).Takes fun _ => width := by
  rintro v bytes ⟨rfl⟩
  exact length_littleEndian _ _

theorem takes_big (width : Nat) (toNat : α → Nat) (ofNat : Nat → α) :
    (big width toNat ofNat).Takes fun _ => width := by
  rintro v bytes ⟨rfl⟩
  exact length_bigEndian _ _

theorem takes_counted (width : Nat) : (counted width).Takes fun v => width + v.length := by
  intro v bytes h
  simp only [counted] at h
  split at h
  · obtain rfl := Except.ok.inj h
    rw [List.length_append, length_littleEndian]
  · cases h

theorem Takes.seq {a : Codec α} {b : Codec β} {first : α → Nat} {second : β → Nat}
    (ha : a.Takes first) (hb : b.Takes second) :
    (a.seq b).Takes fun v => first v.1 + second v.2 := by
  intro v bytes h
  obtain ⟨front, hfront, h⟩ := bind_ok h
  obtain ⟨rest, hrest, h⟩ := bind_ok h
  obtain rfl := Except.ok.inj h
  rw [List.length_append, ha _ _ hfront, hb _ _ hrest]

theorem Takes.view {c : Codec α} {length : α → Nat} (h : c.Takes length) (ofParts : α → β)
    (toParts : β → α) : (c.view ofParts toParts).Takes fun v => length (toParts v) :=
  fun v bytes hw => h (toParts v) bytes hw

theorem Carries.written {c : Codec α} {v w : α} (h : c.Carries v w) :
    ∃ bytes, c.write v = .ok bytes := by
  obtain ⟨bytes, hw, -⟩ := h
  exact ⟨bytes, hw⟩

variable {c : Codec α} {length : α → Nat} {room : Nat} {vs : List α}

theorem length_of_writeAll (ht : c.Takes length) {bytes : Bytes}
    (h : writeAll c vs = .ok bytes) : bytes.length = totalSize length vs := by
  induction vs generalizing bytes with
  | nil =>
    obtain rfl := Except.ok.inj h
    rfl
  | cons v vs ih =>
    obtain ⟨first, hfirst, h⟩ := bind_ok h
    obtain ⟨others, hothers, h⟩ := bind_ok h
    obtain rfl := Except.ok.inj h
    rw [List.length_append, ht _ _ hfirst, ih hothers, totalSize_cons]

theorem exists_writeAll (h : ∀ v ∈ vs, ∃ bytes, c.write v = .ok bytes) :
    ∃ bytes, writeAll c vs = .ok bytes := by
  induction vs with
  | nil => exact ⟨[], rfl⟩
  | cons v vs ih =>
    obtain ⟨first, hfirst⟩ := h v List.mem_cons_self
    obtain ⟨others, hothers⟩ := ih fun u hu => h u (List.mem_cons_of_mem v hu)
    exact ⟨first ++ others, by
      simp [writeAll, hfirst, hothers, bind, Except.bind, pure, Except.pure]⟩

theorem length_of_block (ht : c.Takes length) {bytes : Bytes}
    (h : (block c).write vs = .ok bytes) :
    vs.length ≤ 255 ∧ bytes.length = 1 + totalSize length vs := by
  obtain ⟨count, hcount, h⟩ := bind_ok h
  obtain ⟨entries, hentries, h⟩ := bind_ok h
  obtain rfl := Except.ok.inj h
  unfold writeBlockCount at hcount
  split at hcount
  · next hlt =>
    obtain rfl := Except.ok.inj hcount
    refine ⟨Nat.le_of_lt_succ hlt, ?_⟩
    rw [List.length_append, length_of_writeAll ht hentries]
    rfl
  · cases hcount

theorem exists_block (hn : vs.length ≤ 255) (h : ∀ v ∈ vs, ∃ bytes, c.write v = .ok bytes) :
    ∃ bytes, (block c).write vs = .ok bytes := by
  obtain ⟨entries, hentries⟩ := exists_writeAll h
  have hlt : vs.length < 256 := Nat.lt_succ_of_le hn
  exact ⟨UInt8.ofNat vs.length :: entries, by
    simp [block, writeBlockCount, hlt, hentries, bind, Except.bind, pure, Except.pure]⟩

end Codec

open Codec

namespace Packet

def Within (size : Nat) (p : Packet) : Prop := ∃ bytes, p.encode = .ok bytes ∧ bytes.length ≤ size

instance (size : Nat) (p : Packet) : Decidable (p.Within size) :=
  match h : p.encode with
  | .ok bytes => decidable_of_iff (bytes.length ≤ size) (by simp [Within, h])
  | .error _ => isFalse (by simp [Within, h])

end Packet

namespace Draft

variable {d : Draft} {plain : Bytes}

@[simp] theorem packet_message (d : Draft) : d.packet.message = d.message := by
  unfold packet
  split <;> rfl

@[simp] theorem packet_extra (d : Draft) : d.packet.extra = [] := by
  unfold packet
  split <;> rfl

@[simp] theorem packet_acks (d : Draft) : d.packet.acks = [] := by
  unfold packet
  split <;> rfl

@[simp] theorem packet_zeroCoded (d : Draft) :
    d.packet.flags.zeroCoded = d.message.kind.zeroCoded := by
  unfold packet
  split <;> rfl

@[simp] theorem packet_reliable (d : Draft) : d.packet.flags.reliable = d.reliable := by
  cases h : d.reliable <;> simp [packet, h] <;> rfl

theorem encode_packet (hz : d.message.kind.zeroCoded = false) {bytes : Bytes} :
    d.packet.encode = .ok bytes ↔ ∃ plain, d.message.write = .ok plain ∧
      bytes = d.packet.wireFlags.toByte :: bigEndian 4 d.packet.sequence.toNat ++ 0 :: plain := by
  have hbody : ∀ plain, d.packet.wireBody plain = plain :=
    Packet.wireBody_plain (by rw [packet_zeroCoded, hz])
  constructor
  · intro h
    obtain ⟨plain, tail, -, hw, ht, rfl⟩ := Packet.encode_parts h
    rw [packet_acks] at ht
    obtain rfl : tail = [] := (Except.ok.inj ht).symm
    rw [packet_message] at hw
    exact ⟨plain, hw, by simp [hbody]⟩
  · rintro ⟨plain, hw, rfl⟩
    have hextra : d.packet.extra.length ≤ 255 := by simp
    have hmessage : d.packet.message.write = .ok plain := by rwa [packet_message]
    have hacks : Packet.ackTail d.packet.acks = .ok [] := by
      rw [packet_acks]
      rfl
    rw [Packet.encode_of_write hextra hmessage hacks]
    simp [hbody]

theorem length_encode_packet (hz : d.message.kind.zeroCoded = false) {bytes : Bytes}
    (h : d.packet.encode = .ok bytes) : ∃ plain, d.message.write = .ok plain ∧
      bytes.length = Packet.headerLength + plain.length := by
  obtain ⟨plain, hw, rfl⟩ := (encode_packet hz).1 h
  refine ⟨plain, hw, ?_⟩
  simp [Packet.headerLength]
  omega

def issued (drafts : List Draft) (pool : PacketPool) : List Packet :=
  (issueAll drafts pool).1.map Prod.fst

theorem issued_fresh {pool : PacketPool} (h : pool.Sound) (drafts : List Draft) :
    issued drafts pool = drafts.map packet := by
  simp [issued, (issueAll_fresh h drafts).1]

end Draft

/-- A packet for any of these entries is as long as they are in total, behind its first bytes, and
can be written if they are few and short enough. -/
structure Measured (draft : List α → Draft) (length : α → Nat) (first room : Nat) (given : List α) :
    Prop where
  pos : ∀ e, 0 < length e
  length_eq : ∀ {share bytes}, (draft share).packet.encode = .ok bytes →
    share.length ≤ 255 ∧ bytes.length = first + totalSize length share
  exists_bytes : ∀ {share : List α}, share.length ≤ 255 →
    (∀ e ∈ share, e ∈ given ∧ length e ≤ room) → ∃ bytes, (draft share).packet.encode = .ok bytes

/-- `sent` carries the entries of `given` in these shares, one packet for each, except those that no
packet of their own could carry. A share ends where the next entry would have made the packet too
long, or its count. -/
structure Spread (size : Nat) (pack : List α → Packet) (reliable : Bool) (given : List α)
    (sent : List Packet) (shares : List (List α)) : Prop where
  sent_eq : sent = shares.map pack
  within : ∀ p ∈ sent, p.Within size
  bounded : ∀ share ∈ shares, 1 ≤ share.length ∧ share.length ≤ 255
  complete : shares.flatten = given.filter fun e => (pack [e]).Within size
  greedy : shares.IsChain fun share next => ∀ e ∈ next.head?, 255 < (share ++ [e]).length ∨
    ∃ bytes, (pack (share ++ [e])).encode = .ok bytes ∧ size < bytes.length
  none : given = [] → sent = []
  reliable_eq : ∀ p ∈ sent, p.flags.reliable = reliable

namespace Measured

variable {draft : List α → Draft} {length : α → Nat} {first size : Nat} {given share : List α}

theorem of_block (c : Codec α) (front : Bytes) {room : Nat}
    (hz : ∀ share, (draft share).message.kind.zeroCoded = false)
    (hw : ∀ share, (draft share).message.write =
      (do return front ++ (← (block c).write share)))
    (ht : c.Takes length) (hpos : ∀ e, 0 < length e)
    (he : ∀ e ∈ given, length e ≤ room → ∃ bytes, c.write e = .ok bytes) :
    Measured draft length (Packet.headerLength + front.length + 1) room given := by
  refine ⟨hpos, fun {share bytes} h => ?_, fun {share} hn hs => ?_⟩
  · obtain ⟨plain, hplain, hlength⟩ := Draft.length_encode_packet (hz share) h
    rw [hw] at hplain
    obtain ⟨body, hbody, hplain⟩ := bind_ok hplain
    obtain rfl := Except.ok.inj hplain
    obtain ⟨hn, hb⟩ := length_of_block ht hbody
    refine ⟨hn, ?_⟩
    rw [hlength, List.length_append, hb]
    omega
  · obtain ⟨body, hbody⟩ := exists_block hn fun e hmem => he e (hs e hmem).1 (hs e hmem).2
    refine ⟨_, (Draft.encode_packet (hz share)).2 ⟨front ++ body, ?_, rfl⟩⟩
    rw [hw, hbody]
    rfl

variable (w : Measured draft length first (size - first) given)

include w in
theorem within_iff (hs : share ≠ []) (hn : share.length ≤ 255) (hm : ∀ e ∈ share, e ∈ given) :
    (draft share).packet.Within size ↔ totalSize length share ≤ size - first := by
  constructor
  · rintro ⟨bytes, hb, hle⟩
    have := (w.length_eq hb).2
    omega
  · intro hle
    obtain ⟨e, he⟩ := List.exists_mem_of_ne_nil share hs
    have hpos := w.pos e
    have htotal : length e ≤ totalSize length share := size_le_totalSize he
    obtain ⟨bytes, hb⟩ := w.exists_bytes hn fun e he =>
      ⟨hm e he, (size_le_totalSize he).trans hle⟩
    have hlength := (w.length_eq hb).2
    exact ⟨bytes, hb, by omega⟩

theorem mem_of_batch {room : Nat} {e : α} (hs : share ∈ batches room length given)
    (he : e ∈ share) : e ∈ given ∧ length e ≤ room := by
  have hflat : e ∈ (batches room length given).flatten := List.mem_flatten.2 ⟨share, hs, he⟩
  rw [flatten_batches] at hflat
  exact (List.mem_filter.1 hflat).imp_right of_decide_eq_true

include w in
/-- Where the next entry has no place among 255, one more packet of these entries is too long. -/
theorem exceeds {e : α} (hs : share ∈ batches (size - first) length given)
    (he : e ∈ given ∧ length e ≤ size - first)
    (hfull : entryLimit < (share ++ [e]).length ∨ size - first < totalSize length (share ++ [e])) :
    255 < (share ++ [e]).length ∨
      ∃ bytes, (draft (share ++ [e])).packet.encode = .ok bytes ∧ size < bytes.length := by
  by_cases hn : (share ++ [e]).length ≤ 255
  · have hlong := hfull.resolve_left (Nat.not_lt.2 hn)
    obtain ⟨bytes, hb⟩ := w.exists_bytes hn fun other ho => by
      rcases List.mem_append.1 ho with ho | ho
      · exact mem_of_batch hs ho
      · exact List.mem_singleton.1 ho ▸ he
    have hlength := (w.length_eq hb).2
    exact .inr ⟨bytes, hb, by omega⟩
  · exact .inl (Nat.lt_of_not_le hn)

include w in
/-- Batches that leave room for the first bytes make the packets that a list is spread over. -/
theorem spread {pool : PacketPool} {reliable : Bool} (hp : pool.Sound)
    (hr : ∀ share, (draft share).reliable = reliable) :
    Spread size (fun share => (draft share).packet) reliable given
      (Draft.issued ((batches (size - first) length given).map draft) pool)
      (batches (size - first) length given) := by
  obtain ⟨each, chain⟩ := batches_spread (size - first) length given
  have sent : Draft.issued ((batches (size - first) length given).map draft) pool =
      (batches (size - first) length given).map fun share => (draft share).packet := by
    rw [Draft.issued_fresh hp, List.map_map]
    rfl
  refine ⟨sent, ?_, ?_, ?_, ?_, ?_, ?_⟩
  · rw [sent]
    rintro p hmem
    obtain ⟨share, hs, rfl⟩ := List.mem_map.1 hmem
    have batch := each share hs
    exact (w.within_iff batch.ne_nil batch.length_le fun e he => (mem_of_batch hs he).1).2
      batch.size_le
  · intro share hs
    have batch := each share hs
    exact ⟨List.length_pos_iff.2 batch.ne_nil, batch.length_le⟩
  · rw [flatten_batches]
    refine List.filter_congr fun e he => ?_
    have alone : (draft [e]).packet.Within size ↔ totalSize length [e] ≤ size - first :=
      w.within_iff (by simp) (by simp) (by simpa using he)
    rw [decide_eq_decide, alone]
    simp [totalSize]
  · refine chain.imp_of_mem_imp fun share next hs hn hfull e he => ?_
    exact w.exceeds hs (mem_of_batch hn (List.mem_of_mem_head? he)) (hfull e he)
  · rintro rfl
    exact sent
  · rw [sent]
    rintro p hmem
    obtain ⟨share, -, rfl⟩ := List.mem_map.1 hmem
    rw [Draft.packet_reliable, hr]

end Measured

theorem Text.takes_short : shortCodec.Takes shortLength := by
  intro s bytes h
  have hw : variable1.write (terminated shortCap s) = .ok bytes := by
    simpa only [shortCodec] using h
  have hlength : bytes.length = 1 + (terminated shortCap s).length := takes_counted 1 _ _ hw
  rw [hlength, terminated, shortLength, List.length_append, List.length_singleton]
  omega

theorem Uuid.takes : Uuid.codec.Takes fun _ => 16 := takes_big _ _ _

theorem UuidName.takes : UuidName.codec.Takes Outbound.nameLength := by
  intro n bytes h
  have texts := Text.takes_short.seq Text.takes_short
  have hlength := Uuid.takes.seq texts (n.id, n.firstName, n.lastName) bytes h
  rw [hlength, Outbound.nameLength, Nat.add_assoc]

theorem UuidName.written (n : UuidName) : ∃ bytes, UuidName.codec.write n = .ok bytes := by
  have parts := (Uuid.carries n.id).seq
    ((Text.carries_short n.firstName).seq (Text.carries_short n.lastName))
  exact Carries.written (Carries.view parts rfl)

theorem TerseObject.takes : TerseObject.codec.Takes Outbound.objectLength := by
  intro o bytes h
  have hlength : bytes.length = 1 + o.data.length + (2 + o.textureEntry.length) :=
    ((takes_counted 1).seq (takes_counted 2)).view _ _ o bytes h
  rw [hlength, Outbound.objectLength]
  omega

theorem Movement.length_block (u : Movement) (isAvatar : Bool) :
    (u.block isAvatar).length = if isAvatar then 60 else 44 := by
  cases isAvatar <;> simp [block, packedVec3, packed, plain, collisionPlane]

namespace Outbound

variable {pool : PacketPool} {size : Nat}

theorem killObjects_spread (hp : pool.Sound) (ids : List UInt32) :
    ∃ shares, Spread size (fun ids => .reliable (.killObject ⟨ids⟩)) true ids
      (Draft.issued (killObjects size ids) pool) shares := by
  have w : Measured (fun ids => ⟨.killObject ⟨ids⟩, true, .task⟩) (fun _ => 4) 8 (size - 8) ids :=
    .of_block u32 [16] (fun _ => rfl) (fun _ => rfl) (takes_little _ _ _)
      (by simp) fun id _ _ => (carries_u32 id).written
  exact ⟨_, w.spread hp fun _ => rfl⟩

theorem names_spread (hp : pool.Sound) (entries : List UuidName) :
    ∃ shares, Spread size (fun entries => .reliable (.uuidNameReply ⟨entries⟩)) true entries
      (Draft.issued (names size entries) pool) shares := by
  have w : Measured (fun entries => ⟨.uuidNameReply ⟨entries⟩, true, .task⟩) nameLength 11
      (size - 11) entries :=
    .of_block UuidName.codec [0xFF, 0xFF, 0, 236] (fun _ => rfl) (fun _ => rfl)
      UuidName.takes (by simp [nameLength]) fun n _ _ => n.written
  exact ⟨_, w.spread hp fun _ => rfl⟩

def tersePacket (regionHandle : UInt64) (timeDilation : F32) (objects : List TerseObject) :
    Packet :=
  .ofMessage (.improvedTerseObjectUpdate
    ⟨regionHandle, ((Range.mk 0 1).quantize? timeDilation).getD 0, objects⟩)

theorem terse_spread (hp : pool.Sound) (hs : size ≤ datagramLimit) (regionHandle : UInt64)
    (timeDilation : F32) {objects : List TerseObject} (hd : ∀ o ∈ objects, o.data.length ≤ 255) :
    ∃ shares, Spread size (tersePacket regionHandle timeDilation) false objects
      (Draft.issued (terse size regionHandle timeDilation objects) pool) shares := by
  have w : Measured (fun objects => ⟨.improvedTerseObjectUpdate
      ⟨regionHandle, ((Range.mk 0 1).quantize? timeDilation).getD 0, objects⟩, false, .task⟩)
      objectLength 18 (size - 18) objects := by
    refine .of_block TerseObject.codec (15 :: (littleEndian 8 regionHandle.toNat ++
      littleEndian 2 (((Range.mk 0 1).quantize? timeDilation).getD 0).toNat)) (fun _ => rfl)
      (fun share => ?_) TerseObject.takes (by simp [objectLength]) fun o ho hle => ?_
    · cases hb : (block TerseObject.codec).write share <;>
        simp [Message.write, Message.writeBody, ImprovedTerseObjectUpdate.codec, Codec.view,
          Codec.seq, u64, u16, little, hb, bind, Except.bind, pure, Except.pure]
      rfl
    · have hlimit : size - 18 ≤ 65535 := by
        unfold datagramLimit at hs
        omega
      refine (TerseObject.carries (hd o ho) ?_).written
      unfold objectLength at hle
      omega
  exact ⟨_, w.spread hp fun _ => rfl⟩

/-- Lists that are sent are spread over packets, entry by entry and in order. -/
theorem lists_are_spread (hp : pool.Reached) (hs : size ≤ datagramLimit) (ids : List UInt32)
    (entries : List UuidName) (regionHandle : UInt64) (timeDilation : F32)
    (avatars : List Movement) (prims : List (Movement × Bytes)) :
    (∃ shares, Spread size (fun ids => .reliable (.killObject ⟨ids⟩)) true ids
      (Draft.issued (killObjects size ids) pool) shares) ∧
    (∃ shares, Spread size (fun entries => .reliable (.uuidNameReply ⟨entries⟩)) true entries
      (Draft.issued (names size entries) pool) shares) ∧
    (∃ shares, Spread size (tersePacket regionHandle timeDilation) false
      (avatars.map fun a => ⟨a.block true, []⟩)
      (Draft.issued (terseAvatars size regionHandle timeDilation avatars) pool) shares) ∧
    (∃ shares, Spread size (tersePacket regionHandle timeDilation) false
      (prims.map fun (u, textureEntry) => ⟨u.block false, textureEntry⟩)
      (Draft.issued (tersePrims size regionHandle timeDilation prims) pool) shares) := by
  refine ⟨killObjects_spread hp.sound ids, names_spread hp.sound entries,
    terse_spread hp.sound hs regionHandle timeDilation ?_,
    terse_spread hp.sound hs regionHandle timeDilation ?_⟩
  · intro o ho
    obtain ⟨a, -, rfl⟩ := List.mem_map.1 ho
    rw [Movement.length_block]
    decide
  · intro o ho
    obtain ⟨⟨u, textureEntry⟩, -, rfl⟩ := List.mem_map.1 ho
    rw [Movement.length_block]
    decide

def usedPool : PacketPool :=
  ({ enabled := true, maxPerKind := 2 } : PacketPool).takeBack
    { Packet.reliable (.killObject ⟨[7]⟩) with sequence := 9 }

theorem lists_are_spread_usedPool :
    usedPool.Reached ∧ 90 ≤ datagramLimit ∧
    ((∃ shares, Spread 90 (fun ids => .reliable (.killObject ⟨ids⟩)) true (List.replicate 21 5)
      (Draft.issued (killObjects 90 (List.replicate 21 5)) usedPool) shares) ∧
    (∃ shares, Spread 90 (fun entries => .reliable (.uuidNameReply ⟨entries⟩)) true
      (List.replicate 3 ⟨.zero, "Ada", "Resident"⟩)
      (Draft.issued (names 90 (List.replicate 3 ⟨.zero, "Ada", "Resident"⟩)) usedPool) shares) ∧
    (∃ shares, Spread 90 (tersePacket 0 .one) false
      ([{ localId := 1 }, { localId := 2 }].map fun a : Movement => ⟨a.block true, []⟩)
      (Draft.issued (terseAvatars 90 0 .one [{ localId := 1 }, { localId := 2 }]) usedPool)
      shares) ∧
    (∃ shares, Spread 90 (tersePacket 0 .one) false
      ([({}, [1, 2])].map fun (u, textureEntry) => ⟨Movement.block u false, textureEntry⟩)
      (Draft.issued (tersePrims 90 0 .one [({}, [1, 2])]) usedPool) shares)) ∧
    (Draft.issued (killObjects 90 (List.replicate 21 5)) usedPool).map (·.message) =
      [.killObject ⟨List.replicate 20 5⟩, .killObject ⟨[5]⟩] := by
  have hp : usedPool.Reached := ⟨true, 2, .single (.takeBack _ _)⟩
  have hs : 90 ≤ datagramLimit := by decide
  exact ⟨hp, hs, lists_are_spread hp hs _ _ _ _ _ _, by decide +kernel⟩

end Outbound

end ViewerCircuit
