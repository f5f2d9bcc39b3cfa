import Mathlib.Data.List.Forall2
import ViewerCircuit.Address
import ViewerCircuit.Geometry

/-!
# Carriage

A codec carries a value if it writes it and its reader finds it again in front of whatever
follows. Nothing frames the pieces of a body, so the bytes that follow are part of the statement.
A lossy codec carries a value as another one.
-/
namespace ViewerCircuit

namespace Reader

theorem fixed_append {front : Bytes} {width : Nat} (h : front.length = width) (rest : Bytes) :
    fixed width (front ++ rest) = (.ok front, rest) := by
  subst h
  simp [fixed]

theorem field_append {front : Bytes} {length : Nat} (h : front.length = length) (rest : Bytes) :
    field length (front ++ rest) = (.ok front, rest) := by
  subst h
  simp [field]

theorem map_of_eq {α β : Type} {r : Reader α} {input rest : Bytes} {a : α}
    (h : r input = (.ok a, rest)) (f : α → β) : r.map f input = (.ok (f a), rest) := by
  simp [map, h]

theorem andThen_of_eq {α β : Type} {r : Reader α} {input rest : Bytes} {a : α}
    (h : r input = (.ok a, rest)) (next : α → Reader β) :
    r.andThen next input = next a rest := by
  simp [andThen, h]

theorem map_ok {α β : Type} {r : Reader α} {f : α → β} {input rest : Bytes} {b : β}
    (h : r.map f input = (.ok b, rest)) : ∃ a, r input = (.ok a, rest) ∧ f a = b := by
  unfold map at h
  split at h
  · next a rest' hr =>
    cases h
    exact ⟨a, hr, rfl⟩
  · cases h

theorem andThen_ok {α β : Type} {r : Reader α} {next : α → Reader β} {input rest : Bytes} {b : β}
    (h : r.andThen next input = (.ok b, rest)) :
    ∃ a behind, r input = (.ok a, behind) ∧ next a behind = (.ok b, rest) := by
  unfold andThen at h
  split at h
  · next a behind hr => exact ⟨a, behind, hr, h⟩
  · cases h

end Reader

namespace Codec

variable {α β : Type}

/-- The codec writes `v`, and reads it as `w`, whatever follows. -/
def Carries (c : Codec α) (v w : α) : Prop :=
  ∃ bytes, c.write v = .ok bytes ∧ ∀ rest, c.read (bytes ++ rest) = (.ok w, rest)

theorem Carries.seq {a : Codec α} {b : Codec β} {v w : α} {x y : β}
    (ha : a.Carries v w) (hb : b.Carries x y) : (a.seq b).Carries (v, x) (w, y) := by
  obtain ⟨first, ha, readFirst⟩ := ha
  obtain ⟨second, hb, readSecond⟩ := hb
  refine ⟨first ++ second, by simp [Codec.seq, ha, hb, bind, Except.bind, pure, Except.pure], ?_⟩
  intro rest
  simp only [Codec.seq, List.append_assoc]
  rw [Reader.andThen_of_eq (readFirst _), Reader.map_of_eq (readSecond _)]

theorem Carries.view {c : Codec α} {ofParts : α → β} {toParts : β → α} {v w : β} {x : α}
    (h : c.Carries (toParts v) x) (hx : ofParts x = w) : (c.view ofParts toParts).Carries v w := by
  obtain ⟨bytes, hw, hr⟩ := h
  exact ⟨bytes, hw, fun rest => by rw [← hx]; exact Reader.map_of_eq (hr rest) ofParts⟩

theorem carries_empty : empty.Carries () () := ⟨[], rfl, fun _ => rfl⟩

theorem carries_little {width : Nat} {toNat : α → Nat} {ofNat : Nat → α} {v : α}
    (h : ofNat (toNat v % span width) = v) : (little width toNat ofNat).Carries v v := by
  refine ⟨littleEndian width (toNat v), rfl, ?_⟩
  intro rest
  simp only [little]
  rw [Reader.map_of_eq (Reader.fixed_append (length_littleEndian _ _) rest),
    ofLittleEndian_littleEndian, h]

theorem carries_big {width : Nat} {toNat : α → Nat} {ofNat : Nat → α} {v : α}
    (h : ofNat (toNat v % span width) = v) : (big width toNat ofNat).Carries v v := by
  refine ⟨bigEndian width (toNat v), rfl, ?_⟩
  intro rest
  simp only [big]
  rw [Reader.map_of_eq (Reader.fixed_append (length_bigEndian _ _) rest),
    ofBigEndian_bigEndian, h]

theorem carries_u8 (v : UInt8) : u8.Carries v v := by
  apply carries_little
  rw [show span 1 = UInt8.size from rfl, Nat.mod_eq_of_lt v.toNat_lt, UInt8.ofNat_toNat]

theorem carries_u16 (v : UInt16) : u16.Carries v v := by
  apply carries_little
  rw [show span 2 = UInt16.size from rfl, Nat.mod_eq_of_lt v.toNat_lt, UInt16.ofNat_toNat]

theorem carries_u32 (v : UInt32) : u32.Carries v v := by
  apply carries_little
  rw [show span 4 = UInt32.size from rfl, Nat.mod_eq_of_lt v.toNat_lt, UInt32.ofNat_toNat]

theorem carries_u64 (v : UInt64) : u64.Carries v v := by
  apply carries_little
  rw [show span 8 = UInt64.size from rfl, Nat.mod_eq_of_lt v.toNat_lt, UInt64.ofNat_toNat]

theorem carries_u16Big (v : UInt16) : u16Big.Carries v v := by
  apply carries_big
  rw [show span 2 = UInt16.size from rfl, Nat.mod_eq_of_lt v.toNat_lt, UInt16.ofNat_toNat]

theorem carries_u32Big (v : UInt32) : u32Big.Carries v v := by
  apply carries_big
  rw [show span 4 = UInt32.size from rfl, Nat.mod_eq_of_lt v.toNat_lt, UInt32.ofNat_toNat]

theorem carries_i32 (v : Int32) : i32.Carries v v := (carries_u32 v.toUInt32).view rfl

theorem carries_f32 (v : F32) : f32.Carries v v := (carries_u32 v.bits).view rfl

theorem carries_counted {width : Nat} {v : Bytes} (h : v.length < span width) :
    (counted width).Carries v v := by
  refine ⟨littleEndian width v.length ++ v, by simp [counted, h], ?_⟩
  intro rest
  simp only [counted, List.append_assoc]
  rw [Reader.andThen_of_eq (Reader.fixed_append (length_littleEndian _ _) _),
    ofLittleEndian_littleEndian, Nat.mod_eq_of_lt h, Reader.field_append rfl]

theorem carries_variable1 {v : Bytes} (h : v.length ≤ 255) : variable1.Carries v v :=
  carries_counted (Nat.lt_succ_of_le h)

theorem carries_variable2 {v : Bytes} (h : v.length ≤ 65535) : variable2.Carries v v :=
  carries_counted (Nat.lt_succ_of_le h)

/-- The entries of a block follow each other without separators. -/
theorem writeAll_read {c : Codec α} {vs ws : List α} (h : List.Forall₂ c.Carries vs ws) :
    ∃ bytes, writeAll c vs = .ok bytes ∧
      ∀ rest, c.read.replicate vs.length (bytes ++ rest) = (.ok ws, rest) := by
  induction h with
  | nil => exact ⟨[], rfl, fun _ => rfl⟩
  | cons hv _ ih =>
    obtain ⟨first, hv, readFirst⟩ := hv
    obtain ⟨others, hvs, readOthers⟩ := ih
    refine ⟨first ++ others, by simp [writeAll, hv, hvs, bind, Except.bind, pure, Except.pure], ?_⟩
    intro rest
    simp only [List.length_cons, Reader.replicate, List.append_assoc]
    rw [Reader.andThen_of_eq (readFirst _), Reader.map_of_eq (readOthers _)]

theorem carries_entries {c : Codec α} {vs ws : List α} (hn : vs.length ≤ 255)
    (h : List.Forall₂ c.Carries vs ws) : (block c).Carries vs ws := by
  obtain ⟨entries, hw, hr⟩ := writeAll_read h
  have hlt : vs.length < 256 := Nat.lt_succ_of_le hn
  refine ⟨UInt8.ofNat vs.length :: entries, ?_, ?_⟩
  · simp [block, writeBlockCount, hlt, hw, bind, Except.bind, pure, Except.pure]
  · intro rest
    have hcount : (UInt8.ofNat vs.length).toNat = vs.length := by simp [Nat.mod_eq_of_lt hlt]
    simp only [block, Reader.andThen, List.cons_append, readBlockCount, hcount]
    exact hr rest

theorem carries_block {c : Codec α} {vs : List α} (hn : vs.length ≤ 255)
    (h : ∀ v ∈ vs, c.Carries v v) : (block c).Carries vs vs :=
  carries_entries hn (List.forall₂_same.2 h)

end Codec

open Codec

theorem Uuid.carries (id : Uuid) : Uuid.codec.Carries id id := by
  apply carries_big
  have hlt : id.toNat < span 16 := id.value.isLt
  rw [Nat.mod_eq_of_lt hlt]
  simp [Uuid.ofNat, Uuid.toNat]

theorem Ipv4.carries (ip : Ipv4) : Ipv4.codec.Carries ip ip := (carries_u32Big ip.value).view rfl

theorem Vec3.carries (v : Vec3) : Vec3.codec.Carries v v :=
  .view ((carries_f32 v.x).seq ((carries_f32 v.y).seq (carries_f32 v.z))) rfl

/-- A rotation is carried as the one that its written direction stands for. -/
theorem Quat.carries (q : Quat) : Quat.codec.Carries q (.ofWireForm q.wireForm) :=
  (Vec3.carries q.wireForm).view rfl

end ViewerCircuit
