import ViewerCircuit.Number.F32
import ViewerCircuit.Wire.Error

/-!
# Codecs

A codec describes one piece of a message body once, and the description gives both its writer and
its reader, so the two cannot disagree about its layout. A reader takes its piece from the front of
the input and returns what is left, also when it fails: then the pieces that were complete are gone.
-/
namespace ViewerCircuit

abbrev Reader (α : Type) := Bytes → Except DecodeError α × Bytes

namespace Reader

def map {α β : Type} (f : α → β) (r : Reader α) : Reader β := fun input =>
  match r input with
  | (.ok a, rest) => (.ok (f a), rest)
  | (.error e, rest) => (.error e, rest)

def andThen {α β : Type} (r : Reader α) (next : α → Reader β) : Reader β := fun input =>
  match r input with
  | (.ok a, rest) => next a rest
  | (.error e, rest) => (.error e, rest)

def replicate {α : Type} (r : Reader α) : Nat → Reader (List α)
  | 0 => fun input => (.ok [], input)
  | n + 1 => r.andThen fun a => (replicate r n).map (a :: ·)

/-- The next `width` bytes of a value of fixed size. -/
def fixed (width : Nat) : Reader Bytes := fun input =>
  if input.length < width then (.error .underflow, input)
  else (.ok (input.take width), input.drop width)

/-- The next `length` bytes of a field whose length was read before. -/
def field (length : Nat) : Reader Bytes := fun input =>
  if input.length < length then (.error (.fieldUnderflow length input.length), input)
  else (.ok (input.take length), input.drop length)

end Reader

def littleEndian : (width : Nat) → (n : Nat) → Bytes
  | 0, _ => []
  | width + 1, n => UInt8.ofNat n :: littleEndian width (n / 256)

def ofLittleEndian : Bytes → Nat
  | [] => 0
  | b :: rest => b.toNat + 256 * ofLittleEndian rest

def bigEndian (width n : Nat) : Bytes := (littleEndian width n).reverse

def ofBigEndian (bytes : Bytes) : Nat := ofLittleEndian bytes.reverse

@[simp] theorem length_littleEndian (width n : Nat) : (littleEndian width n).length = width := by
  induction width generalizing n with
  | zero => rfl
  | succ width ih => simp [littleEndian, ih]

@[simp] theorem length_bigEndian (width n : Nat) : (bigEndian width n).length = width := by
  simp [bigEndian]

def span : (width : Nat) → Nat
  | 0 => 1
  | width + 1 => 256 * span width

theorem ofLittleEndian_littleEndian (width n : Nat) :
    ofLittleEndian (littleEndian width n) = n % span width := by
  induction width generalizing n with
  | zero => simp [littleEndian, ofLittleEndian, span, Nat.mod_one]
  | succ width ih =>
    have byte : (UInt8.ofNat n).toNat = n % 256 := by simp
    rw [littleEndian, ofLittleEndian, ih, byte, span, Nat.mod_mul]

theorem ofBigEndian_bigEndian (width n : Nat) :
    ofBigEndian (bigEndian width n) = n % span width := by
  simp [ofBigEndian, bigEndian, ofLittleEndian_littleEndian]

theorem ofLittleEndian_lt (bytes : Bytes) : ofLittleEndian bytes < span bytes.length := by
  induction bytes with
  | nil => exact Nat.one_pos
  | cons b rest ih =>
    have hb := b.toNat_lt
    rw [ofLittleEndian, List.length_cons, span]
    omega

theorem ofBigEndian_lt (bytes : Bytes) : ofBigEndian bytes < span bytes.length := by
  rw [ofBigEndian, ← List.length_reverse]
  exact ofLittleEndian_lt bytes.reverse

theorem littleEndian_ofLittleEndian (bytes : Bytes) :
    littleEndian bytes.length (ofLittleEndian bytes) = bytes := by
  induction bytes with
  | nil => rfl
  | cons b rest ih =>
    have hb := b.toNat_lt
    have high : (b.toNat + 256 * ofLittleEndian rest) / 256 = ofLittleEndian rest := by omega
    have low : UInt8.ofNat (b.toNat + 256 * ofLittleEndian rest) = b := by
      apply UInt8.toNat_inj.1
      simp
    rw [List.length_cons, littleEndian, ofLittleEndian, high, low, ih]

theorem bigEndian_ofBigEndian (bytes : Bytes) :
    bigEndian bytes.length (ofBigEndian bytes) = bytes := by
  rw [bigEndian, ofBigEndian, ← List.length_reverse, littleEndian_ofLittleEndian,
    List.reverse_reverse]

/-- A writer and a reader for the same piece of a message body. -/
structure Codec (α : Type) where
  write : α → Except EncodeError Bytes
  read : Reader α

namespace Codec

variable {α β : Type}

def seq (a : Codec α) (b : Codec β) : Codec (α × β) where
  write v := do
    let first ← a.write v.1
    let second ← b.write v.2
    return first ++ second
  read := a.read.andThen fun x => b.read.map fun y => (x, y)

def view (c : Codec α) (ofParts : α → β) (toParts : β → α) : Codec β where
  write v := c.write (toParts v)
  read := c.read.map ofParts

def empty : Codec Unit where
  write _ := .ok []
  read input := (.ok (), input)

def remainder : Codec Bytes where
  write v := .ok v
  read input := (.ok input, [])

def little (width : Nat) (toNat : α → Nat) (ofNat : Nat → α) : Codec α where
  write v := .ok (littleEndian width (toNat v))
  read := (Reader.fixed width).map fun bytes => ofNat (ofLittleEndian bytes)

def big (width : Nat) (toNat : α → Nat) (ofNat : Nat → α) : Codec α where
  write v := .ok (bigEndian width (toNat v))
  read := (Reader.fixed width).map fun bytes => ofNat (ofBigEndian bytes)

def u8 : Codec UInt8 := little 1 UInt8.toNat UInt8.ofNat
def u16 : Codec UInt16 := little 2 UInt16.toNat UInt16.ofNat
def u32 : Codec UInt32 := little 4 UInt32.toNat UInt32.ofNat
def u64 : Codec UInt64 := little 8 UInt64.toNat UInt64.ofNat
def i32 : Codec Int32 := u32.view UInt32.toInt32 Int32.toUInt32
def f32 : Codec F32 := u32.view F32.mk F32.bits
def u16Big : Codec UInt16 := big 2 UInt16.toNat UInt16.ofNat
def u32Big : Codec UInt32 := big 4 UInt32.toNat UInt32.ofNat

def counted (width : Nat) : Codec Bytes where
  write v :=
    if v.length < span width then .ok (littleEndian width v.length ++ v)
    else .error (.fieldTooLong v.length)
  read := (Reader.fixed width).andThen fun length => Reader.field (ofLittleEndian length)

def variable1 : Codec Bytes := counted 1
def variable2 : Codec Bytes := counted 2

/-- The number of entries in a block; a body that ends before the count has none. -/
def readBlockCount : Reader Nat
  | [] => (.ok 0, [])
  | count :: rest => (.ok count.toNat, rest)

def writeBlockCount (count : Nat) : Except EncodeError Bytes :=
  if count < 256 then .ok [UInt8.ofNat count] else .error (.tooManyEntries count)

def writeAll (c : Codec α) : List α → Except EncodeError Bytes
  | [] => .ok []
  | v :: rest => do
    let first ← c.write v
    let others ← writeAll c rest
    return first ++ others

/-- A variable block: the number of entries in one byte, then the entries. -/
def block (c : Codec α) : Codec (List α) where
  write vs := do
    let count ← writeBlockCount vs.length
    let entries ← writeAll c vs
    return count ++ entries
  read := Reader.andThen readBlockCount fun count => c.read.replicate count

end Codec
end ViewerCircuit
