import ViewerCircuit.Packet.Wire
import ViewerCircuit.Proofs.Layouts

/-!
# Strict reading

Here a packet is read by positions, and every access may fail: a byte or a slice that lies outside
of its input, a difference below zero, a step over the end of a body. Guards stand only where a
packet can be refused. No access fails, whatever the bytes are, and the packet is the same.
-/
namespace ViewerCircuit

inductive Fault where
  | index (i length : Nat)
  | slice (start stop length : Nat)
  | difference (a b : Nat)
  | overrun (count length : Nat)
  deriving DecidableEq, Repr

namespace Strict

def byteAt (bytes : Bytes) (i : Nat) : Except Fault UInt8 :=
  match bytes[i]? with
  | some b => .ok b
  | none => .error (.index i bytes.length)

def slice (bytes : Bytes) (start stop : Nat) : Except Fault Bytes :=
  if start ≤ stop ∧ stop ≤ bytes.length then .ok ((bytes.take stop).drop start)
  else .error (.slice start stop bytes.length)

def minus (a b : Nat) : Except Fault Nat :=
  if b ≤ a then .ok (a - b) else .error (.difference a b)

theorem byteAt_of_lt {bytes : Bytes} {i : Nat} (h : i < bytes.length) :
    byteAt bytes i = .ok bytes[i] := by
  simp [byteAt, h]

theorem slice_of_le {bytes : Bytes} {start stop : Nat} (h : start ≤ stop)
    (hs : stop ≤ bytes.length) : slice bytes start stop = .ok ((bytes.take stop).drop start) :=
  if_pos ⟨h, hs⟩

theorem minus_of_le {a b : Nat} (h : b ≤ a) : minus a b = .ok (a - b) := if_pos h

end Strict

abbrev StrictReader (α : Type) := Bytes → Except Fault (Except DecodeError α × Bytes)

namespace StrictReader

variable {α β : Type}

def done (a : α) : StrictReader α := fun input => .ok (.ok a, input)

def refuse (e : DecodeError) : StrictReader α := fun input => .ok (.error e, input)

def andThen (r : StrictReader α) (next : α → StrictReader β) : StrictReader β := fun input =>
  match r input with
  | .ok (.ok a, rest) => next a rest
  | .ok (.error e, rest) => .ok (.error e, rest)
  | .error fault => .error fault

def map (f : α → β) (r : StrictReader α) : StrictReader β := r.andThen fun a => done (f a)

def replicate (r : StrictReader α) : Nat → StrictReader (List α)
  | 0 => done []
  | n + 1 => r.andThen fun a => (replicate r n).map (a :: ·)

def lift (access : Except Fault α) : StrictReader α := fun input =>
  match access with
  | .ok a => .ok (.ok a, input)
  | .error fault => .error fault

def remaining : StrictReader Nat := fun input => .ok (.ok input.length, input)

def advance (count : Nat) : StrictReader Bytes := fun input =>
  if count ≤ input.length then .ok (.ok (input.take count), input.drop count)
  else .error (.overrun count input.length)

def fixed (width : Nat) : StrictReader Bytes :=
  remaining.andThen fun left => if left < width then refuse .underflow else advance width

def field (length : Nat) : StrictReader Bytes :=
  remaining.andThen fun left =>
    if left < length then refuse (.fieldUnderflow length left) else advance length

def byte : StrictReader UInt8 := (fixed 1).map fun bytes => UInt8.ofNat (ofLittleEndian bytes)

def counted (width : Nat) : StrictReader Bytes :=
  (fixed width).andThen fun length => field (ofLittleEndian length)

def blockCount : StrictReader Nat :=
  remaining.andThen fun left => if left = 0 then done 0 else byte.map UInt8.toNat

def text (bytes : Bytes) : StrictReader String :=
  (lift (Strict.slice bytes 0 ((bytes.findIdx? (· = 0)).getD bytes.length))).map Text.decode

/-- The strict reader never fails, and reads what `r` reads. -/
def Agrees (s : StrictReader α) (r : Reader α) : Prop := ∀ input, s input = .ok (r input)

theorem Agrees.andThen {s : StrictReader α} {r : Reader α} {next : α → StrictReader β}
    {then' : α → Reader β} (h : s.Agrees r) (hn : ∀ a, (next a).Agrees (then' a)) :
    (s.andThen next).Agrees (r.andThen then') := by
  intro input
  unfold StrictReader.andThen Reader.andThen
  rw [h input]
  rcases r input with ⟨_ | a, rest⟩
  · rfl
  · exact hn a rest

theorem Agrees.map {s : StrictReader α} {r : Reader α} (h : s.Agrees r) (f : α → β) :
    (s.map f).Agrees (r.map f) := by
  intro input
  unfold StrictReader.map StrictReader.andThen Reader.map
  rw [h input]
  rcases r input with ⟨_ | a, rest⟩ <;> rfl

theorem Agrees.replicate {s : StrictReader α} {r : Reader α} (h : s.Agrees r) (n : Nat) :
    (s.replicate n).Agrees (r.replicate n) := by
  induction n with
  | zero => exact fun _ => rfl
  | succ n ih => exact h.andThen fun a => ih.map (a :: ·)

/-- The guard stands in front of the access. -/
theorem fixed_agrees (width : Nat) : (fixed width).Agrees (Reader.fixed width) := by
  intro input
  by_cases h : input.length < width
  · simp [fixed, StrictReader.andThen, remaining, h, refuse, Reader.fixed]
  · simp [fixed, StrictReader.andThen, remaining, h, advance, Reader.fixed, Nat.le_of_not_lt h]

theorem field_agrees (length : Nat) : (field length).Agrees (Reader.field length) := by
  intro input
  by_cases h : input.length < length
  · simp [field, StrictReader.andThen, remaining, h, refuse, Reader.field]
  · simp [field, StrictReader.andThen, remaining, h, advance, Reader.field, Nat.le_of_not_lt h]

theorem counted_agrees (width : Nat) : (counted width).Agrees (Codec.counted width).read :=
  (fixed_agrees width).andThen fun length => field_agrees (ofLittleEndian length)

theorem byte_cons (b : UInt8) (rest : Bytes) : byte (b :: rest) = .ok (.ok b, rest) := by
  simp [byte, map, StrictReader.andThen, fixed, remaining, advance, done, ofLittleEndian]

theorem byte_nil : byte [] = .ok (.error .underflow, []) := rfl

theorem blockCount_agrees : blockCount.Agrees Codec.readBlockCount := by
  intro input
  cases input with
  | nil => rfl
  | cons b rest =>
    simp [blockCount, StrictReader.andThen, remaining, map, byte_cons, done, Codec.readBlockCount]

theorem take_findIdx (bytes : Bytes) :
    bytes.take ((bytes.findIdx? (· = 0)).getD bytes.length) = bytes.takeWhile (· ≠ 0) := by
  induction bytes with
  | nil => rfl
  | cons b bytes ih =>
    by_cases hb : b = 0
    · simp [hb, List.findIdx?_cons]
    · cases hi : bytes.findIdx? (· = 0) with
      | none => simpa [hb, hi, List.findIdx?_cons] using ih
      | some i => simpa [hb, hi, List.findIdx?_cons] using ih

/-- A text ends inside of its field. -/
theorem text_eq (bytes input : Bytes) :
    text bytes input = .ok (.ok (Text.ofField bytes), input) := by
  have hstop : (bytes.findIdx? (· = 0)).getD bytes.length ≤ bytes.length := by
    cases hi : bytes.findIdx? (· = 0) with
    | none => exact Nat.le_refl _
    | some i => exact Nat.le_of_lt (List.findIdx?_eq_some_iff_getElem.1 hi).1
  rw [text, Strict.slice_of_le (Nat.zero_le _) hstop, List.drop_zero, take_findIdx]
  rfl

theorem text_agrees {s : StrictReader Bytes} {r : Reader Bytes} (h : s.Agrees r) :
    (s.andThen text).Agrees (r.map Text.ofField) := by
  intro input
  unfold StrictReader.andThen Reader.map
  rw [h input]
  rcases r input with ⟨_ | bytes, rest⟩
  · rfl
  · exact text_eq bytes rest

end StrictReader

namespace Codec.Layout

open StrictReader (Agrees)

def strict : {α : Type} → {c : Codec α} → Layout c → StrictReader α
  | _, _, @little _ width _ ofNat _ =>
    (StrictReader.fixed width).map fun bytes => ofNat (ofLittleEndian bytes)
  | _, _, @big _ width _ ofNat _ =>
    (StrictReader.fixed width).map fun bytes => ofNat (ofBigEndian bytes)
  | _, _, counted width => StrictReader.counted width
  | _, _, shortText => (StrictReader.counted 1).andThen StrictReader.text
  | _, _, longText => (StrictReader.counted 2).andThen StrictReader.text
  | _, _, rotation parts => parts.strict.map Quat.ofWireForm
  | _, _, nothing => StrictReader.done ()
  | _, _, seq first second => first.strict.andThen fun x => second.strict.map fun y => (x, y)
  | _, _, @view _ _ _ ofParts _ parts _ => parts.strict.map ofParts
  | _, _, block entry => StrictReader.blockCount.andThen fun count => entry.strict.replicate count

theorem strict_agrees {α : Type} {c : Codec α} (l : Layout c) : l.strict.Agrees c.read := by
  induction l with
  | little | big => exact (StrictReader.fixed_agrees _).map _
  | counted width => exact StrictReader.counted_agrees width
  | shortText => exact StrictReader.text_agrees (StrictReader.counted_agrees 1)
  | longText => exact StrictReader.text_agrees (StrictReader.counted_agrees 2)
  | rotation parts ih => exact ih.map Quat.ofWireForm
  | nothing => exact fun _ => rfl
  | seq first second ihf ihs => exact ihf.andThen fun x => ihs.map fun y => (x, y)
  | view parts h ih => exact ih.map _
  | block entry ih => exact StrictReader.blockCount_agrees.andThen fun count => ih.replicate count

end Codec.Layout

open StrictReader (done refuse)

def MessageNumber.readStrict : StrictReader MessageNumber :=
  StrictReader.byte.andThen fun a =>
    if a = 0 then refuse .messageNumberZero
    else if a = 0xFF then StrictReader.byte.andThen fun b =>
      if b = 0xFF then StrictReader.byte.andThen fun c => StrictReader.byte.andThen fun d =>
        if c = 0xFF then done (.fixed d) else done (.low (UInt16.ofNat (ofBigEndian [c, d])))
      else done (.medium b)
    else done (.high a)

/-- Every byte is looked for where the input may end. -/
theorem MessageNumber.readStrict_agrees : readStrict.Agrees read := by
  intro input
  cases input with
  | nil => rfl
  | cons a rest =>
    by_cases ha : a = 0
    · simp [readStrict, StrictReader.andThen, StrictReader.byte_cons, read, ha, refuse]
    by_cases he : a = 0xFF
    · cases rest with
      | nil => simp [readStrict, StrictReader.andThen, StrictReader.byte_cons, read, he,
          readEscaped, StrictReader.byte_nil]
      | cons b rest =>
        by_cases hb : b = 0xFF
        · rcases rest with _ | ⟨c, _ | ⟨d, rest⟩⟩
          · simp [readStrict, StrictReader.andThen, StrictReader.byte_cons, read, he, hb,
              readEscaped, readLong, StrictReader.byte_nil]
          · simp [readStrict, StrictReader.andThen, StrictReader.byte_cons, read, he, hb,
              readEscaped, readLong, StrictReader.byte_nil]
          · by_cases hc : c = 0xFF <;>
              simp [readStrict, StrictReader.andThen, StrictReader.byte_cons, read, he, hb, hc,
                readEscaped, readLong, done]
        · simp [readStrict, StrictReader.andThen, StrictReader.byte_cons, read, he, hb,
            readEscaped, done]
    · simp [readStrict, StrictReader.andThen, StrictReader.byte_cons, read, ha, he, done]

namespace Message

def readBodyStrict (number : MessageNumber) : StrictReader Message :=
  match body? (MessageKind.ofNumber number) with
  | some body => body.layout.strict.map body.ofParts
  | none => StrictReader.remaining.andThen fun left =>
    (StrictReader.advance left).map fun body => unknown ⟨number, body⟩

theorem readBodyStrict_agrees (number : MessageNumber) :
    (readBodyStrict number).Agrees (readBody number) := by
  unfold readBodyStrict
  split
  · next body _ =>
    rw [body.read_eq number rfl]
    exact body.layout.strict_agrees.map body.ofParts
  · next h =>
    intro input
    simp [StrictReader.andThen, StrictReader.remaining, StrictReader.advance, StrictReader.map,
      done, readBody, body?_eq_none.1 h, Codec.remainder, Reader.map]

def readStrict (bytes : Bytes) : Except Fault (Except DecodeError Message) :=
  ((MessageNumber.readStrict.andThen readBodyStrict) bytes).map (·.1)

theorem readStrict_eq (bytes : Bytes) : readStrict bytes = .ok (read bytes) := by
  have h : (MessageNumber.readStrict.andThen readBodyStrict).Agrees
      (MessageNumber.read.andThen readBody) :=
    MessageNumber.readStrict_agrees.andThen readBodyStrict_agrees
  rw [readStrict, h bytes]
  rfl

end Message

namespace Packet

open Strict

def readAcksStrict : Nat → Bytes → Except Fault (List UInt32)
  | 0, _ => .ok []
  | count + 1, bytes => do
    let chunk ← slice bytes 0 ackLength
    let a ← byteAt chunk 0
    let b ← byteAt chunk 1
    let c ← byteAt chunk 2
    let d ← byteAt chunk 3
    let acks ← readAcksStrict count (← slice bytes ackLength bytes.length)
    return UInt32.ofNat (ofBigEndian [a, b, c, d]) :: acks

theorem readAcksStrict_eq (count : Nat) (bytes : Bytes) (hc : bytes.length / ackLength = count) :
    readAcksStrict count bytes = .ok (readAcks bytes) := by
  unfold ackLength at hc
  induction count generalizing bytes with
  | zero =>
    rcases bytes with _ | ⟨a, _ | ⟨b, _ | ⟨c, _ | ⟨d, rest⟩⟩⟩⟩
    all_goals first | rfl | (simp only [List.length_cons] at hc; omega)
  | succ count ih =>
    rcases bytes with _ | ⟨a, _ | ⟨b, _ | ⟨c, _ | ⟨d, rest⟩⟩⟩⟩
    all_goals simp only [List.length_cons, List.length_nil] at hc
    · omega
    · omega
    · omega
    · omega
    · have hrest : rest.length / 4 = count := by omega
      simp [readAcksStrict, readAcks, slice, byteAt, ackLength, ih rest hrest, bind, Except.bind,
        pure, Except.pure]

def splitAcksStrict (announced : Bool) (raw : Bytes) (bodyStart : Nat) :
    Except Fault (Except DecodeError (Nat × List UInt32)) := do
  if announced then
    let last ← minus raw.length 1
    let count ← byteAt raw last
    let tail := count.toNat * ackLength + 1
    if raw.length < bodyStart + 1 + tail then return .error (.acksTooLong count.toNat)
    let bodyEnd ← minus raw.length tail
    let chunks ← slice raw bodyEnd last
    return .ok (bodyEnd, ← readAcksStrict (chunks.length / ackLength) chunks)
  else return .ok (raw.length, [])

def plainStrict (zeroCoded : Bool) (raw : Bytes) (bodyStart bodyEnd : Nat) :
    Except Fault (Except DecodeError Bytes) := do
  let body ← slice raw bodyStart bodyEnd
  if zeroCoded then
    -- room is made for twice as many bytes as there are
    let _ ← minus bodyEnd bodyStart
    return ZeroCoding.decode body
  else return .ok body

def bodyStrict (flags : Flags) (raw : Bytes) (bodyStart : Nat) :
    Except Fault (Except DecodeError (List UInt32 × Message)) := do
  match ← splitAcksStrict flags.appendedAcks raw bodyStart with
  | .error e => return .error e
  | .ok (bodyEnd, acks) =>
    match ← plainStrict flags.zeroCoded raw bodyStart bodyEnd with
    | .error e => return .error e
    | .ok plain =>
      match ← Message.readStrict plain with
      | .error e => return .error e
      | .ok message => return .ok (acks, message)

def decodeStrict (raw : Bytes) : Except Fault (Except DecodeError Packet) := do
  if raw.length < headerLength + 1 then return .error (.packetTooShort raw.length)
  let flags := Flags.ofByte (← byteAt raw 0)
  let sequence := [← byteAt raw 1, ← byteAt raw 2, ← byteAt raw 3, ← byteAt raw 4]
  let extraLength ← byteAt raw 5
  let bodyStart := headerLength + extraLength.toNat
  if raw.length ≤ bodyStart then return .error (.extraTooLong extraLength.toNat)
  let extra ← slice raw headerLength bodyStart
  match ← bodyStrict flags raw bodyStart with
  | .error e => return .error e
  | .ok (acks, message) =>
    return .ok { flags, sequence := UInt32.ofNat (ofBigEndian sequence), extra, acks, message }

/-- The body is in front of the acks. -/
theorem isPrefix_of_splitAcks {announced : Bool} {bytes body : Bytes} {acks : List UInt32}
    (h : splitAcks announced bytes = .ok (body, acks)) : body <+: bytes := by
  unfold splitAcks at h
  split at h
  · dsimp only at h
    split at h
    · cases h
    · cases h
      exact List.take_prefix _ _
  · cases h
    exact List.prefix_refl _

/-- The count of the acks is the last byte, and they fit behind at least one byte of the body. -/
theorem splitAcksStrict_eq {announced : Bool} {raw : Bytes} {bodyStart : Nat}
    (h : bodyStart < raw.length) :
    splitAcksStrict announced raw bodyStart = .ok ((splitAcks announced (raw.drop bodyStart)).map
      fun split => (bodyStart + split.1.length, split.2)) := by
  cases announced with
  | false =>
    have hlen : bodyStart + (raw.length - bodyStart) = raw.length := by omega
    simp [splitAcksStrict, splitAcks, pure, Except.pure, Except.map, hlen]
  | true =>
    have hlast : raw.length - 1 < raw.length := by omega
    have hcount : ((raw.drop bodyStart).getLast?.getD 0) = raw[raw.length - 1] := by
      rw [List.getLast?_drop, if_neg (Nat.not_le_of_lt h), List.getLast?_eq_getElem?,
        List.getElem?_eq_getElem hlast]
      rfl
    simp only [splitAcksStrict, splitAcks, if_true, minus_of_le (show 1 ≤ raw.length by omega),
      byteAt_of_lt hlast, hcount, List.length_drop, bind, Except.bind, pure, Except.pure]
    generalize raw[raw.length - 1].toNat = count
    generalize htail : count * ackLength + 1 = tail
    by_cases hfit : raw.length < bodyStart + 1 + tail
    · rw [if_pos hfit, if_pos (show raw.length - bodyStart < 1 + tail by omega)]
      rfl
    · have hend : bodyStart + (raw.length - bodyStart - tail) = raw.length - tail := by omega
      have hchunks : ((raw.drop bodyStart).drop (raw.length - bodyStart - tail)).dropLast
          = (raw.take (raw.length - 1)).drop (raw.length - tail) := by
        rw [List.drop_drop, hend, List.dropLast_eq_take, List.drop_take, List.length_drop]
        congr 1
        omega
      have hbody : bodyStart + ((raw.drop bodyStart).take (raw.length - bodyStart - tail)).length
          = raw.length - tail := by
        rw [List.length_take, List.length_drop]
        omega
      rw [if_neg hfit, if_neg (show ¬ raw.length - bodyStart < 1 + tail by omega),
        minus_of_le (by omega)]
      simp only [slice_of_le (show raw.length - tail ≤ raw.length - 1 by omega)
        (Nat.sub_le _ _), readAcksStrict_eq _ _ rfl, Except.map, hchunks, hbody]

theorem plainStrict_eq {zeroCoded : Bool} {raw : Bytes} {bodyStart bodyEnd : Nat}
    (h : bodyStart ≤ bodyEnd) (hend : bodyEnd ≤ raw.length) :
    plainStrict zeroCoded raw bodyStart bodyEnd =
      .ok (if zeroCoded then ZeroCoding.decode ((raw.take bodyEnd).drop bodyStart)
        else .ok ((raw.take bodyEnd).drop bodyStart)) := by
  rw [plainStrict, slice_of_le h hend]
  cases zeroCoded <;> simp [minus_of_le h, bind, Except.bind, pure, Except.pure]

theorem bodyStrict_eq {flags : Flags} {raw : Bytes} {bodyStart : Nat}
    (h : bodyStart < raw.length) :
    bodyStrict flags raw bodyStart = .ok (do
      let (body, acks) ← splitAcks flags.appendedAcks (raw.drop bodyStart)
      let plain ← if flags.zeroCoded then ZeroCoding.decode body else .ok body
      let message ← Message.read plain
      return (acks, message)) := by
  rw [bodyStrict, splitAcksStrict_eq h]
  cases hsplit : splitAcks flags.appendedAcks (raw.drop bodyStart) with
  | error e => rfl
  | ok split =>
    obtain ⟨body, acks⟩ := split
    obtain ⟨behind, hbehind⟩ := isPrefix_of_splitAcks hsplit
    have hend : bodyStart + body.length ≤ raw.length := by
      have hlen := congrArg List.length hbehind
      rw [List.length_append, List.length_drop] at hlen
      omega
    have hbody : (raw.take (bodyStart + body.length)).drop bodyStart = body := by
      rw [List.drop_take, Nat.add_sub_cancel_left, ← hbehind, List.take_left]
    simp only [Except.map, bind, Except.bind, plainStrict_eq (Nat.le_add_right _ _) hend, hbody]
    cases flags.zeroCoded with
    | false =>
      simp only [Message.readStrict_eq, Bool.false_eq_true, if_false]
      rcases Message.read body with _ | message <;> rfl
    | true =>
      simp only [if_true]
      rcases ZeroCoding.decode body with _ | plain
      · rfl
      · simp only [Message.readStrict_eq]
        rcases Message.read plain with _ | message <;> rfl

/-- Behind the header and its length there is at least one byte. -/
theorem decodeStrict_head (flagByte s₁ s₂ s₃ s₄ extraLength first : UInt8) (more : Bytes) :
    decodeStrict (flagByte :: s₁ :: s₂ :: s₃ :: s₄ :: extraLength :: first :: more) =
      .ok (decode (flagByte :: s₁ :: s₂ :: s₃ :: s₄ :: extraLength :: first :: more)) := by
  rw [decode]
  dsimp only
  have hpos : 0 < (first :: more).length := Nat.succ_pos _
  generalize first :: more = rest at hpos ⊢
  generalize hraw : flagByte :: s₁ :: s₂ :: s₃ :: s₄ :: extraLength :: rest = raw
  have hlen : raw.length = headerLength + rest.length := by
    rw [← hraw]
    simp only [List.length_cons, headerLength]
    omega
  have hdrop : ∀ n, raw.drop (headerLength + n) = rest.drop n := by
    intro n
    rw [← List.drop_drop, ← hraw]
    rfl
  have h0 : byteAt raw 0 = .ok flagByte := by rw [← hraw]; rfl
  have h1 : byteAt raw 1 = .ok s₁ := by rw [← hraw]; rfl
  have h2 : byteAt raw 2 = .ok s₂ := by rw [← hraw]; rfl
  have h3 : byteAt raw 3 = .ok s₃ := by rw [← hraw]; rfl
  have h4 : byteAt raw 4 = .ok s₄ := by rw [← hraw]; rfl
  have h5 : byteAt raw 5 = .ok extraLength := by rw [← hraw]; rfl
  rw [decodeStrict, if_neg (by omega), h0, h1, h2, h3, h4, h5]
  simp only [bind, Except.bind, pure, Except.pure, throw, throwThe, MonadExceptOf.throw]
  by_cases hextra : rest.length ≤ extraLength.toNat
  · rw [if_pos hextra, if_pos (by omega)]
  · have hbody : slice raw headerLength (headerLength + extraLength.toNat)
        = .ok (rest.take extraLength.toNat) := by
      rw [slice_of_le (Nat.le_add_right _ _) (by omega), List.drop_take, Nat.add_sub_cancel_left,
        show raw.drop headerLength = rest from hdrop 0]
    rw [if_neg hextra, if_neg (by omega), hbody, bodyStrict_eq (by omega), hdrop]
    simp only [bind, Except.bind]
    rcases splitAcks (Flags.ofByte flagByte).appendedAcks (rest.drop extraLength.toNat) with
      _ | ⟨body, acks⟩
    · rfl
    · cases (Flags.ofByte flagByte).zeroCoded with
      | false => rcases hm : Message.read body with _ | message <;> simp [hm, pure, Except.pure]
      | true =>
        rcases hp : ZeroCoding.decode body with _ | plain
        · simp [hp]
        · rcases hm : Message.read plain with _ | message <;> simp [hp, hm, pure, Except.pure]

/-- No access fails, and the packet is the one that is read from the front. -/
theorem decodeStrict_eq (raw : Bytes) : decodeStrict raw = .ok (decode raw) := by
  rcases raw with _ | ⟨flagByte, _ | ⟨s₁, _ | ⟨s₂, _ | ⟨s₃, _ | ⟨s₄, _ | ⟨extraLength, _ |
    ⟨first, more⟩⟩⟩⟩⟩⟩⟩
  case cons.cons.cons.cons.cons.cons.cons =>
    exact decodeStrict_head flagByte s₁ s₂ s₃ s₄ extraLength first more
  all_goals rfl

end Packet
end ViewerCircuit
