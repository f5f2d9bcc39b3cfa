import ViewerCircuit.Wire.Error

/-!
# UTF-8 text

Text travels as UTF-8. Writing cuts it between characters, and reading never fails: every maximal
part of an ill-formed sequence reads as one replacement character.
-/
namespace ViewerCircuit.Text

def encodeChars (cs : List Char) : Bytes := cs.flatMap String.utf8EncodeChar

def encode (s : String) : Bytes := encodeChars s.toList

def truncateChars (limit : Nat) : List Char → List Char
  | [] => []
  | c :: rest =>
    if c.utf8Size ≤ limit then c :: truncateChars (limit - c.utf8Size) rest else []

/-- Cuts text to at most `limit` bytes, between characters. -/
def truncate (s : String) (limit : Nat) : String := String.ofList (truncateChars limit s.toList)

def replacement : Char := '\uFFFD'

def continuations (lead : UInt8) : Nat :=
  if lead < 0xC2 then 0
  else if lead < 0xE0 then 1
  else if lead < 0xF0 then 2
  else if lead < 0xF5 then 3
  else 0

def isContinuation (b : UInt8) : Bool := 0x80 ≤ b && b ≤ 0xBF

/-- Whether `second` may follow `lead`: the limits exclude overlong forms, surrogates and
everything above the last code point. -/
def maySecond (lead second : UInt8) : Bool :=
  if lead = 0xE0 then 0xA0 ≤ second && second ≤ 0xBF
  else if lead = 0xED then 0x80 ≤ second && second ≤ 0x9F
  else if lead = 0xF0 then 0x90 ≤ second && second ≤ 0xBF
  else if lead = 0xF4 then 0x80 ≤ second && second ≤ 0x8F
  else isContinuation second

/-- How many bytes after `lead` belong to the same ill-formed part: as many as a well-formed
sequence could start with. -/
def illFormedTail (lead : UInt8) : Bytes → Nat
  | [] => 0
  | second :: rest =>
    if continuations lead < 2 || !maySecond lead second then 0
    else
      match rest with
      | [] => 1
      | third :: _ => if continuations lead < 3 || !isContinuation third then 1 else 2

def frontChar? (bytes : Bytes) : Option Char :=
  (bytes.take 4).toByteArray.utf8DecodeChar? 0

def decodeChars : Bytes → List Char
  | [] => []
  | lead :: rest =>
    match frontChar? (lead :: rest) with
    | some c => c :: decodeChars (rest.drop (c.utf8Size - 1))
    | none => replacement :: decodeChars (rest.drop (illFormedTail lead rest))
  termination_by bytes => bytes.length
  decreasing_by all_goals simp only [List.length_drop, List.length_cons]; omega

def decode (bytes : Bytes) : String := String.ofList (decodeChars bytes)

end ViewerCircuit.Text
