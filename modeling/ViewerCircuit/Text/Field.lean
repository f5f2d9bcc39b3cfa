import ViewerCircuit.Text.Utf8
import ViewerCircuit.Wire.Codec

/-!
# Text fields

A text field is a counted field that ends with a NUL. The writer cuts the text so that the field,
NUL included, stays within its cap; the reader stops at the first NUL.
-/
namespace ViewerCircuit.Text

def shortCap : Nat := 255

def longCap : Nat := 1024

def terminated (cap : Nat) (s : String) : Bytes := encode (truncate s (cap - 1)) ++ [0]

def ofField (bytes : Bytes) : String := decode (bytes.takeWhile (· ≠ 0))

def shortCodec : Codec String where
  write s := Codec.variable1.write (terminated shortCap s)
  read := Codec.variable1.read.map ofField

/-- Writes at most `cap` bytes, whatever a Variable 2 field could hold. -/
def writeLong (cap : Nat) (s : String) : Except EncodeError Bytes :=
  match min cap 65535 with
  | 0 => .error .noRoomForTerminator
  | limit + 1 => Codec.variable2.write (terminated (limit + 1) s)

def longCodec : Codec String where
  write := writeLong longCap
  read := Codec.variable2.read.map ofField

def shortLength (s : String) : Nat := (encode (truncate s (shortCap - 1))).length + 2

end ViewerCircuit.Text
