import ViewerCircuit.Wire.Error

/-!
# Zero coding

A run of zero bytes is written as a zero and its length, at most 255; all other bytes stand for
themselves. Every run but the last of a long stretch of zeros has length 255.
-/
namespace ViewerCircuit.ZeroCoding

def run (length : Nat) : Bytes :=
  if length = 0 then [] else [0, UInt8.ofNat length]

/-- Encodes what follows `pending` zeros. -/
def encodeAfter (pending : Nat) : Bytes → Bytes
  | [] => run pending
  | b :: rest =>
    if b = 0 then
      if pending = 255 then run pending ++ encodeAfter 1 rest else encodeAfter (pending + 1) rest
    else run pending ++ b :: encodeAfter 0 rest

def encode (bytes : Bytes) : Bytes := encodeAfter 0 bytes

def decode : Bytes → Except DecodeError Bytes
  | [] => .ok []
  | b :: rest =>
    if b = 0 then
      match rest with
      | [] => .error .unterminatedRun
      | length :: rest =>
        if length = 0 then .error .emptyRun
        else (decode rest).map (List.replicate length.toNat 0 ++ ·)
    else (decode rest).map (b :: ·)

def decodeOnto (output : Bytes) : Bytes → Except DecodeError Bytes
  | [] => .ok output
  | b :: rest =>
    if b = 0 then
      match rest with
      | [] => .error .unterminatedRun
      | length :: rest =>
        if length = 0 then .error .emptyRun
        else decodeOnto (output ++ List.replicate length.toNat 0) rest
    else decodeOnto (output ++ [b]) rest

end ViewerCircuit.ZeroCoding
