import ViewerCircuit.Address

/-!
# Reading addresses

The spellings that `Address.toString` produces, and those with leading zeros or other groups left
out, are read back.
-/
namespace ViewerCircuit

def splitChars (separator : Char) : List Char → List (List Char)
  | [] => [[]]
  | c :: rest =>
    match splitChars separator rest with
    | [] => [[c]]
    | part :: parts => if c = separator then [] :: part :: parts else (c :: part) :: parts

def digitValue? (c : Char) : Option Nat :=
  if '0' ≤ c && c ≤ '9' then some (c.toNat - '0'.toNat)
  else if 'a' ≤ c && c ≤ 'f' then some (c.toNat - 'a'.toNat + 10)
  else if 'A' ≤ c && c ≤ 'F' then some (c.toNat - 'A'.toNat + 10)
  else none

def number? (base : Nat) (digits : List Char) : Option Nat :=
  if digits.isEmpty then none
  else digits.foldlM (fun n c => do
    let d ← digitValue? c
    if d < base then some (n * base + d) else none) 0

def numberBelow? (base bound : Nat) (digits : List Char) : Option Nat :=
  (number? base digits).filter (· < bound)

def Ipv4.ofChars? (text : List Char) : Option Ipv4 := do
  let octets ← (splitChars '.' text).mapM (numberBelow? 10 256)
  if octets.length = 4 then some ⟨UInt32.ofNat (ofBigEndian (octets.map UInt8.ofNat))⟩ else none

/-- Groups between colons; the last one may be an IPv4 address, which stands for two. -/
def ipv6Groups? (text : List Char) : Option (List Nat) :=
  if text.isEmpty then some []
  else do
    let groups ← (splitChars ':' text).mapM fun part =>
      if part.contains '.' then do
        let ip ← Ipv4.ofChars? part
        some [ip.value.toNat / 65536, ip.value.toNat % 65536]
      else (numberBelow? 16 65536 part).map ([·])
    some groups.flatten

def splitDoubleColon : List Char → Option (List Char × List Char)
  | ':' :: ':' :: rest => some ([], rest)
  | c :: rest => (splitDoubleColon rest).map fun (before, after) => (c :: before, after)
  | [] => none

def Ipv6.ofChars? (text : List Char) : Option Ipv6 :=
  match splitDoubleColon text with
  | none => do
    let groups ← ipv6Groups? text
    if groups.length = 8 then some (Ipv6.ofGroups groups) else none
  | some (before, after) => do
    let front ← ipv6Groups? before
    let back ← ipv6Groups? after
    let missing := 8 - (front.length + back.length)
    if front.length + back.length < 8 then
      some (Ipv6.ofGroups (front ++ List.replicate missing 0 ++ back))
    else none

def IpAddress.ofString? (text : String) : Option IpAddress :=
  (Ipv4.ofChars? text.toList).map .v4 <|> (Ipv6.ofChars? text.toList).map .v6

/-- The zone behind an IPv6 address; no text stands for zone zero. -/
def zone? : List Char → Option Nat
  | [] => some 0
  | _ :: digits => numberBelow? 10 4294967296 digits

def Address.ofString? (text : String) : Option Address :=
  match text.toList with
  | '[' :: rest => do
    let port ← numberBelow? 10 65536 ((rest.dropWhile (· ≠ ']')).drop 2)
    let inside := rest.takeWhile (· ≠ ']')
    let ip ← Ipv6.ofChars? (inside.takeWhile (· ≠ '%'))
    let zone ← zone? (inside.dropWhile (· ≠ '%'))
    some (.v6 ip (UInt16.ofNat port) (UInt32.ofNat zone))
  | chars => do
    let port ← numberBelow? 10 65536 ((chars.dropWhile (· ≠ ':')).drop 1)
    let ip ← Ipv4.ofChars? (chars.takeWhile (· ≠ ':'))
    some (.v4 ip (UInt16.ofNat port))

end ViewerCircuit
