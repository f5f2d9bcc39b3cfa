import ViewerCircuit.Uuid

/-!
# Network addresses

The addresses of viewers, as they are written in logs: octets with dots, or groups of hexadecimal
digits with the longest run of zero groups left out.
-/
namespace ViewerCircuit

structure Ipv4 where
  value : UInt32
  deriving DecidableEq, Repr

namespace Ipv4

def unspecified : Ipv4 := ⟨0⟩

instance : Inhabited Ipv4 := ⟨unspecified⟩

def codec : Codec Ipv4 := Codec.u32Big.view mk value

def ofOctets (a b c d : UInt8) : Ipv4 :=
  ⟨UInt32.ofNat (ofBigEndian [a, b, c, d])⟩

def octets (ip : Ipv4) : List UInt8 := bigEndian 4 ip.value.toNat

def toString (ip : Ipv4) : String := ".".intercalate (ip.octets.map fun b => s!"{b.toNat}")

end Ipv4

structure Ipv6 where
  value : BitVec 128
  deriving DecidableEq, Repr

namespace Ipv6

def ofGroups (groups : List Nat) : Ipv6 :=
  ⟨BitVec.ofNat 128 (groups.foldl (fun n g => n * 65536 + g) 0)⟩

def groups (ip : Ipv6) : List Nat :=
  (List.range 8).map fun i => ip.value.toNat >>> (16 * (7 - i)) % 65536

def zeroRun (groups : List Nat) : Nat := (groups.takeWhile (· == 0)).length

def longestZeroRun (groups : List Nat) : Nat × Nat :=
  (List.range groups.length).foldl
    (fun best start =>
      let length := zeroRun (groups.drop start)
      if best.2 < length then (start, length) else best)
    (0, 0)

def group (n : Nat) : String := String.ofList (Nat.toDigits 16 n)

def joined (groups : List Nat) : String := ":".intercalate (groups.map group)

/-- A run of at least two zero groups is left out, and an address that embeds an IPv4 address
ends in its octets. -/
def toString (ip : Ipv6) : String :=
  let gs := groups ip
  if ip.value.toNat >>> 32 = 0xFFFF then
    "::ffff:" ++ Ipv4.toString ⟨UInt32.ofNat ip.value.toNat⟩
  else
    let (start, length) := longestZeroRun gs
    if length < 2 then joined gs
    else joined (gs.take start) ++ "::" ++ joined (gs.drop (start + length))

end Ipv6

inductive IpAddress where
  | v4 (ip : Ipv4)
  | v6 (ip : Ipv6)
  deriving DecidableEq, Repr

def IpAddress.toString : IpAddress → String
  | v4 ip => ip.toString
  | v6 ip => ip.toString

/-- Where datagrams come from and go to. The zone tells the links apart that an IPv6 address may
belong to; zero stands for none in particular. -/
inductive Address where
  | v4 (ip : Ipv4) (port : UInt16)
  | v6 (ip : Ipv6) (port : UInt16) (zone : UInt32)
  deriving DecidableEq, Repr

namespace Address

def ip : Address → IpAddress
  | v4 ip _ => .v4 ip
  | v6 ip _ _ => .v6 ip

def port : Address → UInt16
  | v4 _ port => port
  | v6 _ port _ => port

def toString : Address → String
  | v4 ip port => s!"{ip.toString}:{port.toNat}"
  | v6 ip port zone =>
    let suffix := if zone = 0 then "" else s!"%{zone.toNat}"
    s!"[{ip.toString}{suffix}]:{port.toNat}"

/-- Family, address, port and zone: the order in which addresses are listed. -/
def sortKey : Address → List Nat
  | v4 ip port => [4, ip.value.toNat, port.toNat]
  | v6 ip port zone => [6, ip.value.toNat, port.toNat, zone.toNat]

def le (a b : Address) : Bool := !b.sortKey.lex a.sortKey Nat.blt

end Address
end ViewerCircuit
