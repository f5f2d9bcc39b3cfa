import ViewerCircuit.Packet.Basic
import ViewerCircuit.Table

/-!
# The packet pool

Packets that come back are reset and kept, by kind, for the next packet of that kind. A pool only
saves work: what it hands out equals a fresh packet.
-/
namespace ViewerCircuit

structure PacketPool where
  enabled : Bool
  maxPerKind : Nat
  packets : Table MessageKind (List Packet) := []
  hits : Nat := 0
  misses : Nat := 0
  deriving DecidableEq, Repr

namespace PacketPool

def pooled (pool : PacketPool) (kind : MessageKind) : List Packet :=
  (pool.packets.get? kind).getD []

def serves (pool : PacketPool) (kind : MessageKind) : Bool :=
  pool.enabled && kind != .unknown

def draw (pool : PacketPool) (kind : MessageKind) : Packet × PacketPool :=
  match pool.serves kind, pool.pooled kind with
  | true, p :: rest =>
    (p, { pool with packets := pool.packets.put kind rest, hits := pool.hits + 1 })
  | _, _ => (.ofMessage (.empty kind), { pool with misses := pool.misses + 1 })

def drawFor (pool : PacketPool) (message : Message) : Packet × PacketPool :=
  let (p, pool) := pool.draw message.kind
  ({ p with message }, pool)

def takeBack (pool : PacketPool) (p : Packet) : PacketPool :=
  if pool.serves p.kind then
    let kept := pool.pooled p.kind
    if kept.length < pool.maxPerKind then
      { pool with packets := pool.packets.put p.kind (p.reset :: kept) }
    else pool
  else pool

structure Loan where
  packet : Option Packet
  deriving DecidableEq, Repr

def lend (p : Packet) : Loan := ⟨some p⟩

namespace Loan

def change (f : Packet → Packet) (loan : Loan) : Loan := ⟨loan.packet.map f⟩

def take (loan : Loan) : Option Packet × Loan := (loan.packet, ⟨none⟩)

end Loan

/-- Ends a loan: the packet goes back to the pool, unless it was taken out. -/
def drop (pool : PacketPool) (loan : Loan) : PacketPool :=
  match loan.take.1 with
  | some p => pool.takeBack p
  | none => pool

inductive LoanEnd where
  | dropped
  | kept
  deriving DecidableEq, Repr

/-- Lends a packet and ends the loan: a packet that is kept stays with its holder. -/
def endLoan (pool : PacketPool) (p : Packet) : LoanEnd → Option Packet × PacketPool
  | .dropped => (none, pool.drop (lend p))
  | .kept =>
    let (kept, loan) := (lend p).take
    (kept, pool.drop loan)

end PacketPool
end ViewerCircuit
