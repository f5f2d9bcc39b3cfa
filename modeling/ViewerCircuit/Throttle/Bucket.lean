import ViewerCircuit.Throttle.Arithmetic

/-!
# Token buckets

A bucket accrues bytes at its rate up to its capacity and starts empty. A packet larger than the
capacity leaves as soon as the bucket is full, and the bucket then owes the difference.
-/
namespace ViewerCircuit

structure Bucket (τ α : Type) where
  rate : UInt32
  tokens : α
  capacity : α
  burst : τ
  minCapacity : Nat
  lastRefill : τ

namespace Bucket

variable {τ α : Type} [Add α] [Sub α] [Mul α] [Div α] [LE α] [DecidableLE α] [Min α] [Max α]
  [Amount α] [Sub τ] [LE τ] [DecidableLE τ] [Min τ] [Max τ] [Clock τ α]

def capacityAt (rate : UInt32) (burst : τ) (minCapacity : Nat) : α :=
  max (Amount.ofNat rate.toNat * Clock.seconds burst) (Amount.ofNat minCapacity)

def new (rate : UInt32) (burst : τ) (minCapacity : Nat) (now : τ) : Bucket τ α where
  rate
  tokens := Amount.ofNat 0
  capacity := capacityAt rate burst minCapacity
  burst
  minCapacity
  lastRefill := now

/-- Credits the time since the last refill; going back in time credits nothing. -/
def refill (b : Bucket τ α) (now : τ) : Bucket τ α :=
  if now ≤ b.lastRefill then b
  else
    let elapsed := Clock.seconds (now - b.lastRefill)
    { b with
      tokens := min (b.tokens + elapsed * Amount.ofNat b.rate.toNat) b.capacity
      lastRefill := now }

/-- The budget up to `now` accrues at the old rate. -/
def withRate (b : Bucket τ α) (rate : UInt32) (now : τ) : Bucket τ α :=
  let credited := b.refill now
  let capacity := capacityAt rate b.burst b.minCapacity
  { credited with rate, capacity, tokens := min credited.tokens capacity }

/-- The tokens that must be there before a packet of `size` bytes leaves. -/
def required (b : Bucket τ α) (size : Nat) : α := min (Amount.ofNat size) b.capacity

def consume? (b : Bucket τ α) (size : Nat) : Option (Bucket τ α) :=
  if b.required size ≤ b.tokens then some { b with tokens := b.tokens - Amount.ofNat size }
  else none

/-- How long it takes until the bucket covers `size` bytes: a millisecond at least. -/
def timeUntil (b : Bucket τ α) (size : Nat) : τ :=
  let missing := b.required size - b.tokens
  if missing ≤ Amount.ofNat 0 ∨ b.rate = 0 then Clock.millisecond
  else max (Clock.ofSeconds (missing / Amount.ofNat b.rate.toNat)) Clock.millisecond

end Bucket
end ViewerCircuit
