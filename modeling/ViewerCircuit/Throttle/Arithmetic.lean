import ViewerCircuit.Number.Binary
import ViewerCircuit.Time

/-!
# Budget arithmetic

Budgets accrue over time. The rules for them are stated over any numbers that have these
operations: double-precision numbers and whole nanoseconds when the program runs, and exact
fractions where its rates are reasoned about.
-/
namespace ViewerCircuit

class Amount (α : Type) where
  ofNat : Nat → α

class Clock (τ : Type) (α : outParam Type) where
  seconds : τ → α
  ofSeconds : α → τ
  millisecond : τ

instance : Amount Float where
  ofNat := Float.ofNat

instance : Clock Nat Float where
  seconds t := Float.ofNat (t / Time.second) + Float.ofNat (t % Time.second) / 1e9
  ofSeconds s := (Binary.ofFloat s).scaleRound Time.second
  millisecond := Time.millisecond

end ViewerCircuit
