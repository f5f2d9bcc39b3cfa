/-!
# Time

Instants and durations are natural numbers of nanoseconds, counted from the start of a run.
Nothing here reads a clock: every rule that depends on time takes the instant as an argument.
-/
namespace ViewerCircuit.Time

def millisecond : Nat := 1000000

def second : Nat := 1000000000

def ofMilliseconds (n : Nat) : Nat := n * millisecond

def toMilliseconds (t : Nat) : Nat := t / millisecond

/-- The first whole millisecond that is not before `t`; tasks sleep until whole milliseconds. -/
def ceilMillisecond (t : Nat) : Nat :=
  (t + (millisecond - 1)) / millisecond * millisecond

end ViewerCircuit.Time
