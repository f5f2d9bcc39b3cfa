import ViewerCircuit.Throttle.Queue

/-!
# A consumer in simulated time

Someone takes items from a throttled queue and sleeps while none can leave. Once, while it waits,
something else may happen to the queue.
-/
namespace ViewerCircuit

structure Consumer where
  queue : Queue Nat Float
  now : Nat := 0

namespace Consumer

structure Interlude where
  time : Nat
  action : Nat → Queue Nat Float → Queue Nat Float

def play (interlude : Interlude) (c : Consumer) : Consumer :=
  let now := max c.now interlude.time
  { queue := interlude.action now c.queue, now }

/-- Waits for an item until the deadline, and looks at most `looks` times. The interlude that has
not happened yet is returned. -/
def watch (deadline : Nat) : (looks : Nat) → Option Interlude → Consumer →
    Option (Dequeued Nat) × Option Interlude × Consumer
  | 0, interlude, c => (none, interlude, c)
  | looks + 1, interlude, c =>
    let (found, queue) := c.queue.look c.now
    let c := { c with queue }
    let asleep (wake : Option Nat) :=
      let next := wake.getD (deadline + 1)
      match interlude with
      | some i =>
        if i.time ≤ deadline ∧ i.time < next then
          let after := c.play i
          if c.queue.calls < after.queue.calls then watch deadline looks none after
          else if next ≤ deadline then watch deadline looks none { after with now := next }
          else (none, none, { after with now := deadline })
        else if next ≤ deadline then watch deadline looks interlude { c with now := next }
        else (none, interlude, { c with now := deadline })
      | none =>
        if next ≤ deadline then watch deadline looks none { c with now := next }
        else (none, none, { c with now := deadline })
    match found with
    | .wait w => asleep (some (Time.ceilMillisecond (c.now + w)))
    | .idle => asleep none
    | item => (some item, interlude, c)

def dequeue (timeout : Nat) (interlude : Option Interlude) (c : Consumer) :
    Option (Dequeued Nat) × Consumer :=
  let looks := Time.toMilliseconds timeout + 3
  let (item, left, c) := watch (c.now + timeout) looks interlude c
  (item, left.elim c c.play)

end Consumer
end ViewerCircuit
