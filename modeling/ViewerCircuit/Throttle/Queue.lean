import ViewerCircuit.Packet.Basic
import ViewerCircuit.Throttle.Bucket
import ViewerCircuit.Throttle.Category

/-!
# The throttled queue

One queue holds the decoded inbound packets and, per category, the outbound packets of a circuit.
Inbound packets leave first; outbound packets leave when their category has the budget, and the
categories take turns.
-/
namespace ViewerCircuit

abbrev Rates := PerCategory UInt32

inductive Delivery where
  | unreliable
  | reliable
  | resend
  deriving DecidableEq, Repr

structure Outgoing where
  bytes : Bytes
  kind : MessageKind
  sequence : UInt32
  delivery : Delivery
  category : Category
  deriving DecidableEq, Repr

structure Queue (τ α : Type) where
  incoming : List Packet
  outgoing : PerCategory (List Outgoing)
  buckets : PerCategory (Bucket τ α)
  turn : Category
  closed : Bool
  calls : Nat

inductive Dequeued (τ : Type) where
  | incoming (p : Packet)
  | outgoing (p : Outgoing)
  | poison
  | wait (duration : τ)
  | idle
  deriving DecidableEq, Repr

namespace Queue

variable {τ α : Type} [Add α] [Sub α] [Mul α] [Div α] [LE α] [DecidableLE α] [Min α] [Max α]
  [Amount α] [Sub τ] [LE τ] [DecidableLE τ] [Min τ] [Max τ] [Clock τ α]

def new (rates : Rates) (burst : τ) (minCapacity : Nat) (now : τ) : Queue τ α where
  incoming := []
  outgoing := .all []
  buckets := .ofFn fun c => .new (rates.get c) burst minCapacity now
  turn := .resend
  closed := false
  calls := 0

def length (q : Queue τ α) : Nat :=
  q.incoming.length + q.outgoing.toList.flatten.length

def deliver (q : Queue τ α) (p : Packet) : Queue τ α :=
  { q with incoming := q.incoming ++ [p], calls := q.calls + 1 }

def enqueue (q : Queue τ α) (p : Outgoing) : Queue τ α :=
  { q with
    outgoing := q.outgoing.set p.category (q.outgoing.get p.category ++ [p])
    calls := q.calls + 1 }

/-- Looks for a packet that may leave, in the order of the categories given. Buckets are refilled
where packets wait; `best` is the shortest wait found so far. -/
def search (now : τ) : List Category → Option τ → Queue τ α → Dequeued τ × Queue τ α
  | [], none, q => (.idle, q)
  | [], some w, q => (.wait w, q)
  | c :: rest, best, q =>
    match q.outgoing.get c with
    | [] => search now rest best q
    | p :: others =>
      let bucket := (q.buckets.get c).refill now
      match bucket.consume? p.bytes.length with
      | some paid =>
        (.outgoing p, { q with
          outgoing := q.outgoing.set c others
          buckets := q.buckets.set c paid
          turn := c.next })
      | none =>
        let wait := bucket.timeUntil p.bytes.length
        search now rest (some (best.elim wait (min · wait)))
          { q with buckets := q.buckets.set c bucket }

/-- Releases the next outbound packet whose category has the budget, starting after the category
served last. -/
def release (q : Queue τ α) (now : τ) : Dequeued τ × Queue τ α :=
  search now q.turn.roundFrom none q

def look (q : Queue τ α) (now : τ) : Dequeued τ × Queue τ α :=
  if q.closed then (.poison, q)
  else
    match q.incoming with
    | p :: rest => (.incoming p, { q with incoming := rest })
    | [] => q.release now

def withRates (q : Queue τ α) (rates : Rates) (now : τ) : Queue τ α :=
  { q with
    buckets := .ofFn fun c => (q.buckets.get c).withRate (rates.get c) now
    calls := q.calls + 1 }

def rates (q : Queue τ α) : Rates := .ofFn fun c => (q.buckets.get c).rate

def close (q : Queue τ α) : Queue τ α :=
  if q.closed then q else { q with closed := true, calls := q.calls + 1 }

/-- Removes all outbound packets in the order of the categories, and discards the inbound ones. -/
def flush (q : Queue τ α) : List Outgoing × Queue τ α :=
  (q.outgoing.toList.flatten, { q with incoming := [], outgoing := .all [] })

end Queue

namespace Queue

variable {τ α : Type}

@[simp] theorem rates_get (q : Queue τ α) (c : Category) :
    q.rates.get c = (q.buckets.get c).rate :=
  PerCategory.get_ofFn _ c

variable [Mul α] [Max α] [Amount α] [Clock τ α]

@[simp] theorem new_get (rates : Rates) (burst : τ) (minCapacity : Nat) (now : τ) (c : Category) :
    (new rates burst minCapacity now : Queue τ α).buckets.get c =
      .new (rates.get c) burst minCapacity now :=
  PerCategory.get_ofFn _ c

variable [Add α] [Min α] [Sub τ] [LE τ] [DecidableLE τ]

@[simp] theorem withRates_get (q : Queue τ α) (rates : Rates) (now : τ) (c : Category) :
    (q.withRates rates now).buckets.get c = (q.buckets.get c).withRate (rates.get c) now :=
  PerCategory.get_ofFn _ c

end Queue
end ViewerCircuit
