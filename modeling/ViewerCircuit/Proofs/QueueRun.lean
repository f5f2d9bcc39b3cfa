import ViewerCircuit.Throttle.Queue

/-!
# Runs of a queue

What can be done to a throttled queue, in any order, and what passes through it meanwhile. A look
and a release hand out one packet at most, the first one of its category.
-/
namespace ViewerCircuit

namespace PerCategory

/-- Where each packet waits in its own category, one category can be read off all of them. -/
theorem filter_flatten {p : PerCategory (List Outgoing)}
    (h : ∀ c, ∀ o ∈ p.get c, o.category = c) (c : Category) :
    p.toList.flatten.filter (·.category = c) = p.get c := by
  have own : ∀ d, (p.get d).filter (·.category = c) = if d = c then p.get d else [] := by
    intro d
    split
    · next hd =>
      apply List.filter_eq_self.2
      intro o ho
      simp [h d o ho, hd]
    · next hd =>
      apply List.filter_eq_nil_iff.2
      intro o ho
      simp [h d o ho, hd]
  simp only [toList, Category.all, List.map_cons, List.map_nil, List.flatten_cons,
    List.flatten_nil, List.filter_append, own]
  cases c <;> simp

end PerCategory

namespace Dequeued

variable {τ : Type}

def incoming? : Dequeued τ → Option Packet
  | incoming p => some p
  | _ => none

def outgoing? : Dequeued τ → Option Outgoing
  | outgoing o => some o
  | _ => none

end Dequeued

namespace Queue

inductive Op (τ : Type) where
  | deliver (p : Packet)
  | enqueue (o : Outgoing)
  | look (now : τ)
  | release (now : τ)
  | withRates (rates : Rates) (now : τ)
  | close
  | flush

namespace Op

variable {τ : Type}

def delivered? : Op τ → Option Packet
  | deliver p => some p
  | _ => none

def enqueued? : Op τ → Option Outgoing
  | enqueue o => some o
  | _ => none

def time? : Op τ → Option τ
  | look now => some now
  | release now => some now
  | withRates _ now => some now
  | _ => none

end Op

section

variable {τ α : Type} (q : Queue τ α)

theorem close_closed : q.close.closed = true := by
  unfold close
  split
  · assumption
  · rfl

theorem close_incoming : q.close.incoming = q.incoming := by
  unfold close
  split <;> rfl

theorem close_outgoing : q.close.outgoing = q.outgoing := by
  unfold close
  split <;> rfl

theorem close_buckets : q.close.buckets = q.buckets := by
  unfold close
  split <;> rfl

variable [Add α] [Sub α] [Mul α] [Div α] [LE α] [DecidableLE α] [Min α] [Amount α]
  [Sub τ] [LE τ] [DecidableLE τ] [Min τ] [Max τ] [Clock τ α]

/-- What a search leaves of the queue: at most one packet less, the first of its category. -/
theorem search_spec (now : τ) (cs : List Category) (best : Option τ) :
    (search now cs best q).2.closed = q.closed ∧
      (search now cs best q).2.incoming = q.incoming ∧
      ((∃ c p rest, (search now cs best q).1 = .outgoing p ∧ q.outgoing.get c = p :: rest ∧
          (search now cs best q).2.outgoing = q.outgoing.set c rest) ∨
        ((∃ w, (search now cs best q).1 = .wait w) ∨ (search now cs best q).1 = .idle) ∧
          (search now cs best q).2.outgoing = q.outgoing) := by
  induction cs generalizing best q with
  | nil =>
    cases best with
    | none => exact ⟨rfl, rfl, .inr ⟨.inr rfl, rfl⟩⟩
    | some w => exact ⟨rfl, rfl, .inr ⟨.inl ⟨w, rfl⟩, rfl⟩⟩
  | cons c cs ih =>
    cases hc : q.outgoing.get c with
    | nil =>
      have hs : search now (c :: cs) best q = search now cs best q := by simp [search, hc]
      rw [hs]
      exact ih q best
    | cons p rest =>
      cases hp : ((q.buckets.get c).refill now).consume? p.bytes.length with
      | some paid =>
        simp only [search, hc, hp]
        exact ⟨trivial, trivial, .inl ⟨c, p, rest, rfl, hc, rfl⟩⟩
      | none =>
        simp only [search, hc, hp]
        exact ih { q with buckets := q.buckets.set c ((q.buckets.get c).refill now) } _

theorem look_closed (now : τ) (h : q.closed = true) : q.look now = (.poison, q) := if_pos h

/-- A look finds the poison, or else the first inbound packet, or else searches among the outbound
packets. -/
theorem look_cases (now : τ) :
    (q.closed = true ∧ q.look now = (.poison, q)) ∨
      q.closed = false ∧ ((∃ p rest, q.incoming = p :: rest ∧
          q.look now = (.incoming p, { q with incoming := rest })) ∨
        q.incoming = [] ∧ q.look now = q.release now) := by
  cases hc : q.closed with
  | true => exact .inl ⟨rfl, q.look_closed now hc⟩
  | false =>
    refine .inr ⟨rfl, ?_⟩
    cases hi : q.incoming with
    | cons p rest => exact .inl ⟨p, rest, rfl, by simp [look, hc, hi]⟩
    | nil => exact .inr ⟨rfl, by simp [look, hc, hi]⟩

end

variable {τ α : Type} [Add α] [Sub α] [Mul α] [Div α] [LE α] [DecidableLE α] [Min α] [Max α]
  [Amount α] [Sub τ] [LE τ] [DecidableLE τ] [Min τ] [Max τ] [Clock τ α]

def perform (q : Queue τ α) : Op τ → Queue τ α
  | .deliver p => q.deliver p
  | .enqueue o => q.enqueue o
  | .look now => (q.look now).2
  | .release now => (q.release now).2
  | .withRates rates now => q.withRates rates now
  | .close => q.close
  | .flush => q.flush.2

def after (q : Queue τ α) (ops : List (Op τ)) : Queue τ α := ops.foldl perform q

theorem after_cons (q : Queue τ α) (op : Op τ) (ops : List (Op τ)) :
    q.after (op :: ops) = (q.perform op).after ops := rfl

theorem after_append (q : Queue τ α) (ops later : List (Op τ)) :
    q.after (ops ++ later) = (q.after ops).after later := List.foldl_append

def released? (q : Queue τ α) : Op τ → Option Outgoing
  | .look now => (q.look now).1.outgoing?
  | .release now => (q.release now).1.outgoing?
  | _ => none

end Queue
end ViewerCircuit
