import ViewerCircuit.Proofs.Deeds

/-!
# Dispatching

The handlers of the simulation for a kind of packet are tried in the order of their registries, and
a built-in one comes after all of them. The first that does not decline ends the dispatch. A
dispatch breaks off where a handler fails, or a subscriber that a built-in handler tells, or where a
built-in handler cannot do what it was asked for.
-/
namespace ViewerCircuit

namespace Circuit

def added? (c : Circuit) (kind : MessageKind) : Option Handler :=
  match c.defaults.get? kind with
  | some (.added h) => some h
  | _ => none

/-- The handlers of the simulation for a kind of packet, those of the circuit first. -/
def registered (globals : Registry Handler) (kind : MessageKind) (c : Circuit) : List Handler :=
  (c.handlers.get? kind).toList ++ (globals.get? kind).toList ++ (c.added? kind).toList

end Circuit

namespace Site

def notify (conduct : Conduct) (now : Nat) (event : ViewerEvent) (h : Handler) (s : Site) :
    Outcome × Site :=
  (s.emit (.eventPublished h.tag event)).call conduct now (.event event) h

/-- Handlers are called one after the other, and each ends in one of these outcomes. -/
inductive Passes (call : Handler → Site → Outcome × Site) (outcomes : Outcome → Prop) :
    List Handler → Site → Site → Prop
  | nil {s} : Passes call outcomes [] s s
  | cons {h handlers outcome s u v} (hh : call h s = (outcome, u)) (ho : outcomes outcome)
      (rest : Passes call outcomes handlers u v) : Passes call outcomes (h :: handlers) s v

abbrev Heard (conduct : Conduct) (now : Nat) (event : ViewerEvent) :
    List Handler → Site → Site → Prop :=
  Passes (notify conduct now event) (·.isFailure = false)

/-- How a built-in handler fails: over budgets that cannot be granted, or over a subscriber. No
subscriber behind the one that fails is told. -/
inductive BuiltInFails (conduct : Conduct) (now : Nat) (p : Packet) (s : Site) :
    BuiltIn → Outcome → Site → Prop
  | throttle {m e} (hm : p.message = .agentThrottle m)
      (he : Rates.grant s.circuit.queue.rates m.throttles s.circuit.config.throttle = .error e) :
    BuiltInFails conduct now p s .applyThrottle .failed s
  | subscriber {event told h later outcome u v}
      (he : ViewerEvent.ofMessage? s.circuit.viewer.agentId p.message = some event)
      (hs : subscribersFor event.kind s.circuit = told ++ h :: later)
      (ht : Heard conduct now event told s u) (hh : u.notify conduct now event h = (outcome, v))
      (hf : outcome.isFailure = true) :
    BuiltInFails conduct now p s .publish outcome v

variable {conduct : Conduct} {now : Nat} {p : Packet} {s u v : Site} {h : Handler}
  {outcome : Outcome} {last : Site → Outcome × Site}

theorem publishTo_cons (event : ViewerEvent) (h : Handler) (handlers : List Handler) (s : Site) :
    publishTo conduct now event (h :: handlers) s =
      if (s.notify conduct now event h).1.isFailure then s.notify conduct now event h
      else publishTo conduct now event handlers (s.notify conduct now event h).2 := rfl

theorem publishTo_fails {event : ViewerEvent} {told later : List Handler}
    (ht : Heard conduct now event told s u) (hh : u.notify conduct now event h = (outcome, v))
    (hf : outcome.isFailure = true) :
    publishTo conduct now event (told ++ h :: later) s = (outcome, v) := by
  induction ht with
  | nil => rw [List.nil_append, publishTo_cons, hh, if_pos hf]
  | cons hg fine rest ih =>
    rw [List.cons_append, publishTo_cons, hg, if_neg (by simp [fine])]
    exact ih hh

theorem BuiltInFails.run {h : BuiltIn} (hb : BuiltInFails conduct now p s h outcome u) :
    s.runBuiltIn conduct now h p = (outcome, u) ∧ outcome.isFailure = true := by
  cases hb with
  | throttle hm he => simp [runBuiltIn, hm, applyThrottles, he, Outcome.isFailure]
  | subscriber he hs ht hh hf =>
    refine ⟨?_, hf⟩
    rw [runBuiltIn, publish, he]
    dsimp only
    rw [hs]
    exact publishTo_fails ht hh hf

end Site
end ViewerCircuit
