import ViewerCircuit.Proofs.CourseRun
import ViewerCircuit.Proofs.Delivery

/-!
# Silence of the wire

Nothing is handed to the transport before the authenticator lets the viewer in, or after the circuit
was closed. What callers queue meanwhile waits, or is lost.
-/
namespace ViewerCircuit

open Relation (ReflTransGen)

def wire (history : List Effect) : List Effect := history.filter Effect.isTransmission

def Event.refuses : Event → Bool
  | authenticated _ .rejected => true
  | authenticated _ .failed => true
  | _ => false

theorem wire_append (history l : List Effect) : wire (history ++ l) = wire history ++ wire l :=
  List.filter_append ..

def Stage.transmits : Stage → Bool
  | serving => true
  | flushing _ _ => true
  | _ => false

namespace Traffic

variable {plain : Prop} {now : Nat} {t u : Traffic}

/-- An open queue that is served, and packets that are left to be flushed, are all that goes on the
wire. -/
theorem Step.wire_idle (h : Step plain now t u)
    (hs : ∀ i, t.stage? i = some .serving → t.closed = true)
    (hf : ∀ i joined remaining, t.stage? i = some (.flushing joined remaining) → remaining = []) :
    wire u.history = wire t.history := by
  have grown : ∀ {e : Effect}, u.history = t.history ++ [e] → e.isTransmission = false →
      wire u.history = wire t.history := by
    intro e hu he
    rw [hu, wire_append]
    simp [wire, he]
  cases h with
  | @note e he =>
    refine grown (e := e) rfl ?_
    cases e <;> first | rfl | cases he
  | queue | queueAcks | requeue | turnAway | receive | close => exact grown rfl rfl
  | process hstage hopen | release hstage hopen =>
    exact absurd (hs _ hstage) (Bool.eq_false_iff.1 hopen)
  | flush hstage => exact absurd (hf _ _ _ hstage) (List.cons_ne_nil _ _)
  | _ => rfl

theorem Step.wire_kept (h : Step plain now t u)
    (hs : ∀ i stage, t.stage? i = some stage → stage.transmits = false) :
    wire u.history = wire t.history := by
  refine h.wire_idle ?_ ?_
  · intro i hstage
    exact Bool.noConfusion (hs i _ hstage)
  · intro i joined remaining hstage
    exact Bool.noConfusion (hs i _ hstage)

/-- Before it is authorized, and once it is closed, a circuit with one attendant hands nothing to
the transport. -/
theorem Lifecycle.hushed {i : AttendantId} {stage : Stage} (ht : t.Lifecycle)
    (hl : t.attendants.length ≤ 1) (h : t.authorized = false ∨ t.phase = .closed)
    (hs : t.stage? i = some stage) : stage.transmits = false := by
  obtain ⟨-, a, hat, hstage, told⟩ := ht.only hl hs
  have admitted : t.authorized = true → stage ≠ .ended → False := by
    intro ha hne
    rcases h with h | h
    · exact Bool.noConfusion (h.symm.trans ha)
    · exact (ht.alive hat (by rwa [hstage])).1 h
  cases stage with
  | serving => exact (admitted told.1 Stage.noConfusion).elim
  | flushing => exact (admitted told.1 Stage.noConfusion).elim
  | _ => rfl

theorem Step.authorized_kept (h : Step plain now t u) (ha : t.authorized = true) :
    u.authorized = true := by
  cases h with
  | authorize | authorizeLate => rfl
  | _ => exact ha

theorem Step.closed_kept (h : Step plain now t u) (hp : t.phase = .closed) : u.phase = .closed := by
  cases h with
  | close =>
    show (if t.phase.isEnding then t.phase else Phase.closing) = .closed
    rw [hp]
    rfl
  | join =>
    show (if t.phase = Phase.authenticating then Phase.active else t.phase) = .closed
    rw [hp]
    rfl
  | refuse | leave => rfl
  | _ => exact hp

theorem Reachable.unauthorized {timed : Prop} {start : Traffic} {starts clock : Nat}
    (h : Reachable plain timed start starts clock t) (hs : start.attendants = [])
    (hl : start.Lifecycle) (hw : wire start.history = []) (hn : starts ≤ 1)
    (ha : t.authorized = false) : wire t.history = [] := by
  induction h with
  | refl => exact hw
  | started _ ih => exact ih (by omega) ha
  | wait _ _ ih => exact ih hn ha
  | step h step ih =>
    have before := Bool.eq_false_iff.2 fun k =>
      Bool.noConfusion (ha.symm.trans (step.authorized_kept k))
    have one := (h.length_attendants hs).trans_le hn
    rw [step.wire_kept fun _ _ => (h.lifecycle hs hl hn).hushed one (.inl before)]
    exact ih hn before

/-- The wire stays as it was when the circuit was closed. -/
theorem Lifecycle.closed_wire (ht : t.Lifecycle) (hl : t.attendants.length ≤ 1)
    (hp : t.phase = .closed) (h : ReflTransGen (Step plain now) t u) :
    wire u.history = wire t.history := by
  suffices wire u.history = wire t.history ∧ u.Lifecycle ∧ u.attendants.length ≤ 1 ∧
    u.phase = .closed from this.1
  induction h with
  | refl => exact ⟨rfl, ht, hl, hp⟩
  | tail _ step ih =>
    obtain ⟨hwire, life, one, closed⟩ := ih
    have kept := step.wire_kept fun _ _ => life.hushed one (.inr closed)
    exact ⟨kept.trans hwire, step.lifecycle life one, step.length_attendants.trans_le one,
      step.closed_kept closed⟩

end Traffic

namespace Site

/-- What a circuit that is started once hands to the transport, whatever callers do. -/
structure WireKept (s : Site) (moves : List Move) : Prop where
  admitted : wire (s.follow moves).history ≠ [] → s.Admitted moves
  refused : ∀ e ∈ s.taken moves, e.refuses = true → wire (s.follow moves).history = []
  closed : ∀ before, before <+: moves → (s.follow before).circuit.phase = .closed →
    wire (s.follow moves).history = wire (s.follow before).history

variable (config : Config) (viewer : Viewer) (remote : Address) (since : Nat)

theorem follow_lifecycle {moves : List Move} (hm : StartedOnce moves) :
    ((opened config viewer remote since).follow moves).traffic.Lifecycle ∧
      ((opened config viewer remote since).follow moves).traffic.attendants.length ≤ 1 := by
  obtain ⟨last, h⟩ := follow_traffic config viewer remote since moves
  exact ⟨h.lifecycle rfl (opened_lifecycle config viewer remote since) hm,
    (h.length_attendants rfl).trans_le hm⟩

theorem follow_unauthorized {moves : List Move} (hm : StartedOnce moves)
    (ha : ((opened config viewer remote since).follow moves).circuit.login.isSome = false) :
    wire ((opened config viewer remote since).follow moves).history = [] := by
  obtain ⟨last, h⟩ := follow_traffic config viewer remote since moves
  exact h.unauthorized rfl (opened_lifecycle config viewer remote since) rfl hm ha

theorem follow_closed {before after : List Move} (hm : StartedOnce (before ++ after))
    (hp : ((opened config viewer remote since).follow before).circuit.phase = .closed) :
    wire ((opened config viewer remote since).follow (before ++ after)).history =
      wire ((opened config viewer remote since).follow before).history := by
  induction after using List.reverseRecOn with
  | nil => rw [List.append_nil]
  | append_singleton after m ih =>
    rw [← List.append_assoc] at hm ⊢
    have earlier := ih hm.prior
    obtain ⟨life, one⟩ := follow_lifecycle config viewer remote since hm.prior
    have sound := follow_sound (opened_sound config viewer remote since) (before ++ after)
    have ended := follow_stays_closed
      (follow_sound (opened_sound config viewer remote since) before) hp after
    rw [← follow_append] at ended
    generalize opened config viewer remote since = s at earlier life one sound ended ⊢
    rw [follow_snoc, ← earlier]
    cases hstart : m.isStart with
    | true => exact congrArg (fun t => wire t.history) (move_start hstart _).2
    | false =>
      obtain ⟨now, led⟩ := move_leads hstart (s.follow (before ++ after))
      exact life.closed_wire one ended (led sound).2

/-- A circuit whose viewer is refused is closed, and was not authorized before. -/
theorem refusal_closes {s : Site} {m : Move} {e : Event} (ht : s.traffic.Lifecycle)
    (hl : s.traffic.attendants.length ≤ 1) (he : e ∈ s.took m) (hr : e.refuses = true) :
    (s.move m).circuit.phase = .closed ∧ (s.move m).circuit.login.isSome = false := by
  cases m with
  | draw | takeBack => cases he
  | step conduct event =>
    unfold took at he
    dsimp only at he
    split at he
    · next enabled =>
      obtain rfl := List.mem_singleton.1 he
      have moved : s.move (.step conduct e) = (s.perform conduct e).2 := by
        simp [move, next, enabled]
      rw [moved]
      cases e with
      | authenticated i verdict =>
        obtain ⟨-, -, -, -, hauthorized, -⟩ := ht.only hl enabled
        cases verdict with
        | authorized => cases hr
        | _ => exact ⟨rfl, hauthorized⟩
      | _ => cases hr
    · cases he

/-- In every run with one attendant, the wire is silent until the viewer is let in, for good if it
is refused, and again once the circuit is closed. -/
theorem follow_keeps_wire {moves : List Move} (hm : StartedOnce moves) :
    (opened config viewer remote since).WireKept moves := by
  constructor
  · intro hw
    refine (follow_course config viewer remote since hm).login ?_
    by_contra ha
    exact hw (follow_unauthorized config viewer remote since hm (Bool.eq_false_iff.2 ha))
  · intro e he hr
    obtain ⟨before, m, after, rfl, htook⟩ := mem_trace he
    have hsplit : before ++ m :: after = before ++ [m] ++ after := by simp
    rw [hsplit] at hm ⊢
    obtain ⟨life, one⟩ := follow_lifecycle config viewer remote since hm.prior.prior
    obtain ⟨hclosed, hlogin⟩ := refusal_closes life one htook hr
    rw [← follow_snoc] at hclosed hlogin
    rw [follow_closed config viewer remote since hm hclosed]
    exact follow_unauthorized config viewer remote since hm.prior hlogin
  · rintro before ⟨after, rfl⟩ hp
    exact follow_closed config viewer remote since hm hp

def refusedMoves : List Move :=
  [.step {} (.tell (.alert "away")), .step {} .start, .step {} (.close .circuitShutdown),
   .step {} (.authenticated 0 .rejected), .step {} (.tell (.alert "away")),
   .step {} (.serve 0 1 true), .step {} (.finish 0), .step {} (.flush 0 2 true)]

theorem refused_wire : StartedOnce refusedMoves ∧ sample.WireKept refusedMoves ∧
    (sample.follow refusedMoves).circuit.closeReason = some .circuitShutdown ∧
    wire (sample.follow refusedMoves).history = [] ∧
    StartedOnce kickedMoves ∧ sample.WireKept kickedMoves ∧
    (wire (sample.follow kickedMoves).history).length = 1 := by
  have hm : StartedOnce refusedMoves := by
    unfold StartedOnce
    decide
  have hk : StartedOnce kickedMoves := by
    unfold StartedOnce
    decide
  exact ⟨hm, follow_keeps_wire _ _ _ _ hm, by decide +kernel, by decide +kernel, hk,
    follow_keeps_wire _ _ _ _ hk, by decide +kernel⟩

end Site
end ViewerCircuit
