import ViewerCircuit.Proofs.CourseRun
import ViewerCircuit.Proofs.Dispatching
import ViewerCircuit.Proofs.Outbound
import ViewerCircuit.Proofs.OwnSteps
import ViewerCircuit.Proofs.Service

/-!
# Failing handlers

A handler that fails breaks off the dispatch of one packet. The packet goes back to the pool as any
other does, the viewer is told of the first failure, and nothing else comes of it: the next packet
is acked, dropped or dispatched as if no handler had ever failed.
-/
namespace ViewerCircuit

namespace Effect

def isRecycled : Effect → Bool
  | recycled _ => true
  | _ => false

def isPlacement : Effect → Bool
  | queued _ => true
  | turnedAway _ => true
  | _ => false

def isBreakdown : Effect → Bool
  | concluded _ outcome => outcome.isFailure
  | _ => false

end Effect

/-- What calls and handlers tell. No dispatch ends, and no packet goes back to the pool but those
that were queued or turned away. -/
inductive Incidental : List Effect → Prop
  | nil : Incidental []
  | told {e l} (hr : e.isRecycled = false) (hp : e.isPlacement = false)
      (hc : e.isConclusion = false) (h : Incidental l) : Incidental (e :: l)
  | queued {q bytes category l} (h : Incidental l) :
    Incidental (.recycled q :: .queued (.ofPacket q bytes category) :: l)
  | turnedAway {q l} (h : Incidental l) : Incidental (.recycled q :: .turnedAway q :: l)

theorem Incidental.append {l m : List Effect} (hl : Incidental l) (hm : Incidental m) :
    Incidental (l ++ m) := by
  induction hl with
  | nil => exact hm
  | told hr hp hc _ ih => exact .told hr hp hc ih
  | queued _ ih => exact .queued ih
  | turnedAway _ ih => exact .turnedAway ih

def BrokeDown (history : List Effect) : Prop := ∃ e ∈ history, e.isBreakdown = true

instance (history : List Effect) : Decidable (BrokeDown history) :=
  inferInstanceAs (Decidable (∃ e ∈ history, e.isBreakdown = true))

theorem brokeDown_append {before after : List Effect} :
    BrokeDown (before ++ after) ↔ BrokeDown before ∨ BrokeDown after := by
  simp [BrokeDown, or_and_right, exists_or]

namespace Outgoing

structure IsCrashAlert (o : Outgoing) : Prop where
  kind : o.kind = .alertMessage
  delivery : o.delivery = .reliable
  category : o.category = .task
  message : ∃ p, Packet.decode o.bytes = .ok p ∧
    p.message = .alertMessage { message := Site.crashMessage }

end Outgoing

namespace Site

variable {given : Packet → Prop} {pauses : Prop} {s u v : Site} {conduct : Conduct}
  {now : Nat} {p : Packet}

/-- What follows the dispatch of a packet, which left the site `w`. The packet goes back to the
pool, and the viewer is told of the failure if there was none before. -/
structure Settled (p : Packet) (outcome : Outcome) (alerted : Prop) (w u : Site) : Prop where
  spared : outcome.isFailure = false ∨ alerted → u.circuit = w.circuit ∧
    u.history = w.history ++ [.concluded p outcome, .recycled p]
  alarmed : outcome.isFailure = true → ¬alerted → ∃ q bytes,
    (Outgoing.ofPacket q bytes .task).IsCrashAlert ∧
    u.circuit = { w.circuit with
      crashAlerted := true
      sequences := w.circuit.sequences.next.2
      queue := w.circuit.queue.enqueue (.ofPacket q bytes .task) } ∧
    u.history = w.history ++
      [.concluded p outcome, .recycled q, .queued (.ofPacket q bytes .task), .recycled p]

/-- Nothing but the alert is queued behind the end of a dispatch, and that at the first failure. -/
theorem Settled.told {alerted : Prop} {outcome : Outcome} {w : Site}
    (h : Settled p outcome alerted w u) :
    ∃ l, u.history = w.history ++ .concluded p outcome :: l ∧
      (∀ e ∈ l, e.isConclusion = false) ∧
      ((outcome.isFailure = false ∨ alerted) ∧ l.filterMap Effect.queued? = [] ∧
          u.circuit.crashAlerted = w.circuit.crashAlerted ∨
        outcome.isFailure = true ∧ ¬alerted ∧ u.circuit.crashAlerted = true ∧
          ∃ o, o.IsCrashAlert ∧ l.filterMap Effect.queued? = [o]) := by
  by_cases hq : outcome.isFailure = false ∨ alerted
  · obtain ⟨hcircuit, hhistory⟩ := h.spared hq
    refine ⟨[.recycled p], hhistory, by simp [Effect.isConclusion], .inl ⟨hq, rfl, ?_⟩⟩
    rw [hcircuit]
  · obtain ⟨hf, hnone⟩ := not_or.1 hq
    have failed : outcome.isFailure = true := by simpa using hf
    obtain ⟨q, bytes, alert, hcircuit, hhistory⟩ := h.alarmed failed hnone
    refine ⟨[.recycled q, .queued (.ofPacket q bytes .task), .recycled p], hhistory,
      by simp [Effect.isConclusion], .inr ⟨failed, hnone, ?_, _, alert, rfl⟩⟩
    rw [hcircuit]

/-- What a move means to the alert. The packets that are queued behind the end of a dispatch are
those that the circuit queues on account of it. -/
def crashAlerts (s : Site) (m : Move) : List Outgoing :=
  ((s.told m).dropWhile fun e => !e.isConclusion).filterMap Effect.queued?

inductive Alarm (s : Site) (m : Move) : Prop
  | calm (hb : ¬BrokeDown (s.told m)) (hq : s.crashAlerts m = [])
      (ha : (s.move m).circuit.crashAlerted = s.circuit.crashAlerted)
  | again (hs : s.circuit.crashAlerted = true) (hq : s.crashAlerts m = [])
      (ha : (s.move m).circuit.crashAlerted = true)
  | first {o} (hs : s.circuit.crashAlerted = false) (hb : BrokeDown (s.told m))
      (hq : s.crashAlerts m = [o]) (ho : o.IsCrashAlert)
      (ha : (s.move m).circuit.crashAlerted = true)

structure Alarmed (s : Site) (moves : List Move) : Prop where
  flag : (s.follow moves).circuit.crashAlerted = true ↔ BrokeDown (s.follow moves).history
  alerts : ∀ o ∈ trace crashAlerts s moves, o.IsCrashAlert
  once : (trace crashAlerts s moves).length = if BrokeDown (s.follow moves).history then 1 else 0

theorem Alarmed.snoc {moves : List Move} {m : Move} (h : s.Alarmed moves)
    (hs : (s.follow moves).pool.Sound) (alarm : (s.follow moves).Alarm m) :
    s.Alarmed (moves ++ [m]) := by
  have grown := move_history hs m
  have broke : BrokeDown (s.follow (moves ++ [m])).history ↔
      BrokeDown (s.follow moves).history ∨ BrokeDown ((s.follow moves).told m) := by
    rw [follow_snoc, grown]
    exact brokeDown_append
  cases alarm with
  | calm hb hq ha =>
    rw [← follow_snoc] at ha
    have same : BrokeDown (s.follow (moves ++ [m])).history ↔
        BrokeDown (s.follow moves).history := by
      simp [broke, hb]
    refine ⟨?_, ?_, ?_⟩
    · rw [ha, same]
      exact h.flag
    · rw [trace_snoc, hq, List.append_nil]
      exact h.alerts
    · rw [trace_snoc, hq, List.append_nil, h.once]
      simp [same]
  | again hflag hq ha =>
    rw [← follow_snoc] at ha
    have before := h.flag.1 hflag
    have after := broke.2 (.inl before)
    refine ⟨by simp [ha, after], ?_, ?_⟩
    · rw [trace_snoc, hq, List.append_nil]
      exact h.alerts
    · rw [trace_snoc, hq, List.append_nil, h.once, if_pos before, if_pos after]
  | @first o hflag hb hq ho ha =>
    rw [← follow_snoc] at ha
    have before : ¬BrokeDown (s.follow moves).history := by
      rw [← h.flag, hflag]
      exact Bool.noConfusion
    have after := broke.2 (.inr hb)
    have none : trace crashAlerts s moves = [] := by
      have length := h.once
      rw [if_neg before] at length
      exact List.length_eq_zero_iff.1 length
    refine ⟨by simp [ha, after], ?_, ?_⟩
    · rw [trace_snoc, none, hq]
      simpa using ho
    · rw [trace_snoc, none, hq, if_pos after]
      rfl

section

variable (config : Config) (viewer : Viewer) (remote : Address) (since : Nat)

end

def crashing : Conduct := { respond := fun _ _ => { outcome := .crashed } }

/-- A listener that crashes, a throttle block of no length, and a ping behind them. -/
def mishapMoves : List Move :=
  [.step {} .start, .step {} (.authenticated 0 (.authorized none)), .step {} (.joined 0),
   .step {} (.subscribe .chat ⟨"listener"⟩),
   .step {} (.receive { Packet.ofMessage (.chatFromViewer { message := "hello" }) with
     sequence := 1 }),
   .step {} (.receive { Packet.ofMessage (.agentThrottle {}) with sequence := 2 }),
   .step {} (.receive { Packet.ofMessage (.startPingCheck { pingId := 9 }) with sequence := 3 }),
   .step crashing (.serve 0 1 true), .step crashing (.serve 0 2 true),
   .step crashing (.serve 0 3 true)]

/-- Two dispatches fail, the viewer is told once, and the ping is answered. -/
example : (sample.follow mishapMoves).history.countP Effect.isBreakdown = 2 ∧
    (trace crashAlerts sample mishapMoves).length = 1 ∧
    (queuedIn .unknown (sample.follow mishapMoves).history).length = 1 ∧
    (sample.follow mishapMoves).circuit.phase = .active := by
  decide +kernel

end Site
end ViewerCircuit
