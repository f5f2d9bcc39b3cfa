import ViewerCircuit.Circuit.Step

/-!
# Runs

A run is a circuit as it was opened, and a list of moves that follow each other in any order. What
happened is read off the effects that the moves left.
-/
namespace ViewerCircuit

/-- A step of the circuit, with the simulation's part in it, or what another circuit does to the
pool. -/
inductive Move where
  | step (conduct : Conduct) (e : Event)
  | draw (kind : MessageKind)
  | takeBack (p : Packet)

namespace Event

def time? : Event → Option Nat
  | serve _ now _ => some now
  | flush _ now _ => some now
  | ackTick _ now => some now
  | applyThrottles _ now => some now
  | _ => none

def isStart : Event → Bool
  | start => true
  | _ => false

/-- The caller leaves it to the circuit to send acks. -/
def LeavesAcks : Event → Prop
  | send p _ => p.kind ≠ .packetAck ∧ p.acks = []
  | tell (.acks _) => False
  | _ => True

end Event

def HandlerAction.LeavesAcks : HandlerAction → Prop
  | send p _ => p.kind ≠ .packetAck ∧ p.acks = []
  | tell (.acks _) => False
  | _ => True

namespace Conduct

def KeepsTo (conduct : Conduct) (allowed : HandlerAction → Prop) : Prop :=
  ∀ handler occasion, ∀ action ∈ (conduct.respond handler occasion).actions, allowed action

@[simp] theorem idle_keepsTo (allowed : HandlerAction → Prop) : KeepsTo {} allowed := by
  intro handler occasion action ha
  cases ha

end Conduct

namespace Move

def time? : Move → Option Nat
  | step _ e => e.time?
  | _ => none

def isStart : Move → Bool
  | step _ e => e.isStart
  | _ => false

def LeavesAcks : Move → Prop
  | step conduct e => conduct.KeepsTo HandlerAction.LeavesAcks ∧ e.LeavesAcks
  | _ => True

end Move

/-- The clock of a run never goes back. -/
def Timely (moves : List Move) : Prop := (moves.filterMap Move.time?).Pairwise (· ≤ ·)

def StartedOnce (moves : List Move) : Prop := moves.countP Move.isStart ≤ 1

namespace Site

/-- A circuit that was just opened, with a pool that is empty yet. -/
def opened (config : Config) (viewer : Viewer) (remote : Address) (now : Nat) : Site where
  circuit := .new config viewer remote now
  pool := { enabled := config.packetPooling, maxPerKind := config.packetPoolSize }

def sample : Site := opened {} ⟨.zero, .zero, 1⟩ (.v4 .unspecified 1) 0

def narrow : Config := { maxPacketSize := 100 }

theorem narrow_valid : narrow.Valid := by
  unfold Config.Valid
  decide +kernel

def move (s : Site) : Move → Site
  | .step conduct e => (s.next conduct e).2
  | .draw kind => { s with pool := (s.pool.draw kind).2 }
  | .takeBack p => { s with pool := s.pool.takeBack p }

def follow (moves : List Move) (s : Site) : Site := moves.foldl move s

def history (s : Site) : List Effect := s.effects.reverse

theorem history_emit (e : Effect) (s : Site) : (s.emit e).history = s.history ++ [e] := by
  simp [emit, history]

/-- The effects that a move left. -/
def told (s : Site) (m : Move) : List Effect := (s.move m).history.drop s.history.length

theorem told_of_moved {s u : Site} {m : Move} {l : List Effect} (hm : s.move m = u)
    (hu : u.history = s.history ++ l) : s.told m = l := by
  rw [told, hm, hu, List.drop_left]

/-- What `f` reads off the moves of a run, one after the other. -/
def trace {α : Type} (f : Site → Move → List α) (s : Site) : List Move → List α
  | [] => []
  | m :: moves => f s m ++ trace f (s.move m) moves

def took (s : Site) : Move → List Event
  | .step _ e => if s.circuit.Enabled e then [e] else []
  | _ => []

def taken (s : Site) (moves : List Move) : List Event := trace took s moves

theorem follow_append (s : Site) (before after : List Move) :
    s.follow (before ++ after) = (s.follow before).follow after :=
  List.foldl_append

theorem follow_snoc (s : Site) (moves : List Move) (m : Move) :
    s.follow (moves ++ [m]) = (s.follow moves).move m := by
  simp [follow]

theorem trace_snoc {α : Type} (f : Site → Move → List α) (s : Site) (moves : List Move) (m : Move) :
    trace f s (moves ++ [m]) = trace f s moves ++ f (s.follow moves) m := by
  induction moves generalizing s with
  | nil => simp [trace, follow]
  | cons n moves ih => rw [List.cons_append, trace, trace, ih, List.append_assoc]; rfl

theorem mem_trace {α : Type} {f : Site → Move → List α} {s : Site} {moves : List Move} {x : α}
    (h : x ∈ trace f s moves) :
    ∃ before m after, moves = before ++ m :: after ∧ x ∈ f (s.follow before) m := by
  induction moves generalizing s with
  | nil => cases h
  | cons n moves ih =>
    rcases List.mem_append.1 h with h | h
    · exact ⟨[], n, moves, rfl, h⟩
    · obtain ⟨before, m, after, rfl, hx⟩ := ih h
      exact ⟨n :: before, m, after, rfl, hx⟩

theorem taken_snoc (s : Site) (moves : List Move) (m : Move) :
    s.taken (moves ++ [m]) = s.taken moves ++ (s.follow moves).took m :=
  trace_snoc took s moves m

end Site
end ViewerCircuit
