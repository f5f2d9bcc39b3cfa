import Mathlib.Data.List.Induction
import ViewerCircuit.Proofs.CourseMoves

/-!
# The course of a run

A circuit that is started once goes through its phases in order, joins the scene once at most and
leaves it again, and ends for the first reason that it was given.
-/
namespace ViewerCircuit

namespace Course

variable {authorized added : Prop} {c d : Course}

theorem Calls.sound (h : Calls c d) (hc : c.Sound authorized added) : d.Sound authorized added := by
  induction h with
  | refl => exact hc
  | tail _ call ih =>
    obtain ⟨reason, rfl⟩ := call
    exact ih.close reason

theorem Calls.rank_le (h : Calls c d) : c.phase.rank ≤ d.phase.rank := by
  induction h with
  | refl => exact Nat.le_refl _
  | tail _ call ih =>
    obtain ⟨reason, rfl⟩ := call
    exact ih.trans (rank_le_close reason _)

/-- Calls do not end a circuit, and change nothing about one that has ended. -/
theorem Calls.closed (h : Calls c d) :
    (d.phase = .closed ↔ c.phase = .closed) ∧
      (c.phase = .closed → d.closeReason = c.closeReason) := by
  induction h with
  | refl => exact ⟨Iff.rfl, fun _ => rfl⟩
  | tail _ call ih =>
    obtain ⟨reason, rfl⟩ := call
    refine ⟨close_closed.trans ih.1, fun hc => ?_⟩
    rw [← ih.2 hc]
    simp [close, ih.1.2 hc, Phase.isEnding, Phase.rank]

/-- A circuit without attendants gets its first one. -/
theorem Sound.started (h : c.Sound authorized added) (hs : c.stages = []) :
    ({ c with stages := c.stages ++ [.authenticating] } : Course).Sound authorized added := by
  have told := h.tells
  unfold stage at told
  rw [hs] at told ⊢
  exact .moved rfl h.closed_eq h.login h.reasoned h.first h.in_time told

theorem Sound.scenes_isPrefix (h : c.Sound authorized added) :
    c.scenes <+: [.sceneAdd 0, .sceneRemove] := by
  rcases h.tells.scenes_cases with hs | ⟨hs, -⟩ | ⟨hs, -⟩
  · exact hs ▸ List.nil_prefix
  · exact hs ▸ ⟨[.sceneRemove], rfl⟩
  · exact hs ▸ List.prefix_rfl

theorem Sound.authorized_of_asked (h : c.Sound authorized added) {i : AttendantId}
    (hm : .sceneAdd i ∈ c.scenes) : authorized := by
  rcases h.tells.scenes_cases with hs | ⟨-, ha, -⟩ | ⟨-, ha, -⟩
  · rw [hs] at hm
    cases hm
  · exact ha
  · exact ha

theorem Sound.added_of_removed (h : c.Sound authorized added)
    (hm : .sceneRemove ∈ c.scenes) : added := by
  rcases h.tells.scenes_cases with hs | ⟨hs, -⟩ | ⟨-, -, hj⟩
  · rw [hs] at hm
    cases hm
  · rw [hs] at hm
    simp at hm
  · exact hj

/-- A circuit that has ended is not left in the scene. -/
theorem Sound.removed_of_closed (h : c.Sound authorized added) (hp : c.phase = .closed)
    {i : AttendantId} (hm : .sceneAdd i ∈ c.scenes) : .sceneRemove ∈ c.scenes := by
  rcases h.tells.scenes_cases with hs | ⟨-, -, hopen⟩ | ⟨hs, -⟩
  · rw [hs] at hm
    cases hm
  · exact absurd hp hopen
  · simp [hs]

end Course

theorem firstReason_landmarks (l : List Effect) :
    firstReason (l.filter Effect.isLandmark) = firstReason l := by
  induction l with
  | nil => rfl
  | cons e l ih =>
    unfold firstReason at ih ⊢
    cases he : e.closeReason? with
    | none => cases hl : e.isLandmark <;> simp [hl, he, ih]
    | some reason => simp [Effect.isLandmark, he]

theorem StartedOnce.prior {before after : List Move} (h : StartedOnce (before ++ after)) :
    StartedOnce before := by
  unfold StartedOnce at h ⊢
  rw [List.countP_append] at h
  omega

namespace Site

open Course (Calls Step)

def Admitted (s : Site) (moves : List Move) : Prop := ∃ e ∈ s.taken moves, e.authorizes = true

def Added (s : Site) (moves : List Move) : Prop := ∃ e ∈ s.taken moves, e.joins = true

variable {s : Site} {moves : List Move} {m : Move}

theorem Admitted.snoc (h : s.Admitted moves ∨ ∃ e ∈ (s.follow moves).took m, e.authorizes = true) :
    s.Admitted (moves ++ [m]) := by
  unfold Admitted
  rw [taken_snoc]
  rcases h with ⟨e, he, ha⟩ | ⟨e, he, ha⟩
  · exact ⟨e, List.mem_append_left _ he, ha⟩
  · exact ⟨e, List.mem_append_right _ he, ha⟩

theorem Added.snoc (h : s.Added moves ∨ ∃ e ∈ (s.follow moves).took m, e.joins = true) :
    s.Added (moves ++ [m]) := by
  unfold Added
  rw [taken_snoc]
  rcases h with ⟨e, he, ha⟩ | ⟨e, he, ha⟩
  · exact ⟨e, List.mem_append_left _ he, ha⟩
  · exact ⟨e, List.mem_append_right _ he, ha⟩

theorem follow_kept (h : (s.follow moves).course.Sound (s.Admitted moves) (s.Added moves))
    (m : Move) :
    (s.follow moves).course.Sound (s.Admitted (moves ++ [m])) (s.Added (moves ++ [m])) :=
  h.mono (fun ha => .snoc (.inl ha)) fun hj => .snoc (.inl hj)

theorem follow_step (hm : m.isStart = false) (hs : (s.follow moves).pool.Sound) :
    Calls (s.follow moves).course ((s.follow moves).move m).course ∨
      Step (s.Admitted (moves ++ [m])) (s.Added (moves ++ [m]))
        (s.follow moves).course ((s.follow moves).move m).course :=
  move_course hm hs (fun ha => .snoc (.inr ha)) fun hj => .snoc (.inr hj)

/-- Where a move leads to a closed circuit, either it was closed before, with the same reason, or it
ends now, for the first reason that was given. -/
theorem move_ends (hc : (s.follow moves).course.Sound (s.Admitted moves) (s.Added moves))
    (hl : (s.follow moves).course.stages.length ≤ 1) (hs : (s.follow moves).pool.Sound)
    (moved : ((s.follow moves).move m).circuit.phase = .closed) :
    (s.follow moves).circuit.phase = .closed ∧
        ((s.follow moves).move m).circuit.closeReason = (s.follow moves).circuit.closeReason ∨
      (s.follow moves).circuit.phase ≠ .closed ∧
        ((s.follow moves).move m).circuit.closeReason =
          some ((firstReason (s.follow moves).history).getD .authenticationFailed) := by
  cases hstart : m.isStart with
  | true =>
    have same := start_course hstart (s.follow moves)
    have hphase : ((s.follow moves).move m).course.phase = (s.follow moves).course.phase := by
      rw [same]
    have hreason : ((s.follow moves).move m).course.closeReason =
        (s.follow moves).course.closeReason := by rw [same]
    exact .inl ⟨hphase.symm.trans moved, hreason⟩
  | false =>
    rcases follow_step hstart hs with called | step
    · have hclosed := called.closed.1.1 moved
      exact .inl ⟨hclosed, called.closed.2 hclosed⟩
    · have kept := follow_kept hc m
      have hopen := step.not_closed kept hl
      refine .inr ⟨hopen, ?_⟩
      rw [← firstReason_landmarks]
      exact step.reason kept hl hopen moved

theorem move_rank_le (hs : s.pool.Sound) (m : Move) :
    s.circuit.phase.rank ≤ (s.move m).circuit.phase.rank := by
  cases hm : m.isStart with
  | true =>
    have same : (s.move m).course.phase = s.course.phase := by rw [start_course hm]
    exact Nat.le_of_eq (congrArg Phase.rank same.symm)
  | false =>
    rcases move_course hm hs (fun _ => trivial) fun _ => trivial with called | step
    · exact called.rank_le
    · exact step.rank_le

theorem follow_rank_le (hs : s.pool.Sound) (moves : List Move) :
    s.circuit.phase.rank ≤ (s.follow moves).circuit.phase.rank := by
  induction moves generalizing s with
  | nil => exact Nat.le_refl _
  | cons m moves ih => exact (move_rank_le hs m).trans (ih (move_sound hs m))

theorem follow_stays_closed (hs : s.pool.Sound) (hp : s.circuit.phase = .closed)
    (moves : List Move) : (s.follow moves).circuit.phase = .closed := by
  have later := follow_rank_le hs moves
  rw [hp] at later
  cases h : (s.follow moves).circuit.phase <;> simp_all [Phase.rank]

section

variable (config : Config) (viewer : Viewer) (remote : Address) (since : Nat)

theorem opened_sound : (opened config viewer remote since).pool.Sound := PacketPool.empty_sound _ _

theorem opened_course {authorized added : Prop} :
    (opened config viewer remote since).course.Sound authorized added :=
  ⟨rfl, Bool.noConfusion, rfl, fun _ => rfl, .nil, ⟨rfl, Phase.noConfusion, Phase.noConfusion⟩⟩

/-- There are as many attendants as were started. -/
theorem follow_stages (moves : List Move) :
    ((opened config viewer remote since).follow moves).course.stages.length =
      moves.countP Move.isStart := by
  obtain ⟨last, h⟩ := follow_traffic config viewer remote since moves
  exact (List.length_map _).trans (h.length_attendants rfl)

theorem follow_course {moves : List Move} (hm : StartedOnce moves) :
    ((opened config viewer remote since).follow moves).course.Sound
      ((opened config viewer remote since).Admitted moves)
      ((opened config viewer remote since).Added moves) := by
  induction moves using List.reverseRecOn with
  | nil => exact opened_course config viewer remote since
  | append_singleton moves m ih =>
    have earlier := ih hm.prior
    have stages := follow_stages config viewer remote since moves
    have sound := follow_sound (opened_sound config viewer remote since) moves
    unfold StartedOnce at hm
    rw [List.countP_append, List.countP_singleton] at hm
    generalize opened config viewer remote since = s at earlier stages sound ⊢
    have kept := follow_kept earlier m
    rw [follow_snoc]
    cases hstart : m.isStart with
    | true =>
      rw [start_course hstart]
      simp only [hstart, if_true] at hm
      exact kept.started (List.length_eq_zero_iff.1 (by omega))
    | false =>
      rcases follow_step hstart sound with called | step
      · exact called.sound kept
      · exact step.sound kept (by omega)

/-- A circuit ended at some move, for the first reason that was given before it. -/
theorem follow_reason {moves : List Move} (hm : StartedOnce moves)
    (hc : ((opened config viewer remote since).follow moves).circuit.phase = .closed) :
    ∃ before m after, moves = before ++ m :: after ∧
      ((opened config viewer remote since).follow before).circuit.phase ≠ .closed ∧
      ((opened config viewer remote since).follow (before ++ [m])).circuit.phase = .closed ∧
      ((opened config viewer remote since).follow moves).circuit.closeReason = some
        ((firstReason ((opened config viewer remote since).follow before).history).getD
          .authenticationFailed) := by
  induction moves using List.reverseRecOn with
  | nil => cases hc
  | append_singleton moves m ih =>
    have course := follow_course config viewer remote since hm.prior
    have sound := follow_sound (opened_sound config viewer remote since) moves
    have stages : ((opened config viewer remote since).follow moves).course.stages.length ≤ 1 := by
      rw [follow_stages]
      exact hm.prior
    have earlier := ih hm.prior
    generalize opened config viewer remote since = s at course sound stages earlier hc ⊢
    have moved := hc
    rw [follow_snoc] at moved ⊢
    rcases move_ends course stages sound moved with ⟨hp, hr⟩ | ⟨hp, hr⟩
    · obtain ⟨before, n, after, rfl, hbefore, hafter, hreason⟩ := earlier hp
      exact ⟨before, n, after ++ [m], by simp, hbefore, hafter, hr.trans hreason⟩
    · exact ⟨moves, m, [], rfl, hp, hc, hr⟩

/-- What a circuit that is started once goes through, whoever acts on it and when. Every beginning
of a run is a run as well, so each field tells what came before. -/
structure CourseKept (s : Site) (moves : List Move) : Prop where
  forward : ∀ before, before <+: moves →
    (s.follow before).circuit.phase.rank ≤ (s.follow moves).circuit.phase.rank
  scenes : (s.follow moves).history.filter Effect.isSceneCall <+: [.sceneAdd 0, .sceneRemove]
  added : ∀ i, .sceneAdd i ∈ (s.follow moves).history → s.Admitted moves
  added_open : ∀ before i after, (s.follow moves).history = before ++ .sceneAdd i :: after →
    ∀ reason, .closeCalled reason ∉ before
  removed : .sceneRemove ∈ (s.follow moves).history → s.Added moves
  complete : (s.follow moves).circuit.phase = .closed →
    ∀ i, .sceneAdd i ∈ (s.follow moves).history → .sceneRemove ∈ (s.follow moves).history
  active : (s.follow moves).circuit.phase = .active → s.Added moves
  reason : (s.follow moves).circuit.phase = .closed → ∃ before m after,
    moves = before ++ m :: after ∧ (s.follow before).circuit.phase ≠ .closed ∧
      (s.follow (before ++ [m])).circuit.phase = .closed ∧
      (s.follow moves).circuit.closeReason =
        some ((firstReason (s.follow before).history).getD .authenticationFailed)
  queue : (s.follow moves).circuit.queue.closed = true ↔
    (s.follow moves).circuit.phase = .closing ∨ (s.follow moves).circuit.phase = .closed

theorem scenes_course (s : Site) : s.course.scenes = s.history.filter Effect.isSceneCall := by
  unfold Course.scenes course
  rw [List.filter_filter]
  congr 1
  funext e
  cases h : e.isSceneCall <;> simp [Effect.isLandmark, h]

theorem mem_scenes_course {e : Effect} :
    e ∈ s.course.scenes ↔ e ∈ s.history ∧ e.isSceneCall = true := by
  rw [scenes_course, List.mem_filter]

/-- No call to close the circuit came before the scene was asked to add it. -/
theorem history_in_time (h : s.course.landmarks.Pairwise Effect.InTime) {before after : List Effect}
    {i : AttendantId} (hs : s.history = before ++ .sceneAdd i :: after) (reason : CloseReason) :
    .closeCalled reason ∉ before := by
  intro hm
  have landmarks : s.course.landmarks =
      before.filter Effect.isLandmark ++ .sceneAdd i :: after.filter Effect.isLandmark := by
    unfold course
    rw [hs]
    simp [Effect.isLandmark, Effect.isSceneCall]
  rw [landmarks] at h
  have early : .closeCalled reason ∈ before.filter Effect.isLandmark :=
    List.mem_filter.2 ⟨hm, rfl⟩
  exact (List.pairwise_append.1 h).2.2 _ early _ List.mem_cons_self rfl i rfl

/-- In every run with one attendant, the circuit only goes forward, and the scene, the reason and
the queue follow its phase. -/
theorem follow_keeps_course {moves : List Move} (hm : StartedOnce moves) :
    (opened config viewer remote since).CourseKept moves := by
  have course := follow_course config viewer remote since hm
  have sound := opened_sound config viewer remote since
  have ended := follow_reason config viewer remote since hm
  generalize opened config viewer remote since = s at course sound ended ⊢
  have closed_eq :
      (s.follow moves).circuit.queue.closed = (s.follow moves).circuit.phase.isEnding :=
    course.closed_eq
  constructor
  · rintro before ⟨after, rfl⟩
    rw [follow_append]
    exact follow_rank_le (follow_sound sound before) after
  · rw [← scenes_course]
    exact course.scenes_isPrefix
  · intro i asked
    exact course.authorized_of_asked (mem_scenes_course.2 ⟨asked, rfl⟩)
  · intro before i after hs reason
    exact history_in_time course.in_time hs reason
  · intro removed
    exact course.added_of_removed (mem_scenes_course.2 ⟨removed, rfl⟩)
  · intro hp i asked
    have removed := course.removed_of_closed hp (mem_scenes_course.2 ⟨asked, rfl⟩)
    exact (mem_scenes_course.1 removed).1
  · exact course.tells.active
  · exact ended
  · rw [closed_eq]
    cases (s.follow moves).circuit.phase <;> simp [Phase.isEnding, Phase.rank]

end

/-- A circuit that is kicked and leaves. Meanwhile somebody else closes it. -/
def kickedMoves : List Move :=
  [.step {} .start, .step {} (.authenticated 0 (.authorized none)), .step {} (.joined 0),
   .step {} (.kick "away"), .step {} .shutdown, .step {} (.serve 0 1 true), .step {} (.finish 0),
   .step {} (.flush 0 2 true), .step {} (.stopAckTimer 0), .step {} (.stopProbeTimer 0),
   .step {} (.leave 0), .step {} (.close .logout)]

theorem kicked_course : StartedOnce kickedMoves ∧ sample.CourseKept kickedMoves ∧
    (sample.follow kickedMoves).circuit.phase = .closed ∧
    (sample.follow kickedMoves).circuit.closeReason = some .kicked ∧
    (sample.follow kickedMoves).history.filter Effect.isSceneCall =
      [.sceneAdd 0, .sceneRemove] := by
  have hm : StartedOnce kickedMoves := by
    unfold StartedOnce
    decide
  exact ⟨hm, follow_keeps_course _ _ _ _ hm, by decide +kernel, by decide +kernel,
    by decide +kernel⟩

end Site
end ViewerCircuit
