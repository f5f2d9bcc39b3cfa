import ViewerCircuit.Proofs.Course
import ViewerCircuit.Proofs.Lifecycle
import ViewerCircuit.Proofs.StepTraffic

/-!
# The course at a site

Every move is a step in the course of the circuit, or leaves the course alone but for calls to
close. A start gives the circuit one more attendant.
-/
namespace ViewerCircuit

open Relation (ReflTransGen)

namespace Event

def authorizes : Event → Bool
  | authenticated _ (.authorized _) => true
  | _ => false

def joins : Event → Bool
  | joined _ => true
  | _ => false

end Event

def Course.Calls : Course → Course → Prop :=
  ReflTransGen fun c d => ∃ reason, d = c.close reason

namespace Site

open Course (Calls Step)

def course (s : Site) : Course where
  phase := s.circuit.phase
  closeReason := s.circuit.closeReason
  authorized := s.circuit.login.isSome
  closed := s.circuit.queue.closed
  stages := s.circuit.attendants.map (·.stage)
  landmarks := s.history.filter Effect.isLandmark

variable {given : Packet → Prop} {pauses ends authorized added : Prop} {s u : Site} {e : Effect}

theorem course_emit (he : e.isLandmark = false) (s : Site) : (s.emit e).course = s.course := by
  simp [course, emit, history, he]

theorem course_landmark (he : e.isLandmark = true) (s : Site) :
    (s.emit e).course = { s.course with landmarks := s.course.landmarks ++ [e] } := by
  simp [course, emit, history, he]

theorem course_recycle (p : Packet) (s : Site) : (s.recycle p).course = s.course := by
  simp [course, recycle, history, Effect.isLandmark, Effect.isSceneCall, Effect.closeReason?]

theorem course_send (p : Packet) (category : Category) (s : Site) :
    (s.send p category).2.course = s.course := by
  unfold send
  split
  · exact (course_emit rfl _).trans (course_recycle p s)
  · dsimp only
    split
    · exact course_emit (e := .unwritable _ _) rfl _
    · refine (course_emit rfl _).trans ?_
      exact course_recycle _ (s.update fun c => { c with sequences := s.circuit.sequences.next.2 })

theorem course_blind : Blind course where
  draw _ _ := rfl
  send := course_send
  requeue _ _ := course_emit (e := .requeued _) rfl _
  ackState _ _ := rfl
  duplicates _ _ := rfl

theorem course_close (reason : CloseReason) (s : Site) :
    (s.close reason).course = s.course.close reason := by
  have hl : (s.history ++ [Effect.closeCalled reason]).filter Effect.isLandmark =
      s.history.filter Effect.isLandmark ++ [.closeCalled reason] := by
    simp [Effect.isLandmark, Effect.closeReason?]
  unfold course
  rw [history_close, hl, close_circuit]
  simp only [Queue.close_closed]
  rfl

theorem Deed.course (h : Deed given pauses ends s u) :
    u.course = s.course ∨ ∃ reason, u.course = s.course.close reason := by
  cases h with
  | @remark e he =>
    refine .inl (course_emit ?_ s)
    cases e <;> first | rfl | cases he
  | recycle => exact .inl (course_recycle _ s)
  | send => exact .inl (course_send _ _ s)
  | @close reason => exact .inr ⟨reason, course_close reason s⟩
  | _ => exact .inl rfl

theorem Does.course (h : Does (fun _ => True) True True s u) (hs : s.pool.Sound) :
    Calls s.course u.course := by
  refine h.invariant (motive := fun v => Calls s.course v.course) hs .refl ?_
  intro v w deed ih
  rcases deed.course with hsame | hcalled
  · exact hsame ▸ ih
  · exact ih.tail hcalled

theorem course_transmit (now : Nat) (linkUp : Bool) (o : Outgoing) (s : Site) :
    (s.transmit now linkUp o).2.course = s.course := by
  unfold transmit
  cases linkUp
  · exact course_emit rfl _
  · exact course_emit rfl _

theorem process_calls (conduct : Conduct) (now : Nat) (p : Packet) (hs : s.pool.Sound) :
    Calls s.course (s.process conduct now p).course := by
  obtain ⟨u, hu, hcircuit, hhistory, does⟩ :=
    process_does conduct.gives_any (fun _ => trivial) now s
  have decided : u.course = s.course := by
    unfold course
    rw [hcircuit, hhistory, List.filter_append]
    split <;> split <;> simp [Effect.isLandmark, Effect.isSceneCall, Effect.closeReason?]
  rw [← decided]
  exact does.course (hu ▸ hs)

theorem stages_modify (as : List Attendant) (i : AttendantId) {f : Attendant → Attendant}
    {stage : Stage} (hf : ∀ a, (f a).stage = stage) :
    (as.modify i f).map (·.stage) = (as.map (·.stage)).set i stage := by
  induction as generalizing i with
  | nil => simp
  | cons a as ih =>
    cases i with
    | zero => simp [hf]
    | succ i => simp [ih]

theorem stages_kept (as : List Attendant) (i : AttendantId) {f : Attendant → Attendant}
    (hf : ∀ a, (f a).stage = a.stage) : (as.modify i f).map (·.stage) = as.map (·.stage) := by
  induction as generalizing i with
  | nil => simp
  | cons a as ih =>
    cases i with
    | zero => simp [hf]
    | succ i => simp [ih]

theorem course_stage (s : Site) (i : AttendantId) : s.course.stages[i]? = s.circuit.stage? i := by
  simp [course, Circuit.stage?]

theorem course_attend {i : AttendantId} {f : Attendant → Attendant} {stage : Stage}
    (hf : ∀ a, (f a).stage = stage) (s : Site) :
    (s.update (·.withAttendant i f)).course =
      { s.course with stages := s.course.stages.set i stage } := by
  have hs := stages_modify s.circuit.attendants i hf
  simp only [course, ← hs]
  rfl

theorem course_withStage (i : AttendantId) (stage : Stage) (s : Site) :
    (s.update (·.withStage i stage)).course =
      { s.course with stages := s.course.stages.set i stage } :=
  course_attend (f := ({ · with stage })) (fun _ => rfl) s

/-- A change of attendants that keeps their stages. -/
theorem course_same {as : List Attendant}
    (h : as.map (·.stage) = s.circuit.attendants.map (·.stage)) :
    (s.update fun c => { c with attendants := as }).course = s.course := by
  simp only [course, ← h]
  rfl

theorem onVerdict_course {i : AttendantId} (verdict : Verdict)
    (hs : s.circuit.stage? i = some .authenticating)
    (ha : (Event.authenticated i verdict).authorizes = true → authorized) :
    Step authorized added s.course (s.onVerdict i verdict).course := by
  have hstage := (course_stage s i).trans hs
  have refused : Step authorized added s.course (s.update fun c => { c.withStage i .ended with
      phase := .closed
      closeReason := some (c.closeReason.getD .authenticationFailed)
      queue := c.queue.close }).course := by
    have moved : (s.update fun c => { c.withStage i .ended with
        phase := .closed
        closeReason := some (c.closeReason.getD .authenticationFailed)
        queue := c.queue.close }).course = { s.course with
          phase := .closed
          closeReason := some (s.course.closeReason.getD .authenticationFailed)
          closed := true
          stages := s.course.stages.set i .ended } := by
      have hm := stages_modify s.circuit.attendants i (f := ({ · with stage := .ended }))
        fun _ => rfl
      simp only [course, ← hm, ← s.circuit.queue.close_closed]
      rfl
    rw [moved]
    exact .refuse hstage
  cases verdict with
  | authorized login =>
    obtain ⟨v, hv⟩ : ∃ v, s.update (fun c => { c with
      login := some (login.getD {}), startPosition := (login.getD {}).startPosition }) = v :=
        ⟨_, rfl⟩
    have entered : v.course = { s.course with authorized := true } := by rw [← hv]; rfl
    unfold onVerdict
    dsimp only
    rw [hv]
    split
    · next hp =>
      rw [course_withStage, entered]
      exact .dismiss (ha rfl) hstage (by rw [← hv] at hp; exact hp)
    · next hp =>
      have moved := course_attend (i := i) (f := fun a =>
        { a with stage := .joining, ackTimer := .running, probeTimer := .running })
        (fun _ => rfl) v
      have hopen : s.course.phase.isEnding = false := by
        rw [← hv] at hp
        exact Bool.eq_false_iff.2 hp
      rw [course_landmark rfl, moved, entered]
      exact .enter (ha rfl) hstage hopen
  | _ => exact refused

theorem onJoined_course {i : AttendantId} (hs : s.circuit.stage? i = some .joining) (ha : added) :
    Step authorized added s.course (s.onJoined i).course := by
  have moved : (s.onJoined i).course = { s.course with
      phase := if s.course.phase = .authenticating then .active else s.course.phase
      stages := s.course.stages.set i .serving } := by
    have hm := stages_modify s.circuit.attendants i (f := ({ · with stage := .serving }))
      fun _ => rfl
    simp only [course, ← hm]
    rfl
  rw [moved]
  exact .join ha ((course_stage s i).trans hs)

theorem serve_course {i : AttendantId} (conduct : Conduct) (now : Nat) (linkUp : Bool)
    (hpool : s.pool.Sound) (hs : s.circuit.stage? i = some .serving) :
    Calls s.course (s.serve conduct i now linkUp).course ∨
      Step authorized added s.course (s.serve conduct i now linkUp).course := by
  rcases serve_cases conduct i now linkUp s with ⟨hc, hserve⟩ | ⟨hopen, ⟨p, rest, hi, hserve⟩ |
    ⟨queue, hclosed, hincoming, ⟨c, o, rest, sent, hget, hout, rfl, hserve⟩ | ⟨hout, hserve⟩⟩⟩
  · refine .inr ?_
    rw [hserve, course_withStage]
    exact .stop ((course_stage s i).trans hs) hc
  · refine .inl ?_
    rw [hserve]
    exact process_calls (s := s.update fun c => { c with
      queue := { s.circuit.queue with incoming := rest } }) conduct now p hpool
  · have same : (s.update fun c => { c with queue }).course = s.course := by
      simp only [course, ← hclosed]
      rfl
    have sent := course_transmit now linkUp o (s.update fun c => { c with queue })
    refine .inl ?_
    rw [hserve]
    split
    · rw [sent, same]
      exact .refl
    · rw [course_close, sent, same]
      exact .single ⟨_, rfl⟩
  · refine .inl ?_
    have same : (s.update fun c => { c with queue }).course = s.course := by
      simp only [course, ← hclosed]
      rfl
    rw [hserve, same]
    exact .refl

/-- An attendant that was given packets to be sent, whoever waits for the timers then. -/
theorem course_withRemaining (i : AttendantId) (joined : Bool) (remaining : List Outgoing)
    (s : Site) : (s.update (·.withRemaining i joined remaining)).course =
      { s.course with stages := s.course.stages.set i (.flushing joined remaining) } := by
  rw [← course_withStage]
  unfold Circuit.withRemaining
  dsimp only
  split
  · refine course_same (s := s.update (·.withStage i (.flushing joined remaining))) ?_
    rw [List.map_map]
    exact List.map_congr_left fun a _ => Traffic.claimedBy_stage i a
  · rfl

theorem leave_course {i : AttendantId} {joined : Bool}
    (hs : s.circuit.stage? i = some (.flushing joined [])) :
    Step authorized added s.course (s.leave i joined).course := by
  have left : (s.update fun c => { c.withStage i .ended with phase := .closed }).course =
      { s.course with phase := .closed, stages := s.course.stages.set i .ended } := by
    have hm := stages_modify s.circuit.attendants i (f := ({ · with stage := .ended }))
      fun _ => rfl
    simp only [course, ← hm]
    rfl
  have moved : (s.leave i joined).course = { s.course with
      phase := .closed
      stages := s.course.stages.set i .ended
      landmarks := s.course.landmarks ++ if joined then [.sceneRemove] else [] } := by
    cases joined with
    | true => exact (course_landmark rfl _).trans (by rw [left]; rfl)
    | false => exact left.trans (by simp)
  rw [moved]
  exact .leave ((course_stage s i).trans hs)

theorem drain_course {i : AttendantId} {stage : Stage} {joined : Bool} {remaining : List Outgoing}
    (hu : u.course = s.course) (hs : s.circuit.stage? i = some stage)
    (hf : stage = .finishing joined ∨ ∃ rest, stage = .flushing joined rest) :
    Step authorized added s.course (u.update (·.withRemaining i joined remaining)).course := by
  rw [course_withRemaining, hu]
  exact .drain ((course_stage s i).trans hs) hf

/-- Every step but the start of an attendant is one in the course, or only calls to close. -/
theorem next_course {e : Event} (conduct : Conduct) (he : e.isStart = false)
    (hpool : s.pool.Sound) (ha : s.circuit.Enabled e → e.authorizes = true → authorized)
    (hj : s.circuit.Enabled e → e.joins = true → added) :
    Calls s.course (s.next conduct e).2.course ∨
      Step authorized added s.course (s.next conduct e).2.course := by
  have still : ∀ u : Site, u.course = s.course → Calls s.course u.course ∨
      Step authorized added s.course u.course := fun u hu => .inl (hu ▸ .refl)
  have performed : Performed (fun _ => True) True True conduct s e _ :=
    next_performed conduct.gives_any e.gives_any s
  generalize (s.next conduct e).2 = u at performed ⊢
  cases performed with
  | start => cases he
  | verdict hs => exact .inr (onVerdict_course _ hs (ha hs))
  | joined hs => exact .inr (onJoined_course hs (hj hs rfl))
  | serve hs => exact serve_course conduct _ _ hpool hs
  | finish hs =>
    refine .inr (drain_course (u := s.sendOwedAcks.update fun c => { c with
      queue := s.sendOwedAcks.circuit.queue.flush.2 }) ?_ hs (.inl rfl))
    exact course_blind.sendAckChunks _ s
  | flush hs => exact .inr (drain_course (course_transmit _ _ _ s) hs (.inr ⟨_, rfl⟩))
  | leave hs => exact .inr (leave_course hs)
  | ackTick => exact still _ (course_blind.ackTick _ s)
  | silent does =>
    have called := does.course hpool
    exact .inl called
  | stopAckTimer | stopProbeTimer =>
    refine still _ (course_same ?_)
    simp [stages_kept]
  | turnAway => exact still _ (course_recycle _ s)
  | accept => exact still _ (course_emit (e := .accepted _) rfl _)
  | call does => exact .inl (does.course hpool)
  | idle | heard | settings => exact still _ rfl

theorem move_course {m : Move} (hm : m.isStart = false) (hpool : s.pool.Sound)
    (ha : (∃ e ∈ s.took m, e.authorizes = true) → authorized)
    (hj : (∃ e ∈ s.took m, e.joins = true) → added) :
    Calls s.course (s.move m).course ∨ Step authorized added s.course (s.move m).course := by
  cases m with
  | draw | takeBack => exact .inl .refl
  | step conduct e =>
    have taken : s.circuit.Enabled e → e ∈ s.took (.step conduct e) := by
      intro h
      simp [took, h]
    exact next_course conduct hm hpool (fun h k => ha ⟨e, taken h, k⟩) fun h k =>
      hj ⟨e, taken h, k⟩

theorem start_course {m : Move} (hm : m.isStart = true) (s : Site) :
    (s.move m).course = { s.course with stages := s.course.stages ++ [.authenticating] } := by
  cases m with
  | draw | takeBack => cases hm
  | step conduct e =>
    obtain rfl : e = .start := by cases e <;> first | rfl | cases hm
    simp [move, next, Circuit.Enabled, perform, update, course, history]

end Site
end ViewerCircuit
