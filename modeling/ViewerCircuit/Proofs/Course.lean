import ViewerCircuit.Circuit.Basic

/-!
# The course of a circuit

The phases that a circuit goes through, the stages of its attendants, and the calls that mark its
life: the wishes to close it, and what the scene is asked for. For a circuit with one attendant, the
stage of the attendant tells which of these calls there were.
-/
namespace ViewerCircuit

namespace Effect

def isSceneCall : Effect → Bool
  | sceneAdd _ => true
  | sceneRemove => true
  | _ => false

def closeReason? : Effect → Option CloseReason
  | closeCalled reason => some reason
  | _ => none

def isLandmark (e : Effect) : Bool := e.isSceneCall || e.closeReason?.isSome

/-- The scene is not asked to add a circuit that somebody wanted to be closed before. -/
def InTime (e later : Effect) : Prop := e.closeReason?.isSome = true → ∀ i, later ≠ .sceneAdd i

end Effect

def firstReason (effects : List Effect) : Option CloseReason :=
  effects.findSome? Effect.closeReason?

structure Course where
  phase : Phase
  closeReason : Option CloseReason
  authorized : Bool
  closed : Bool
  stages : List Stage
  landmarks : List Effect

namespace Course

def scenes (c : Course) : List Effect := c.landmarks.filter Effect.isSceneCall

def close (reason : CloseReason) (c : Course) : Course :=
  { c with
    phase := if c.phase.isEnding then c.phase else .closing
    closeReason := if c.phase.isEnding then c.closeReason else some reason
    closed := true
    landmarks := c.landmarks ++ [.closeCalled reason] }

inductive Step (authorized added : Prop) : Course → Course → Prop
  | enter {c i} (ha : authorized) (hs : c.stages[i]? = some .authenticating)
      (hp : c.phase.isEnding = false) : Step authorized added c { c with
        authorized := true
        stages := c.stages.set i .joining
        landmarks := c.landmarks ++ [.sceneAdd i] }
  | dismiss {c i} (ha : authorized) (hs : c.stages[i]? = some .authenticating)
      (hp : c.phase.isEnding = true) : Step authorized added c { c with
        authorized := true
        stages := c.stages.set i (.finishing false) }
  | refuse {c i} (hs : c.stages[i]? = some .authenticating) : Step authorized added c { c with
      phase := .closed
      closeReason := some (c.closeReason.getD .authenticationFailed)
      closed := true
      stages := c.stages.set i .ended }
  | join {c i} (ha : added) (hs : c.stages[i]? = some .joining) : Step authorized added c { c with
      phase := if c.phase = .authenticating then .active else c.phase
      stages := c.stages.set i .serving }
  | stop {c i} (hs : c.stages[i]? = some .serving) (hc : c.closed = true) :
    Step authorized added c { c with stages := c.stages.set i (.finishing true) }
  | drain {c i stage joined remaining} (hs : c.stages[i]? = some stage)
      (hf : stage = .finishing joined ∨ ∃ rest, stage = .flushing joined rest) :
    Step authorized added c { c with stages := c.stages.set i (.flushing joined remaining) }
  | leave {c i joined} (hs : c.stages[i]? = some (.flushing joined [])) :
    Step authorized added c { c with
      phase := .closed
      stages := c.stages.set i .ended
      landmarks := c.landmarks ++ if joined then [.sceneRemove] else [] }

/-- What the stage of the only attendant tells. -/
def Tells (authorized added : Prop) (c : Course) : Stage → Prop
  | .authenticating => c.scenes = [] ∧ c.phase ≠ .active ∧ c.phase ≠ .closed
  | .joining => c.scenes = [.sceneAdd 0] ∧ authorized ∧ c.phase ≠ .active ∧ c.phase ≠ .closed
  | .serving => c.scenes = [.sceneAdd 0] ∧ authorized ∧ added ∧ c.phase ≠ .closed
  | .finishing joined | .flushing joined _ =>
    c.scenes = (if joined then [.sceneAdd 0] else []) ∧
      (joined = true → authorized ∧ added) ∧ c.phase = .closing
  | .ended => (c.scenes = [] ∨ c.scenes = [.sceneAdd 0, .sceneRemove] ∧ authorized ∧ added) ∧
    c.phase = .closed

/-- A circuit without attendants is as one that still authenticates. -/
def stage (c : Course) : Stage := c.stages.headD .authenticating

structure Sound (authorized added : Prop) (c : Course) : Prop where
  closed_eq : c.closed = c.phase.isEnding
  login : c.authorized = true → authorized
  reasoned : c.closeReason.isSome = c.phase.isEnding
  first : c.phase ≠ .closed → c.closeReason = firstReason c.landmarks
  in_time : c.landmarks.Pairwise Effect.InTime
  tells : c.Tells authorized added c.stage

variable {authorized added : Prop} {c d : Course} {i : AttendantId} {stage : Stage}

/-- A stage of a circuit with one attendant at most is the one that tells. -/
theorem Sound.sole (hc : c.Sound authorized added) (hl : c.stages.length ≤ 1)
    (hs : c.stages[i]? = some stage) : i = 0 ∧ c.Tells authorized added stage ∧
      ∀ new, (c.stages.set i new).headD .authenticating = new := by
  have told := hc.tells
  unfold Course.stage at told
  match h : c.stages with
  | [] => simp [h] at hs
  | [own] =>
    rw [h] at hs told
    cases i with
    | zero =>
      obtain rfl := Option.some.inj hs
      exact ⟨rfl, told, fun _ => rfl⟩
    | succ i => cases hs
  | own :: other :: rest => simp [h] at hl

/-- The circuit after its only attendant moved on. -/
theorem Sound.moved {new : Stage} (hs : d.stage = new) (closed_eq : d.closed = d.phase.isEnding)
    (login : d.authorized = true → authorized) (reasoned : d.closeReason.isSome = d.phase.isEnding)
    (first : d.phase ≠ .closed → d.closeReason = firstReason d.landmarks)
    (in_time : d.landmarks.Pairwise Effect.InTime) (told : d.Tells authorized added new) :
    d.Sound authorized added :=
  ⟨closed_eq, login, reasoned, first, in_time, hs ▸ told⟩

theorem Tells.scenes_cases (h : c.Tells authorized added stage) : c.scenes = [] ∨
    c.scenes = [.sceneAdd 0] ∧ authorized ∧ c.phase ≠ .closed ∨
    c.scenes = [.sceneAdd 0, .sceneRemove] ∧ authorized ∧ added := by
  cases stage with
  | authenticating => exact .inl h.1
  | joining => exact .inr (.inl ⟨h.1, h.2.1, h.2.2.2⟩)
  | serving => exact .inr (.inl ⟨h.1, h.2.1, h.2.2.2⟩)
  | finishing joined | flushing joined =>
    obtain ⟨hscenes, hjoined, hclosing⟩ := h
    cases joined with
    | true => exact .inr (.inl ⟨hscenes, (hjoined rfl).1, by simp [hclosing]⟩)
    | false => exact .inl hscenes
  | ended => exact h.1.imp_right .inr

theorem Tells.active (h : c.Tells authorized added stage) (hp : c.phase = .active) : added := by
  cases stage with
  | authenticating => exact absurd hp h.2.1
  | joining => exact absurd hp h.2.2.1
  | serving => exact h.2.2.1
  | finishing | flushing => exact absurd (h.2.2.symm.trans hp) Phase.noConfusion
  | ended => exact absurd (h.2.symm.trans hp) Phase.noConfusion

theorem Tells.mono {authorized' added' : Prop} (h : c.Tells authorized added stage)
    (ha : authorized → authorized') (hj : added → added') : c.Tells authorized' added' stage := by
  cases stage with
  | authenticating => exact h
  | joining => exact ⟨h.1, ha h.2.1, h.2.2⟩
  | serving => exact ⟨h.1, ha h.2.1, hj h.2.2.1, h.2.2.2⟩
  | finishing | flushing => exact ⟨h.1, fun joined => (h.2.1 joined).imp ha hj, h.2.2⟩
  | ended => exact ⟨h.1.imp_right fun told => ⟨told.1, ha told.2.1, hj told.2.2⟩, h.2⟩

theorem Sound.mono {authorized' added' : Prop} (h : c.Sound authorized added)
    (ha : authorized → authorized') (hj : added → added') : c.Sound authorized' added' :=
  { h with login := fun hc => ha (h.login hc), tells := h.tells.mono ha hj }

theorem in_time_snoc {l : List Effect} {e : Effect} (h : l.Pairwise Effect.InTime)
    (he : (∃ i, e = .sceneAdd i) → firstReason l = none) : (l ++ [e]).Pairwise Effect.InTime := by
  refine List.pairwise_append.2 ⟨h, List.pairwise_singleton _ _, ?_⟩
  intro early hm later hlater
  obtain rfl := List.mem_singleton.1 hlater
  intro hcall i hi
  have hnone := List.findSome?_eq_none_iff.1 (he ⟨i, hi⟩) early hm
  rw [hnone] at hcall
  cases hcall

theorem scenes_close (reason : CloseReason) (c : Course) : (c.close reason).scenes = c.scenes := by
  simp [scenes, close, Effect.isSceneCall]

theorem close_closed {reason : CloseReason} :
    (c.close reason).phase = .closed ↔ c.phase = .closed := by
  cases h : c.phase <;> simp [close, h, Phase.isEnding, Phase.rank]

theorem close_closing (reason : CloseReason) (h : c.phase = .closing) :
    (c.close reason).phase = .closing := by
  simp [close, h]

theorem close_ne_active (reason : CloseReason) (c : Course) : (c.close reason).phase ≠ .active := by
  cases h : c.phase <;> simp [close, h, Phase.isEnding, Phase.rank]

theorem Tells.close (h : c.Tells authorized added stage) (reason : CloseReason) :
    (c.close reason).Tells authorized added stage := by
  have hs : (c.close reason).scenes = c.scenes := scenes_close reason c
  unfold Tells at h ⊢
  rw [hs]
  cases stage with
  | authenticating => exact ⟨h.1, close_ne_active reason c, mt close_closed.1 h.2.2⟩
  | joining => exact ⟨h.1, h.2.1, close_ne_active reason c, mt close_closed.1 h.2.2.2⟩
  | serving => exact ⟨h.1, h.2.1, h.2.2.1, mt close_closed.1 h.2.2.2⟩
  | finishing | flushing => exact ⟨h.1, h.2.1, close_closing reason h.2.2⟩
  | ended => exact ⟨h.1, close_closed.2 h.2⟩

theorem Sound.close (h : c.Sound authorized added) (reason : CloseReason) :
    (c.close reason).Sound authorized added := by
  refine ⟨?_, h.login, ?_, ?_, in_time_snoc h.in_time (by simp), h.tells.close reason⟩
  · cases hp : c.phase <;> simp [Course.close, hp, Phase.isEnding, Phase.rank]
  · have hr := h.reasoned
    cases hp : c.phase <;> simp_all [Course.close, Phase.isEnding, Phase.rank]
  · intro hopen
    have happ : firstReason (c.close reason).landmarks =
        (firstReason c.landmarks).or (some reason) := by
      simp [firstReason, Course.close, List.findSome?_append, Effect.closeReason?]
    have hold : c.phase ≠ .closed := by
      intro hp
      exact hopen (by simp [Course.close, hp, Phase.isEnding, Phase.rank])
    have hr := h.reasoned
    rw [happ, ← h.first hold]
    cases he : c.phase.isEnding with
    | true =>
      rw [he] at hr
      obtain ⟨own, ho⟩ := Option.isSome_iff_exists.1 hr
      simp [Course.close, he, ho]
    | false =>
      rw [he] at hr
      have hnone : c.closeReason = none := by simpa using hr
      simp [Course.close, he, hnone]

/-- No call to close a circuit that does not end yet was made. -/
theorem Sound.uncalled (h : c.Sound authorized added) (hp : c.phase.isEnding = false) :
    firstReason c.landmarks = none := by
  have hr := h.reasoned
  rw [hp] at hr
  have hopen : c.phase ≠ .closed := by
    intro hc
    rw [hc] at hp
    cases hp
  rw [← h.first hopen]
  simpa using hr

theorem Step.sound (h : Step authorized added c d) (hc : c.Sound authorized added)
    (hl : c.stages.length ≤ 1) : d.Sound authorized added := by
  cases h with
  | enter ha hs hp =>
    obtain ⟨rfl, ⟨hscenes, hphase⟩, moved⟩ := hc.sole hl hs
    refine .moved (moved _) hc.closed_eq (fun _ => ha) hc.reasoned ?_ ?_ ⟨?_, ha, hphase⟩
    · intro hopen
      refine (hc.first hopen).trans ?_
      simp [firstReason, List.findSome?_append, Effect.closeReason?]
    · exact in_time_snoc hc.in_time fun _ => hc.uncalled hp
    · have hnone : c.landmarks.filter Effect.isSceneCall = [] := hscenes
      simp [scenes, hnone, Effect.isSceneCall]
  | dismiss ha hs hp =>
    obtain ⟨rfl, ⟨hscenes, hactive, hclosed⟩, moved⟩ := hc.sole hl hs
    refine .moved (moved _) hc.closed_eq (fun _ => ha) hc.reasoned hc.first hc.in_time
      ⟨hscenes, by simp, ?_⟩
    show c.phase = .closing
    cases h : c.phase <;> simp_all [Phase.isEnding, Phase.rank]
  | refuse hs =>
    obtain ⟨rfl, ⟨hscenes, -⟩, moved⟩ := hc.sole hl hs
    exact .moved (moved _) rfl hc.login rfl (absurd rfl) hc.in_time ⟨.inl hscenes, rfl⟩
  | join ha hs =>
    obtain ⟨rfl, ⟨hscenes, hauthorized, hactive, hclosed⟩, moved⟩ := hc.sole hl hs
    have hending : (if c.phase = .authenticating then Phase.active else c.phase).isEnding =
        c.phase.isEnding := by
      cases c.phase <;> rfl
    refine .moved (moved _) (hc.closed_eq.trans hending.symm) hc.login
      (hc.reasoned.trans hending.symm) (fun _ => hc.first hclosed) hc.in_time
      ⟨hscenes, hauthorized, ha, ?_⟩
    show (if c.phase = .authenticating then Phase.active else c.phase) ≠ .closed
    cases h : c.phase <;> simp_all
  | stop hs hclosed =>
    obtain ⟨rfl, ⟨hscenes, hauthorized, hadded, hopen⟩, moved⟩ := hc.sole hl hs
    refine .moved (moved _) hc.closed_eq hc.login hc.reasoned hc.first hc.in_time
      ⟨hscenes, fun _ => ⟨hauthorized, hadded⟩, ?_⟩
    show c.phase = .closing
    have hending := hc.closed_eq
    cases h : c.phase <;> simp_all [Phase.isEnding, Phase.rank]
  | drain hs hf =>
    obtain ⟨rfl, told, moved⟩ := hc.sole hl hs
    refine .moved (moved _) hc.closed_eq hc.login hc.reasoned hc.first hc.in_time ?_
    rcases hf with rfl | ⟨rest, rfl⟩
    · exact told
    · exact told
  | @leave i joined hs =>
    obtain ⟨rfl, ⟨hscenes, hjoined, hclosing⟩, moved⟩ := hc.sole hl hs
    have hreason : c.closeReason.isSome = true := by rw [hc.reasoned, hclosing]; rfl
    have hclosed : c.closed = true := by rw [hc.closed_eq, hclosing]; rfl
    refine .moved (moved _) hclosed hc.login hreason (absurd rfl) ?_ ⟨?_, rfl⟩
    · cases joined with
      | true => exact in_time_snoc hc.in_time (by simp)
      | false => simpa using hc.in_time
    · have hold : c.landmarks.filter Effect.isSceneCall = if joined then [.sceneAdd 0] else [] :=
        hscenes
      cases joined with
      | true => exact .inr ⟨by simp [scenes, hold, Effect.isSceneCall], hjoined rfl⟩
      | false => exact .inl (by simp [scenes, hold])

/-- The phase never goes back. -/
theorem Step.rank_le (h : Step authorized added c d) : c.phase.rank ≤ d.phase.rank := by
  have last : ∀ phase : Phase, phase.rank ≤ Phase.closed.rank := by
    intro phase
    cases phase <;> decide
  cases h with
  | refuse | leave => exact last c.phase
  | join =>
    show c.phase.rank ≤ (if c.phase = .authenticating then Phase.active else c.phase).rank
    cases c.phase <;> decide
  | _ => exact Nat.le_refl _

theorem rank_le_close (reason : CloseReason) (c : Course) :
    c.phase.rank ≤ (c.close reason).phase.rank := by
  cases h : c.phase <;> simp [close, h, Phase.isEnding, Phase.rank]

/-- A circuit ends for the first reason that was given, or because its viewer was not
authenticated. -/
theorem Step.reason (h : Step authorized added c d) (hc : c.Sound authorized added)
    (hl : c.stages.length ≤ 1) (hopen : c.phase ≠ .closed) (hclosed : d.phase = .closed) :
    d.closeReason = some ((firstReason c.landmarks).getD .authenticationFailed) := by
  rw [← hc.first hopen]
  cases h with
  | refuse => rfl
  | leave hs =>
    obtain ⟨-, ⟨-, -, hclosing⟩, -⟩ := hc.sole hl hs
    have hr := hc.reasoned
    rw [hclosing] at hr
    obtain ⟨reason, hreason⟩ := Option.isSome_iff_exists.1 hr
    show c.closeReason = _
    rw [hreason]
    rfl
  | join =>
    have hphase : (if c.phase = .authenticating then Phase.active else c.phase) = .closed := hclosed
    split at hphase
    · cases hphase
    · exact absurd hphase hopen
  | _ => exact absurd hclosed hopen

/-- A circuit that is closed takes no step any more. -/
theorem Step.not_closed (h : Step authorized added c d) (hc : c.Sound authorized added)
    (hl : c.stages.length ≤ 1) : c.phase ≠ .closed := by
  have closing : c.phase = .closing → c.phase ≠ .closed := by
    intro hp
    rw [hp]
    exact Phase.noConfusion
  cases h with
  | enter ha hs | dismiss ha hs | refuse hs =>
    obtain ⟨-, ⟨-, -, hopen⟩, -⟩ := hc.sole hl hs
    exact hopen
  | join ha hs =>
    obtain ⟨-, ⟨-, -, -, hopen⟩, -⟩ := hc.sole hl hs
    exact hopen
  | stop hs =>
    obtain ⟨-, ⟨-, -, -, hopen⟩, -⟩ := hc.sole hl hs
    exact hopen
  | drain hs hf =>
    obtain ⟨-, told, -⟩ := hc.sole hl hs
    rcases hf with rfl | ⟨rest, rfl⟩
    · exact closing told.2.2
    · exact closing told.2.2
  | leave hs =>
    obtain ⟨-, ⟨-, -, hp⟩, -⟩ := hc.sole hl hs
    exact closing hp

end Course
end ViewerCircuit
