import ViewerCircuit.Proofs.Orderly

/-!
# The life of an attendant

A circuit that is started once has one attendant. What the attendant has come to tells what happened
before: whether the circuit was authorized, whether somebody wanted it closed, and which timers may
still run.
-/
namespace ViewerCircuit

namespace Traffic

def CloseCalled (t : Traffic) : Prop := ∃ reason, Effect.closeCalled reason ∈ t.history

def Tells (t : Traffic) (a : Attendant) : Stage → Prop
  | .authenticating => t.authorized = false ∧ a.ackTimer = .off ∧ a.awaitedBy = none
  | .joining => t.authorized = true ∧ a.awaitedBy = none
  | .serving => t.authorized = true ∧ a.awaitedBy = none
  | .finishing _ => t.authorized = true ∧ t.CloseCalled ∧ a.awaitedBy = none
  | .flushing _ remaining => t.authorized = true ∧ t.CloseCalled ∧
    (remaining ≠ [] → a.awaitedBy = none) ∧
      (remaining = [] → a.ackTimer = .off ∨ a.awaitedBy = some 0)
  | .ended => a.ackTimer ≠ .running ∧ (t.authorized = true → t.CloseCalled)

structure Lifecycle (t : Traffic) : Prop where
  orderly : t.Orderly
  unstarted : t.attendants = [] → t.authorized = false ∧ t.phase ≠ .closed
  tells : ∀ a ∈ t.attendants, t.Tells a a.stage
  ended : t.phase = .closed → ∀ a ∈ t.attendants, a.stage = .ended
  called : t.closed = true → t.CloseCalled ∨ ∃ a ∈ t.attendants, a.stage = .ended

variable {plain : Prop} {now : Nat} {t u : Traffic}

theorem CloseCalled.mono (h : t.CloseCalled) {l : List Effect} (hu : u.history = t.history ++ l) :
    u.CloseCalled := by
  obtain ⟨reason, hr⟩ := h
  exact ⟨reason, by rw [hu]; exact List.mem_append_left l hr⟩

theorem Tells.mono {a : Attendant} {stage : Stage} (h : t.Tells a stage)
    (ha : u.authorized = t.authorized) (hc : t.CloseCalled → u.CloseCalled) : u.Tells a stage := by
  cases stage with
  | authenticating => exact ⟨ha.trans h.1, h.2⟩
  | joining => exact ⟨ha.trans h.1, h.2⟩
  | serving => exact ⟨ha.trans h.1, h.2⟩
  | finishing => exact ⟨ha.trans h.1, hc h.2.1, h.2.2⟩
  | flushing => exact ⟨ha.trans h.1, hc h.2.1, h.2.2⟩
  | ended => exact ⟨h.1, fun k => hc (h.2 (ha.symm.trans k))⟩

/-- The only attendant has number zero. -/
theorem sole {i : AttendantId} {stage : Stage} (hl : t.attendants.length ≤ 1)
    (hs : t.stage? i = some stage) : i = 0 ∧ ∃ a, t.attendants = [a] ∧ a.stage = stage := by
  obtain ⟨a, ha, hstage⟩ := Option.map_eq_some_iff.1 hs
  match hat : t.attendants with
  | [] =>
    rw [hat] at ha
    cases ha
  | [b] =>
    rw [hat] at ha
    cases i with
    | zero => exact ⟨rfl, b, rfl, by cases ha; exact hstage⟩
    | succ i => cases ha
  | b :: c :: rest =>
    rw [hat] at hl
    simp at hl

/-- Steps that leave the attendants alone do not change what they tell. -/
theorem Lifecycle.same (ht : t.Lifecycle) (hu : u.Orderly) {l : List Effect}
    (hh : u.history = t.history ++ l) (hat : u.attendants = t.attendants)
    (ha : u.authorized = t.authorized) (hp : u.phase = .closed ↔ t.phase = .closed)
    (hc : u.closed = true → t.closed = true ∨ u.CloseCalled) : u.Lifecycle := by
  have mono : t.CloseCalled → u.CloseCalled := fun h => h.mono hh
  refine ⟨hu, ?_, ?_, ?_, ?_⟩
  · rw [hat, ha, Ne, hp]
    exact ht.unstarted
  · rw [hat]
    exact fun a hm => (ht.tells a hm).mono ha mono
  · rw [hat, hp]
    exact ht.ended
  · intro h
    rcases hc h with h | h
    · rw [hat]
      exact (ht.called h).imp_left mono
    · exact .inl h

/-- The circuit after its only attendant moved on. -/
theorem Lifecycle.moved {a : Attendant} (hu : u.Orderly) (hat : u.attendants = [a])
    (ht : u.Tells a a.stage) (hp : u.phase = .closed → a.stage = .ended)
    (hc : u.closed = true → u.CloseCalled ∨ a.stage = .ended) : u.Lifecycle := by
  refine ⟨hu, ?_, ?_, ?_, ?_⟩
  · rw [hat]
    exact fun h => absurd h (List.cons_ne_nil _ _)
  · rw [hat]
    exact fun b hb => List.mem_singleton.1 hb ▸ ht
  · rw [hat]
    exact fun h b hb => List.mem_singleton.1 hb ▸ hp h
  · rw [hat]
    exact fun h => (hc h).imp_right fun he => ⟨a, List.mem_singleton_self a, he⟩

theorem Lifecycle.only {i : AttendantId} {stage : Stage} (ht : t.Lifecycle)
    (hl : t.attendants.length ≤ 1) (hs : t.stage? i = some stage) :
    i = 0 ∧ ∃ a, t.attendants = [a] ∧ a.stage = stage ∧ t.Tells a stage := by
  obtain ⟨hi, a, hat, hstage⟩ := sole hl hs
  exact ⟨hi, a, hat, hstage, hstage ▸ ht.tells a (by simp [hat])⟩

/-- Before its attendant ends, the circuit is not closed, and if its queue is, that was wanted. -/
theorem Lifecycle.alive {a : Attendant} (ht : t.Lifecycle) (hat : t.attendants = [a])
    (hs : a.stage ≠ .ended) : t.phase ≠ .closed ∧ (t.closed = true → t.CloseCalled) := by
  refine ⟨fun hp => hs (ht.ended hp a (by simp [hat])), fun hc => ?_⟩
  rcases ht.called hc with h | ⟨b, hb, he⟩
  · exact h
  · rw [hat] at hb
    exact absurd (List.mem_singleton.1 hb ▸ he) hs

theorem Lifecycle.flushing {a : Attendant} {joined : Bool} {remaining : List Outgoing}
    (hu : (t.withRemaining 0 joined remaining).Orderly) (hat : t.attendants = [a])
    (ha : t.authorized = true) (hcall : t.CloseCalled) (hfree : a.awaitedBy = none)
    (hp : t.phase ≠ .closed) :
    (t.withRemaining 0 joined remaining).Lifecycle := by
  have authorized : (t.withRemaining 0 joined remaining).authorized = true := ha
  have called : (t.withRemaining 0 joined remaining).CloseCalled := hcall
  by_cases hr : remaining = []
  · subst hr
    have hone : (t.withRemaining 0 joined []).attendants =
        [({ a with stage := .flushing joined [] }).claimedBy 0] := by
      simp [withRemaining, hat]
    refine .moved hu hone ?_ (fun h => absurd h hp) (fun _ => .inl called)
    by_cases hoff : a.ackTimer = .off
    · simp [Attendant.claimedBy, Tells, hoff, authorized, called]
    · simp [Attendant.claimedBy, Tells, hoff, hfree, authorized, called]
  · have hone : (t.withRemaining 0 joined remaining).attendants =
        [{ a with stage := .flushing joined remaining }] := by
      simp [withRemaining, hat, hr]
    refine .moved hu hone ?_ (fun h => absurd h hp) (fun _ => .inl called)
    exact ⟨authorized, called, fun _ => hfree, fun h => absurd h hr⟩

/-- A change of an attendant that keeps its stage. -/
theorem Lifecycle.adjusted {i : AttendantId} {f : Attendant → Attendant} (ht : t.Lifecycle)
    (hu : (t.attend i f).Orderly) (hf : ∀ a, (f a).stage = a.stage)
    (hs : ∀ a, t.attendants[i]? = some a → t.Tells (f a) a.stage) : (t.attend i f).Lifecycle := by
  refine ⟨hu, ?_, ?_, ?_, ?_⟩
  · intro h
    exact ht.unstarted (by simpa [attend] using h)
  · intro a ha
    rcases mem_modify ha with ha | ⟨b, hb, rfl⟩
    · exact ht.tells a ha
    · rw [hf]
      exact (hs b hb).mono rfl id
  · intro h a ha
    rcases mem_modify ha with ha | ⟨b, hb, rfl⟩
    · exact ht.ended h a ha
    · rw [hf]
      exact ht.ended h b (List.mem_of_getElem? hb)
  · intro h
    refine (ht.called h).imp_right ?_
    rintro ⟨a, ha, he⟩
    obtain ⟨j, hj⟩ := List.mem_iff_getElem?.1 ha
    have hk : (t.attendants.modify i f)[j]? = some (if i = j then f a else a) := by
      rw [List.getElem?_modify, hj]
      rfl
    refine ⟨_, List.mem_of_getElem? hk, ?_⟩
    split
    · rw [hf, he]
    · exact he

theorem Step.lifecycle (h : Step plain now t u) (ht : t.Lifecycle)
    (hl : t.attendants.length ≤ 1) : u.Lifecycle := by
  have hu : u.Orderly := h.orderly ht.orderly
  cases h with
  | note | queue | turnAway | queueAcks | requeue | release =>
    exact ht.same hu (l := [_]) rfl rfl rfl Iff.rfl .inl
  | receive => exact ht.same hu (l := [_]) rfl rfl rfl Iff.rfl .inl
  | loseAcks | refresh | sweep =>
    exact ht.same hu (l := []) (List.append_nil _).symm rfl rfl Iff.rfl .inl
  | process => exact ht.same hu (List.append_assoc _ _ _) rfl rfl Iff.rfl .inl
  | close =>
    refine ht.same hu (l := [_]) rfl rfl rfl ?_ fun _ =>
      .inr ⟨_, List.mem_append_right _ (List.mem_singleton_self _)⟩
    cases t.phase <;> simp [log, Phase.isEnding, Phase.rank]
  | flush hs =>
    obtain ⟨rfl, a, hat, hstage, hauthorized, hcalled, hfree, -⟩ := ht.only hl hs
    obtain ⟨hp, -⟩ := ht.alive hat (by simp [hstage])
    exact .flushing hu hat hauthorized (hcalled.mono rfl) (hfree (List.cons_ne_nil _ _)) hp
  | authorize hs hp =>
    obtain ⟨rfl, a, hat, hstage, -, -, hfree⟩ := ht.only hl hs
    obtain ⟨hphase, hcalled⟩ := ht.alive hat (by simp [hstage])
    refine .moved hu (a := { a with stage := _, ackTimer := _, probeTimer := _ })
      (by simp only [attend, hat]; rfl) ?_ (fun h => absurd h hphase) (fun h => .inl (hcalled h))
    exact ⟨rfl, hfree⟩
  | authorizeLate hs hp =>
    obtain ⟨rfl, a, hat, hstage, -, -, hfree⟩ := ht.only hl hs
    obtain ⟨hphase, hcalled⟩ := ht.alive hat (by simp [hstage])
    refine .moved hu (a := { a with stage := _ })
      (by simp only [attend, hat]; rfl) ?_ (fun h => absurd h hphase) (fun h => .inl (hcalled h))
    exact ⟨rfl, hcalled (ht.orderly.closed_eq.trans hp), hfree⟩
  | refuse hs =>
    obtain ⟨rfl, a, hat, hstage, hrefused, hoff, -⟩ := ht.only hl hs
    refine .moved hu (a := { a with stage := _ })
      (by simp only [attend, hat]; rfl) ?_ (fun _ => rfl) (fun _ => .inr rfl)
    refine ⟨by simp [hoff], fun h => ?_⟩
    exact absurd (hrefused.symm.trans h) Bool.noConfusion
  | join hs =>
    obtain ⟨rfl, a, hat, hstage, told⟩ := ht.only hl hs
    obtain ⟨hphase, hcalled⟩ := ht.alive hat (by simp [hstage])
    refine .moved hu (a := { a with stage := _ })
      (by simp only [attend, hat]; rfl) ?_ (fun h => ?_) (fun h => .inl (hcalled h))
    · exact told
    · cases hp : t.phase <;> simp_all [attend]
  | poison hs hc =>
    obtain ⟨rfl, a, hat, hstage, hauthorized, hfree⟩ := ht.only hl hs
    obtain ⟨hphase, hcalled⟩ := ht.alive hat (by simp [hstage])
    refine .moved hu (a := { a with stage := _ })
      (by simp only [attend, hat]; rfl) ?_ (fun h => absurd h hphase) (fun h => .inl (hcalled h))
    exact ⟨hauthorized, hcalled hc, hfree⟩
  | collect hs hw =>
    obtain ⟨rfl, a, hat, hstage, hauthorized, hcalled, hfree⟩ := ht.only hl hs
    obtain ⟨hphase, -⟩ := ht.alive hat (by simp [hstage])
    exact .flushing hu hat hauthorized hcalled hfree hphase
  | leave hs hq =>
    obtain ⟨rfl, a, hat, hstage, -, hcalled, -, hclaimed⟩ := ht.only hl hs
    refine .moved hu (a := { a with stage := _ })
      (by simp only [attend, hat]; rfl) ?_ (fun _ => rfl) (fun _ => .inr rfl)
    refine ⟨?_, fun _ => hcalled⟩
    rcases hclaimed rfl with hoff | hawaited
    · simp [hoff]
    · have hquiet := hq a (by simp [hat]) hawaited
      intro hrunning
      simp [Attendant.isQuiet, show a.ackTimer = .running from hrunning] at hquiet
  | stopAckTimer ha hr =>
    refine ht.adjusted hu (fun _ => rfl) ?_
    intro b hb
    obtain rfl := Option.some.inj (ha.symm.trans hb)
    have told := ht.tells _ (List.mem_of_getElem? ha)
    cases hstage : Attendant.stage _ with
    | authenticating =>
      rw [hstage] at told
      exact absurd (hr.symm.trans told.2.1) TimerState.noConfusion
    | flushing =>
      rw [hstage] at told
      obtain ⟨hauthorized, hcalled, hfree, hclaimed⟩ := told
      exact ⟨hauthorized, hcalled, hfree, fun h => .inr ((hclaimed h).resolve_left (by simp [hr]))⟩
    | ended =>
      rw [hstage] at told
      exact absurd hr told.1
    | _ =>
      rw [hstage] at told
      exact told
  | stopProbeTimer =>
    refine ht.adjusted hu (fun _ => rfl) ?_
    intro b hb
    exact ht.tells b (List.mem_of_getElem? hb)

theorem Step.length_attendants (h : Step plain now t u) :
    u.attendants.length = t.attendants.length := by
  have remaining : ∀ (t : Traffic) i joined rest,
      (t.withRemaining i joined rest).attendants.length = t.attendants.length := by
    intro t i joined rest
    unfold withRemaining
    dsimp only
    split <;> simp
  cases h with
  | flush => exact remaining _ _ _ _
  | collect => exact remaining _ _ _ _
  | authorize | authorizeLate | refuse | join | poison | leave | stopAckTimer =>
    simp [attend]
  | stopProbeTimer => simp [attend]
  | _ => rfl

theorem Lifecycle.started (ht : t.Lifecycle) (hat : t.attendants = []) : t.started.Lifecycle := by
  have hone : t.started.attendants = [{}] := by simp [Traffic.started, hat]
  obtain ⟨ha, hp⟩ := ht.unstarted hat
  refine .moved ht.orderly.started hone ⟨ha, rfl, rfl⟩ (fun h => absurd h hp) ?_
  intro h
  rcases ht.called h with hc | ⟨a, hm, -⟩
  · exact .inl hc
  · rw [hat] at hm
    cases hm

theorem Reachable.length_attendants {timed : Prop} {start : Traffic} {starts clock : Nat}
    (h : Reachable plain timed start starts clock t) (hs : start.attendants = []) :
    t.attendants.length = starts := by
  induction h with
  | refl => simp [hs]
  | started _ ih => simp [Traffic.started, ih]
  | wait _ _ ih => exact ih
  | step _ step ih => exact step.length_attendants.trans ih

theorem Reachable.lifecycle {timed : Prop} {start : Traffic} {starts clock : Nat}
    (h : Reachable plain timed start starts clock t) (hs : start.attendants = [])
    (hl : start.Lifecycle) (hn : starts ≤ 1) : t.Lifecycle := by
  induction h with
  | refl => exact hl
  | started h ih =>
    have hnone := h.length_attendants hs
    exact (ih (by omega)).started (List.length_eq_zero_iff.1 (by omega))
  | wait _ _ ih => exact ih hn
  | step h step ih => exact step.lifecycle (ih hn) (by rw [h.length_attendants hs]; exact hn)

end Traffic
end ViewerCircuit
