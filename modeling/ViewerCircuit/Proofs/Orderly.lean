import ViewerCircuit.Proofs.Traffic

/-!
# Order of closing

The queue of a circuit is closed exactly from the moment the circuit begins to end, and an attendant
stops serving only afterwards. That holds for any number of attendants.
-/
namespace ViewerCircuit

def Stage.isLeaving : Stage → Bool
  | finishing _ => true
  | flushing _ _ => true
  | ended => true
  | _ => false

namespace Traffic

/-- An attendant was there before, or is the changed one. -/
theorem mem_modify {as : List Attendant} {i : AttendantId} {f : Attendant → Attendant}
    {a : Attendant} (h : a ∈ as.modify i f) : a ∈ as ∨ ∃ b, as[i]? = some b ∧ a = f b := by
  obtain ⟨j, hj⟩ := List.mem_iff_getElem?.1 h
  rw [List.getElem?_modify] at hj
  obtain ⟨b, hb, rfl⟩ := Option.map_eq_some_iff.1 hj
  by_cases hi : i = j
  · subst hi
    exact .inr ⟨b, hb, if_pos rfl⟩
  · rw [if_neg hi]
    exact .inl (List.mem_of_getElem? hb)

theorem mem_of_stage {t : Traffic} {i : AttendantId} {stage : Stage}
    (h : t.stage? i = some stage) : ∃ a ∈ t.attendants, a.stage = stage := by
  obtain ⟨a, ha, hs⟩ := Option.map_eq_some_iff.1 h
  exact ⟨a, List.mem_of_getElem? ha, hs⟩

@[simp] theorem claimedBy_stage (i : AttendantId) (a : Attendant) :
    (a.claimedBy i).stage = a.stage := by
  unfold Attendant.claimedBy
  split <;> rfl

structure Orderly (t : Traffic) : Prop where
  closed_eq : t.closed = t.phase.isEnding
  closed_of_leaving : ∀ a ∈ t.attendants, a.stage.isLeaving = true → t.closed = true

variable {plain : Prop} {now : Nat} {t u : Traffic}

/-- A changed attendant that leaves is no news if the circuit was closed before. -/
theorem Orderly.attend {i : AttendantId} {f : Attendant → Attendant} (ht : t.Orderly)
    (h : ∀ a, t.attendants[i]? = some a → (f a).stage.isLeaving = true → t.closed = true) :
    (t.attend i f).Orderly := by
  refine ⟨ht.closed_eq, ?_⟩
  intro a ha hl
  rcases mem_modify ha with ha | ⟨b, hb, rfl⟩
  · exact ht.closed_of_leaving a ha hl
  · exact h b hb hl

theorem Orderly.withRemaining {i : AttendantId} {joined : Bool} {remaining : List Outgoing}
    (ht : t.Orderly) (hc : t.closed = true) : (t.withRemaining i joined remaining).Orderly :=
  ⟨ht.closed_eq, fun _ _ _ => hc⟩

theorem Orderly.closed_of_stage {i : AttendantId} {stage : Stage} (ht : t.Orderly)
    (hs : t.stage? i = some stage) (hl : stage.isLeaving = true) : t.closed = true := by
  obtain ⟨a, ha, rfl⟩ := mem_of_stage hs
  exact ht.closed_of_leaving a ha hl

theorem Step.orderly (h : Step plain now t u) (ht : t.Orderly) : u.Orderly := by
  cases h with
  | flush hs =>
    exact Orderly.withRemaining (t := Traffic.transmit _ _ _ _ _ t)
      ⟨ht.closed_eq, ht.closed_of_leaving⟩ (ht.closed_of_stage hs rfl)
  | close =>
    refine ⟨?_, fun _ _ _ => rfl⟩
    cases he : t.phase.isEnding with
    | false =>
      simp [log]
      rfl
    | true => simp [log, he]
  | authorize hs hp =>
    refine Orderly.attend (t := { t with authorized := true })
      ⟨ht.closed_eq, ht.closed_of_leaving⟩ ?_
    intro a _ hl
    cases hl
  | authorizeLate hs hp =>
    refine Orderly.attend (t := { t with authorized := true })
      ⟨ht.closed_eq, ht.closed_of_leaving⟩ ?_
    intro a _ _
    exact ht.closed_eq.trans hp
  | refuse hs => exact ⟨rfl, fun _ _ _ => rfl⟩
  | join hs =>
    refine Orderly.attend ⟨?_, ht.closed_of_leaving⟩ ?_
    · rw [ht.closed_eq]
      cases t.phase <;> rfl
    · intro a _ hl
      cases hl
  | poison hs hc => exact ht.attend fun a _ _ => hc
  | collect hs =>
    exact Orderly.withRemaining (t := { t with incoming := [], outgoing := .all [] })
      ⟨ht.closed_eq, ht.closed_of_leaving⟩ (ht.closed_of_stage hs rfl)
  | leave hs =>
    have hc : t.closed = true := ht.closed_of_stage hs rfl
    exact ⟨hc.trans rfl, fun _ _ _ => hc⟩
  | stopAckTimer =>
    refine ht.attend ?_
    intro a ha hl
    exact ht.closed_of_leaving a (List.mem_of_getElem? ha) hl
  | stopProbeTimer =>
    refine ht.attend ?_
    intro a ha hl
    exact ht.closed_of_leaving a (List.mem_of_getElem? ha) hl
  | _ => exact ⟨ht.closed_eq, ht.closed_of_leaving⟩

theorem Orderly.started (ht : t.Orderly) : t.started.Orderly := by
  refine ⟨ht.closed_eq, ?_⟩
  intro a ha hl
  rcases List.mem_append.1 ha with ha | ha
  · exact ht.closed_of_leaving a ha hl
  · obtain rfl := List.mem_singleton.1 ha
    cases hl

theorem Reachable.orderly {timed : Prop} {start : Traffic} {starts clock : Nat}
    (h : Reachable plain timed start starts clock t) (hs : start.Orderly) : t.Orderly := by
  induction h with
  | refl => exact hs
  | started _ ih => exact ih.started
  | wait _ _ ih => exact ih
  | step _ step ih => exact step.orderly ih

end Traffic
end ViewerCircuit
