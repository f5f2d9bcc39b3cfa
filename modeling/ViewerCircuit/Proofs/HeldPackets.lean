import ViewerCircuit.Proofs.UnsentPackets

/-!
# Held packets

With any number of attendants, a packet goes on the wire at most as often as it was queued: it waits
in the queue, or an attendant took it from there to send it before it leaves.
-/
namespace ViewerCircuit

open scoped List

namespace Effect

def sent? : Effect → Option Outgoing
  | transmitted _ _ o _ => some o
  | _ => none

def enqueued? : Effect → Option Outgoing
  | queued o => some o
  | requeued o => some o
  | _ => none

end Effect

variable {history l : List Effect}

def sentIn (history : List Effect) : List Outgoing := history.filterMap Effect.sent?

def enqueuedIn (history : List Effect) : List Outgoing := history.filterMap Effect.enqueued?

def takenBy (attendants : List Attendant) : List Outgoing :=
  attendants.flatMap fun a => a.stage.leftover?.getD []

theorem takenBy_modify {attendants : List Attendant} {i : AttendantId} {a : Attendant}
    (f : Attendant → Attendant) (h : attendants[i]? = some a) :
    takenBy (attendants.modify i f) ++ a.stage.leftover?.getD [] ~
      takenBy attendants ++ (f a).stage.leftover?.getD [] := by
  induction attendants generalizing i with
  | nil => simp at h
  | cons b attendants ih =>
    apply List.perm_iff_count.2
    intro o
    cases i with
    | zero =>
      obtain rfl : b = a := by simpa using h
      simp only [takenBy, List.modify_zero_cons, List.flatMap_cons, List.count_append]
      omega
    | succ i =>
      have hcount := (ih (i := i) (by simpa using h)).count_eq o
      simp only [takenBy, List.modify_succ_cons, List.flatMap_cons, List.count_append]
        at hcount ⊢
      omega

theorem takenBy_claimed (attendants : List Attendant) (i : AttendantId) :
    takenBy (attendants.map (·.claimedBy i)) = takenBy attendants := by
  simp [takenBy, List.flatMap_map]

namespace Traffic

variable {plain : Prop} {now : Nat} {t u : Traffic}

/-- The packets that may still be sent. -/
def held (t : Traffic) : List Outgoing := takenBy t.attendants ++ t.outgoing.toList.flatten

theorem held_push (o : Outgoing) (t : Traffic) : (t.push o).held ~ o :: t.held :=
  ((t.outgoing.flatten_push o.category o).append_left _).trans List.perm_middle

theorem held_release {c : Category} {o : Outgoing} {rest : List Outgoing}
    (h : t.outgoing.get c = o :: rest) :
    t.held ~ o :: { t with outgoing := t.outgoing.set c rest }.held :=
  ((PerCategory.flatten_pop h).append_left _).trans List.perm_middle

theorem mem_held_of_get {c : Category} {o : Outgoing} (h : o ∈ t.outgoing.get c) : o ∈ t.held := by
  refine List.mem_append_right _ (List.mem_flatten.2 ⟨t.outgoing.get c, ?_, h⟩)
  exact List.mem_map_of_mem (Category.mem_all c)

theorem mem_held_of_stage {i : AttendantId} {stage : Stage} {o : Outgoing}
    (hs : t.stage? i = some stage) (ho : o ∈ stage.leftover?.getD []) : o ∈ t.held := by
  obtain ⟨a, ha, rfl⟩ := mem_of_stage hs
  exact List.mem_append_left _ (List.mem_flatMap.2 ⟨a, ha, ho⟩)

theorem takenBy_attend {i : AttendantId} {f : Attendant → Attendant}
    (hf : ∀ a, t.attendants[i]? = some a →
      (f a).stage.leftover?.getD [] = a.stage.leftover?.getD []) :
    takenBy (t.attend i f).attendants ~ takenBy t.attendants := by
  cases ha : t.attendants[i]? with
  | none =>
    rw [show (t.attend i f).attendants = t.attendants from List.modify_eq_self
      (List.getElem?_eq_none_iff.1 ha)]
  | some a =>
    have hperm := takenBy_modify f ha
    rw [hf a ha] at hperm
    exact (List.perm_append_right_iff _).1 hperm

theorem takenBy_moved {i : AttendantId} {f : Attendant → Attendant} {stage : Stage}
    (hs : t.stage? i = some stage)
    (hf : ∀ a, (f a).stage.leftover?.getD [] = stage.leftover?.getD []) :
    takenBy (t.attend i f).attendants ~ takenBy t.attendants := by
  refine takenBy_attend fun a ha => ?_
  have hstage : a.stage = stage := by simpa [stage?, ha] using hs
  rw [hf, hstage]

theorem takenBy_withRemaining {i : AttendantId} {stage : Stage} (joined : Bool)
    (remaining : List Outgoing) (hs : t.stage? i = some stage) :
    takenBy (t.withRemaining i joined remaining).attendants ++ stage.leftover?.getD [] ~
      takenBy t.attendants ++ remaining := by
  obtain ⟨a, ha, rfl⟩ := Option.map_eq_some_iff.1 hs
  have hperm := takenBy_modify ({ · with stage := .flushing joined remaining }) ha
  unfold withRemaining
  dsimp only
  split
  · rw [takenBy_claimed]
    exact hperm
  · exact hperm

/-- No packet was sent, or can be, more often than it was put in the queue. -/
def Balanced (t : Traffic) : Prop :=
  ∀ o, (sentIn t.history).count o + t.held.count o ≤ (enqueuedIn t.history).count o

theorem Balanced.enqueued_of_held {o : Outgoing} (ht : t.Balanced) (ho : o ∈ t.held) :
    .queued o ∈ t.history ∨ .requeued o ∈ t.history := by
  have hbalanced := ht o
  have hheld : 0 < t.held.count o := List.count_pos_iff.2 ho
  have hmem : o ∈ enqueuedIn t.history := List.count_pos_iff.1 (by omega)
  obtain ⟨e, he, henq⟩ := List.mem_filterMap.1 hmem
  cases e with
  | queued p =>
    obtain rfl := Option.some.inj henq
    exact .inl he
  | requeued p =>
    obtain rfl := Option.some.inj henq
    exact .inr he
  | _ => cases henq

theorem Balanced.step (ht : t.Balanced) (hh : u.history = t.history ++ l)
    (hc : ∀ o, (sentIn l).count o + u.held.count o ≤ t.held.count o + (enqueuedIn l).count o) :
    u.Balanced := by
  intro o
  have hold := ht o
  have hnew := hc o
  rw [hh]
  simp only [sentIn, enqueuedIn, List.filterMap_append, List.count_append] at hold hnew ⊢
  omega

theorem Balanced.quiet (ht : t.Balanced) (hh : u.history = t.history ++ l)
    (hl : ∀ e ∈ l, e.sent? = none) (hu : ∀ o, u.held.count o ≤ t.held.count o) : u.Balanced := by
  refine ht.step hh fun o => ?_
  rw [sentIn, List.filterMap_eq_nil_iff.2 hl, List.count_nil]
  have := hu o
  omega

theorem Balanced.pushed {o : Outgoing} {e : Effect} (ht : t.Balanced) (he : e.enqueued? = some o)
    (hs : e.sent? = none) : ((t.push o).log e).Balanced := by
  refine ht.step (l := [e]) rfl fun p => ?_
  have hcount := (held_push o t).count_eq p
  simp only [sentIn, enqueuedIn, List.filterMap_cons, List.filterMap_nil, he, hs, List.count_cons,
    List.count_nil] at hcount ⊢
  show 0 + (t.push o).held.count p ≤ _
  omega

theorem Step.balanced (h : Step plain now t u) (ht : t.Balanced) : u.Balanced := by
  have unchanged : t.history = t.history ++ [] := (List.append_nil _).symm
  cases h with
  | note he =>
    refine ht.quiet (l := [_]) rfl ?_ fun _ => Nat.le_refl _
    rename_i e
    cases e <;> simp_all [Effect.isNote, Effect.sent?]
  | queue | requeue => exact ht.pushed rfl rfl
  | queueAcks =>
    refine Balanced.pushed (t := { t with ackState.owed := _ }) ?_ rfl rfl
    exact ht.quiet unchanged (by simp) fun _ => Nat.le_refl _
  | loseAcks | refresh | sweep => exact ht.quiet unchanged (by simp) fun _ => Nat.le_refl _
  | turnAway | receive | close =>
    exact ht.quiet (l := [_]) rfl (by simp [Effect.sent?]) fun _ => Nat.le_refl _
  | process =>
    obtain ⟨l, hh, hown⟩ := history_process_spec now _ { t with incoming := _ }
    refine ht.quiet hh (fun e he => ?_) fun _ => Nat.le_refl _
    rcases hown e he with rfl | rfl | rfl | rfl <;> rfl
  | release hs hc ho =>
    refine ht.step (l := [_]) rfl fun p => ?_
    have hcount := (held_release ho).count_eq p
    rw [List.count_cons] at hcount
    simp only [sentIn, enqueuedIn, Effect.sent?, Effect.enqueued?, List.filterMap_cons,
      List.filterMap_nil, List.count_cons, List.count_nil, Nat.zero_add, Nat.add_zero]
    exact Nat.le_of_eq ((Nat.add_comm _ _).trans hcount.symm)
  | @flush i joined o rest room destination linkUp hs =>
    refine ht.step (l := [_]) rfl fun p => ?_
    have hcount := (takenBy_withRemaining (t := t.transmit now room destination linkUp o) joined
      (if linkUp then rest else []) hs).count_eq p
    -- If the send failed, the attendant gives up the rest.
    have hrest : (if linkUp then rest else []).count p ≤ rest.count p := by
      cases linkUp <;> simp
    simp only [Stage.leftover?, Option.getD_some, List.count_append, List.count_cons] at hcount
    simp only [sentIn, enqueuedIn, Effect.sent?, Effect.enqueued?, List.filterMap_cons,
      List.filterMap_nil, List.count_cons, List.count_nil, held, List.count_append]
    show _ + ((takenBy _).count p + (t.outgoing.toList.flatten).count p) ≤
      ((takenBy t.attendants).count p + _) + _
    have hsame : (t.transmit now room destination linkUp o).attendants = t.attendants := rfl
    rw [hsame] at hcount
    omega
  | @collect i joined hs =>
    refine ht.quiet (l := []) unchanged (by simp) fun p => ?_
    have hcount := (takenBy_withRemaining (t := { t with incoming := [], outgoing := .all [] })
      joined (if t.closeReason = some CloseReason.transportFault then []
        else t.outgoing.toList.flatten) hs).count_eq p
    have hless : (if t.closeReason = some CloseReason.transportFault then []
        else t.outgoing.toList.flatten).count p ≤ t.outgoing.toList.flatten.count p := by
      split <;> simp
    simp only [Stage.leftover?, Option.getD_none, List.append_nil, List.count_append] at hcount
    simp only [held, List.count_append]
    show _ + (PerCategory.toList (.all [])).flatten.count p ≤ _
    rw [PerCategory.flatten_all_nil, List.count_nil]
    omega
  | authorize hs | authorizeLate hs | refuse hs | join hs | poison hs | leave hs =>
    refine ht.quiet (l := []) unchanged (by simp) fun p => Nat.le_of_eq ?_
    exact ((takenBy_moved hs fun _ => rfl).append_right _).count_eq p
  | stopAckTimer | stopProbeTimer =>
    refine ht.quiet (l := []) unchanged (by simp) fun p => Nat.le_of_eq ?_
    refine List.Perm.count_eq (List.Perm.append_right _ ?_) p
    exact takenBy_attend fun _ _ => rfl

theorem Reachable.balanced {timed : Prop} {start : Traffic} {starts clock : Nat}
    (h : Reachable plain timed start starts clock t) (hs : start.Balanced) : t.Balanced := by
  induction h with
  | refl => exact hs
  | started _ ih =>
    refine ih.quiet (l := []) (List.append_nil _).symm (by simp) fun o => Nat.le_of_eq ?_
    simp [held, Traffic.started, takenBy, Stage.leftover?]
  | wait _ _ ih => exact ih
  | step _ step ih => exact step.balanced ih

end Traffic

namespace Site

theorem opened_balanced (config : Config) (viewer : Viewer) (remote : Address) (since : Nat) :
    (opened config viewer remote since).traffic.Balanced := by
  intro o
  simp [traffic, opened, Traffic.held, takenBy, Circuit.new, Queue.new, sentIn]

theorem follow_balanced (config : Config) (viewer : Viewer) (remote : Address) (since : Nat)
    (moves : List Move) : ((opened config viewer remote since).follow moves).traffic.Balanced := by
  obtain ⟨last, h⟩ := run_reachable False False config viewer remote since
    (fun h => (h.elim : ∀ m ∈ moves, m.LeavesAcks)) (fun h => h.elim)
  exact h.balanced (opened_balanced config viewer remote since)

end Site
end ViewerCircuit
