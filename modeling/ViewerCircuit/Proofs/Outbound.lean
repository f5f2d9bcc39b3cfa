import ViewerCircuit.Proofs.Lifecycle
import ViewerCircuit.Proofs.StepTraffic

/-!
# Outbound packets

Within a category, packets go on the wire for the first time in the order in which they were queued.
While the queue is served, what was queued is what was sent and what still waits; once the queue was
collected, the packets that the attendant holds take the place of those that wait.
-/
namespace ViewerCircuit

namespace Effect

def queued? : Effect → Option Outgoing
  | queued o => some o
  | _ => none

def firstSent? : Effect → Option Outgoing
  | transmitted _ _ o _ => if o.delivery = .resend then none else some o
  | _ => none

def turnedAway? : Effect → Option Packet
  | turnedAway p => some p
  | _ => none

def isCloseCall : Effect → Bool
  | closeCalled _ => true
  | _ => false

def isFailure : Effect → Bool
  | transmitted _ _ _ delivered => !delivered
  | _ => false

end Effect

variable {c : Category} {history l : List Effect}

def queuedIn (c : Category) (history : List Effect) : List Outgoing :=
  (history.filterMap Effect.queued?).filter (·.category = c)

def firstSentIn (c : Category) (history : List Effect) : List Outgoing :=
  (history.filterMap Effect.firstSent?).filter (·.category = c)

/-- The packets of a category that were never sent. -/
def firstsIn (c : Category) (os : List Outgoing) : List Outgoing :=
  os.filter fun o => o.category = c ∧ o.delivery ≠ .resend

def early (history : List Effect) : List Effect := history.takeWhile fun e => !e.isCloseCall

theorem queuedIn_append (a b : List Effect) :
    queuedIn c (a ++ b) = queuedIn c a ++ queuedIn c b := by
  simp [queuedIn]

theorem firstSentIn_append (a b : List Effect) :
    firstSentIn c (a ++ b) = firstSentIn c a ++ firstSentIn c b := by
  simp [firstSentIn]

theorem firstsIn_append (a b : List Outgoing) :
    firstsIn c (a ++ b) = firstsIn c a ++ firstsIn c b := List.filter_append ..

theorem queuedIn_nothing (h : ∀ e ∈ l, e.queued? = none) : queuedIn c l = [] := by
  rw [queuedIn, List.filterMap_eq_nil_iff.2 h, List.filter_nil]

theorem firstSentIn_nothing (h : ∀ e ∈ l, e.firstSent? = none) : firstSentIn c l = [] := by
  rw [firstSentIn, List.filterMap_eq_nil_iff.2 h, List.filter_nil]

theorem queuedIn_queued {o : Outgoing} (h : o.delivery ≠ .resend) :
    queuedIn c [.queued o] = firstsIn c [o] := by
  simp [queuedIn, firstsIn, Effect.queued?, List.filter_cons, h]

theorem firstSentIn_transmitted (destination : Address) (datagram : Bytes) (o : Outgoing)
    (delivered : Bool) :
    firstSentIn c [.transmitted destination datagram o delivered] = firstsIn c [o] := by
  by_cases h : o.delivery = .resend
  · simp [firstSentIn, firstsIn, Effect.firstSent?, h]
  · simp [firstSentIn, firstsIn, Effect.firstSent?, h, List.filter_cons]

theorem firstsIn_other {o : Outgoing} (h : o.category ≠ c) : firstsIn c [o] = [] := by
  simp [firstsIn, h]

theorem firstsIn_resend {o : Outgoing} (h : o.delivery = .resend) : firstsIn c [o] = [] := by
  simp [firstsIn, h]

theorem early_isPrefix (history : List Effect) : early history <+: history :=
  List.takeWhile_prefix _

/-- After the first call to close, nothing is early any more. -/
theorem early_called (h : ∃ reason, Effect.closeCalled reason ∈ history) :
    early (history ++ l) = early history := by
  obtain ⟨reason, hr⟩ := h
  have hstop : (early history).length ≠ history.length := by
    intro hl
    have hall : early history = history := (early_isPrefix history).eq_of_length hl
    have := List.mem_takeWhile_imp (hall.symm ▸ hr)
    simp [Effect.isCloseCall] at this
  unfold early at hstop ⊢
  rw [List.takeWhile_append, if_neg hstop]

theorem queuedIn_early_append (h : ∀ e ∈ l, e.queued? = none) :
    queuedIn c (early (history ++ l)) = queuedIn c (early history) := by
  rw [early, List.takeWhile_append]
  split
  · next hall =>
    have hnone : queuedIn c (l.takeWhile fun e => !e.isCloseCall) = [] :=
      queuedIn_nothing fun e he => h e ((List.takeWhile_prefix _).subset he)
    rw [queuedIn_append, hnone, List.append_nil, early,
      (List.takeWhile_prefix _).eq_of_length hall]
  · rfl

theorem queuedIn_early_isPrefix : queuedIn c (early history) <+: queuedIn c history :=
  ((early_isPrefix history).filterMap _).filter _

/-- The packets that the attendant took from the queue to send them before it leaves. -/
def Stage.leftover? : Stage → Option (List Outgoing)
  | flushing _ remaining => some remaining
  | ended => some []
  | _ => none

namespace Traffic

def leftover? (t : Traffic) : Option (List Outgoing) :=
  t.attendants.head?.bind (·.stage.leftover?)

structure Promised (t : Traffic) : Prop where
  authorized : t.authorized = true
  no_fault : t.closeReason ≠ some .transportFault
  no_failure : ∀ e ∈ t.history, e.isFailure = false

structure Owed (t : Traffic) (c : Category) (remaining : List Outgoing) : Prop where
  in_order : firstSentIn c t.history ++ firstsIn c remaining <+: queuedIn c t.history
  complete : t.Promised →
    queuedIn c (early t.history) <+: firstSentIn c t.history ++ firstsIn c remaining

structure Outbound (t : Traffic) : Prop where
  lanes : ∀ c, ∀ o ∈ t.outgoing.get c, o.category = c
  waiting : t.leftover? = none → ∀ c,
    firstSentIn c t.history ++ firstsIn c (t.outgoing.get c) = queuedIn c t.history
  owed : ∀ remaining, t.leftover? = some remaining → ∀ c, t.Owed c remaining

variable {plain : Prop} {now : Nat} {t u : Traffic}

theorem leftover_of_stage {i : AttendantId} {stage : Stage} (hl : t.attendants.length ≤ 1)
    (hs : t.stage? i = some stage) : t.leftover? = stage.leftover? := by
  obtain ⟨-, a, hat, rfl⟩ := sole hl hs
  simp [leftover?, hat]

theorem leftover_withRemaining {i : AttendantId} {stage : Stage} (joined : Bool)
    (remaining : List Outgoing) (hl : t.attendants.length ≤ 1) (hs : t.stage? i = some stage) :
    (t.withRemaining i joined remaining).leftover? = some remaining := by
  obtain ⟨rfl, a, hat, -⟩ := sole hl hs
  by_cases hr : remaining = []
  · simp [leftover?, withRemaining, hat, hr, Stage.leftover?]
  · simp [leftover?, withRemaining, hat, hr, Stage.leftover?]

theorem leftover_attend {i : AttendantId} {f : Attendant → Attendant}
    (h : ∀ a, t.attendants[i]? = some a → (f a).stage.leftover? = a.stage.leftover?) :
    (t.attend i f).leftover? = t.leftover? := by
  unfold leftover? attend
  cases hat : t.attendants with
  | nil => simp
  | cons a rest =>
    cases i with
    | zero => simpa using h a (by simp [hat])
    | succ i => simp

theorem leftover_moved {i : AttendantId} {f : Attendant → Attendant} {stage : Stage}
    (hs : t.stage? i = some stage) (hf : ∀ a, (f a).stage.leftover? = stage.leftover?) :
    (t.attend i f).leftover? = t.leftover? := by
  refine leftover_attend ?_
  intro a ha
  have hstage : a.stage = stage := by simpa [stage?, ha] using hs
  rw [hf, hstage]

/-- Once the queue of an authorized circuit was collected, somebody wanted it closed. -/
theorem Lifecycle.called_of_leftover {remaining : List Outgoing} (ht : t.Lifecycle)
    (hr : t.leftover? = some remaining) (ha : t.authorized = true) : t.CloseCalled := by
  obtain ⟨a, hhead, hstage⟩ := Option.bind_eq_some_iff.1 hr
  have told := ht.tells a (List.mem_of_mem_head? hhead)
  cases hs : a.stage with
  | flushing joined rest =>
    rw [hs] at told
    exact told.2.1
  | ended =>
    rw [hs] at told
    exact told.2 ha
  | _ => simp [hs, Stage.leftover?] at hstage

theorem Orderly.ending_of_leftover (ht : t.Orderly) (h : t.leftover? ≠ none) :
    t.phase.isEnding = true := by
  obtain ⟨remaining, hr⟩ := Option.ne_none_iff_exists'.1 h
  obtain ⟨a, hhead, hstage⟩ := Option.bind_eq_some_iff.1 hr
  rw [← ht.closed_eq]
  refine ht.closed_of_leaving a (List.mem_of_mem_head? hhead) ?_
  cases hs : a.stage <;> simp_all [Stage.leftover?, Stage.isLeaving]

theorem Owed.mono {remaining : List Outgoing} (ht : t.Owed c remaining)
    (hh : u.history = t.history ++ l) (hl : ∀ e ∈ l, e.firstSent? = none)
    (he : u.Promised → queuedIn c (early u.history) = queuedIn c (early t.history))
    (hp : u.Promised → t.Promised) : u.Owed c remaining := by
  have hsent : firstSentIn c u.history = firstSentIn c t.history := by
    rw [hh, firstSentIn_append, firstSentIn_nothing hl, List.append_nil]
  constructor
  · rw [hsent, hh, queuedIn_append]
    exact ht.in_order.trans (List.prefix_append _ _)
  · intro h
    rw [hsent, he h]
    exact ht.complete (hp h)

/-- Steps that neither queue nor send. -/
theorem Outbound.spared (ht : t.Outbound) (hh : u.history = t.history ++ l)
    (hl : ∀ e ∈ l, e.queued? = none ∧ e.firstSent? = none) (ho : u.outgoing = t.outgoing)
    (hf : u.leftover? = t.leftover?) (hp : t.leftover? ≠ none → u.Promised → t.Promised) :
    u.Outbound := by
  have hqueued : ∀ e ∈ l, e.queued? = none := fun e he => (hl e he).1
  have hsent : ∀ e ∈ l, e.firstSent? = none := fun e he => (hl e he).2
  constructor
  · rw [ho]
    exact ht.lanes
  · intro hn c
    rw [hh, ho, firstSentIn_append, queuedIn_append, firstSentIn_nothing hsent,
      queuedIn_nothing hqueued, List.append_nil, List.append_nil]
    exact ht.waiting (hf.symm.trans hn) c
  · intro remaining hr c
    have hsome : t.leftover? = some remaining := hf.symm.trans hr
    refine (ht.owed remaining hsome c).mono hh hsent (fun _ => ?_) (hp (by simp [hsome]))
    rw [hh, queuedIn_early_append hqueued]

theorem firstsIn_push (o : Outgoing) (t : Traffic) :
    firstsIn c ((t.push o).outgoing.get c) = firstsIn c (t.outgoing.get c) ++ firstsIn c [o] := by
  by_cases hc : c = o.category
  · subst hc
    rw [push, PerCategory.get_set_self, firstsIn_append]
  · rw [push, PerCategory.get_set_of_ne _ hc, firstsIn_other (Ne.symm hc), List.append_nil]

theorem mem_push {o p : Outgoing} (h : p ∈ (t.push o).outgoing.get c) :
    p ∈ t.outgoing.get c ∨ p = o ∧ o.category = c := by
  by_cases hc : c = o.category
  · subst hc
    rw [push, PerCategory.get_set_self] at h
    exact (List.mem_append.1 h).imp_right fun h => ⟨List.mem_singleton.1 h, rfl⟩
  · rw [push, PerCategory.get_set_of_ne _ hc] at h
    exact .inl h

theorem lanes_push {o : Outgoing} (h : ∀ c, ∀ o ∈ t.outgoing.get c, o.category = c) :
    ∀ c, ∀ p ∈ (t.push o).outgoing.get c, p.category = c := by
  intro c p hp
  rcases mem_push hp with hp | ⟨rfl, hc⟩
  · exact h c p hp
  · exact hc

theorem Promised.mono (h : u.Promised) (ha : u.authorized = t.authorized)
    (hr : u.closeReason = t.closeReason) (hh : u.history = t.history ++ l) : t.Promised := by
  refine ⟨ha ▸ h.authorized, hr ▸ h.no_fault, ?_⟩
  intro e he
  exact h.no_failure e (hh ▸ List.mem_append_left l he)

theorem Outbound.queue {o : Outgoing} (ht : t.Outbound)
    (hc : ∀ remaining, t.leftover? = some remaining → t.authorized = true → t.CloseCalled)
    (hd : o.delivery ≠ .resend) : ((t.push o).log (.queued o)).Outbound := by
  refine ⟨lanes_push ht.lanes, ?_, ?_⟩
  · intro hn c
    have hold := ht.waiting hn c
    show firstSentIn c (t.history ++ [.queued o]) ++ firstsIn c ((t.push o).outgoing.get c) =
      queuedIn c (t.history ++ [.queued o])
    rw [firstSentIn_append, firstSentIn_nothing (l := [.queued o]) (by simp [Effect.firstSent?]),
      List.append_nil, firstsIn_push, ← List.append_assoc, hold, queuedIn_append,
      queuedIn_queued hd]
  · intro remaining hr c
    refine (ht.owed remaining hr c).mono (l := [.queued o]) rfl (by simp [Effect.firstSent?]) ?_
      fun h => h.mono rfl rfl rfl
    intro h
    have hcalled : t.CloseCalled := hc remaining hr h.authorized
    show queuedIn c (early (t.history ++ [.queued o])) = _
    rw [early_called hcalled]

theorem Outbound.requeue {o : Outgoing} (ht : t.Outbound) (hd : o.delivery = .resend) :
    ((t.push o).log (.requeued o)).Outbound := by
  have hl : ∀ e ∈ [Effect.requeued o], e.queued? = none ∧ e.firstSent? = none := by
    simp [Effect.queued?, Effect.firstSent?]
  refine ⟨lanes_push ht.lanes, ?_, ?_⟩
  · intro hn c
    have hold := ht.waiting hn c
    show firstSentIn c (t.history ++ [.requeued o]) ++ firstsIn c ((t.push o).outgoing.get c) =
      queuedIn c (t.history ++ [.requeued o])
    rw [firstSentIn_append, queuedIn_append, firstSentIn_nothing fun e he => (hl e he).2,
      queuedIn_nothing fun e he => (hl e he).1, firstsIn_push, firstsIn_resend hd]
    simpa using hold
  · intro remaining hr c
    refine (ht.owed remaining hr c).mono (l := [.requeued o]) rfl (fun e he => (hl e he).2) ?_
      fun h => h.mono rfl rfl rfl
    intro _
    exact queuedIn_early_append fun e he => (hl e he).1

theorem Outbound.release {k : Category} {o : Outgoing} {rest : List Outgoing} {room : Nat}
    {destination : Address} {linkUp : Bool} (ht : t.Outbound) (hn : t.leftover? = none)
    (ho : t.outgoing.get k = o :: rest) :
    ({ t with outgoing := t.outgoing.set k rest }.transmit now room destination linkUp
      o).Outbound := by
  have hlane : o.category = k := ht.lanes k o (ho ▸ List.mem_cons_self)
  constructor
  · intro c p (hp : p ∈ (t.outgoing.set k rest).get c)
    by_cases hc : c = k
    · subst hc
      rw [PerCategory.get_set_self] at hp
      exact ht.lanes c p (ho ▸ List.mem_cons_of_mem o hp)
    · rw [PerCategory.get_set_of_ne _ hc] at hp
      exact ht.lanes c p hp
  · intro _ c
    have hold := ht.waiting hn c
    have hsplit : firstsIn c [o] ++ firstsIn c ((t.outgoing.set k rest).get c) =
        firstsIn c (t.outgoing.get c) := by
      by_cases hc : c = k
      · subst hc
        rw [PerCategory.get_set_self, ← firstsIn_append, ho, List.singleton_append]
      · rw [PerCategory.get_set_of_ne _ hc, firstsIn_other (hlane ▸ Ne.symm hc), List.nil_append]
    show firstSentIn c (t.history ++ [.transmitted destination _ o linkUp]) ++
      firstsIn c ((t.outgoing.set k rest).get c) =
        queuedIn c (t.history ++ [.transmitted destination _ o linkUp])
    rw [firstSentIn_append, firstSentIn_transmitted, List.append_assoc, hsplit, hold,
      queuedIn_append, queuedIn_nothing (l := [_]) (by simp [Effect.queued?]), List.append_nil]
  · intro remaining hr
    exact absurd (hn.symm.trans hr) (by simp)

/-- A failure to send breaks every promise, so the rest may be given up. -/
theorem Owed.flush {o : Outgoing} {rest : List Outgoing} {room : Nat} {destination : Address}
    {linkUp : Bool} {i : AttendantId} {joined : Bool} (ht : t.Owed c (o :: rest)) :
    ((t.transmit now room destination linkUp o).withRemaining i joined
      (if linkUp then rest else [])).Owed c (if linkUp then rest else []) := by
  obtain ⟨datagram, hd⟩ : ∃ datagram,
      (t.transmit now room destination linkUp o).history =
        t.history ++ [.transmitted destination datagram o linkUp] := ⟨_, rfl⟩
  have hh : ((t.transmit now room destination linkUp o).withRemaining i joined
      (if linkUp then rest else [])).history =
        t.history ++ [.transmitted destination datagram o linkUp] := hd
  have hsent : firstSentIn c (t.history ++ [.transmitted destination datagram o linkUp]) =
      firstSentIn c t.history ++ firstsIn c [o] := by
    rw [firstSentIn_append, firstSentIn_transmitted]
  have hone : ∀ e ∈ [Effect.transmitted destination datagram o linkUp], e.queued? = none := by
    simp [Effect.queued?]
  have hall : firstSentIn c t.history ++ firstsIn c (o :: rest) =
      firstSentIn c t.history ++ firstsIn c [o] ++ firstsIn c rest := by
    rw [List.append_assoc, ← firstsIn_append, List.singleton_append]
  have horder := ht.in_order
  rw [hall] at horder
  constructor
  · rw [hh, hsent, queuedIn_append, queuedIn_nothing hone, List.append_nil]
    cases linkUp with
    | true => exact horder
    | false => exact (List.prefix_append _ _).trans (by simpa [firstsIn] using horder)
  · intro h
    have hup : linkUp = true := by
      have := h.no_failure _ (hh ▸ List.mem_append_right _ (List.mem_singleton_self _))
      simpa [Effect.isFailure] using this
    have hearly := ht.complete (h.mono rfl rfl hh)
    rw [hall] at hearly
    rw [hh, hsent, queuedIn_early_append hone, hup]
    exact hearly

theorem firstsIn_flatten {outgoing : PerCategory (List Outgoing)}
    (h : ∀ c, ∀ o ∈ outgoing.get c, o.category = c) :
    firstsIn c outgoing.toList.flatten = firstsIn c (outgoing.get c) := by
  have own : ∀ os, firstsIn c (os.filter (·.category = c)) = firstsIn c os := by
    intro os
    rw [firstsIn, List.filter_filter]
    apply List.filter_congr
    intro o _
    by_cases ho : o.category = c <;> simp [ho]
  rw [← own, PerCategory.filter_flatten h]

theorem Outbound.collect {i : AttendantId} {joined : Bool} (ht : t.Outbound)
    (hl : t.attendants.length ≤ 1) (hs : t.stage? i = some (.finishing joined)) :
    ({ t with incoming := [], outgoing := .all [] }.withRemaining i joined
      (if t.closeReason = some CloseReason.transportFault then []
        else t.outgoing.toList.flatten)).Outbound := by
  have hnew : ∀ remaining, ({ t with incoming := [], outgoing := .all [] }.withRemaining i joined
      remaining).leftover? = some remaining := fun _ =>
    leftover_withRemaining (t := { t with incoming := [], outgoing := .all [] }) _ _ hl hs
  have hold := ht.waiting ((leftover_of_stage hl hs).trans rfl)
  constructor
  · intro c o (ho : o ∈ PerCategory.get (.all []) c)
    rw [PerCategory.get_all] at ho
    cases ho
  · intro hn
    exact absurd ((hnew _).symm.trans hn) (by simp)
  · intro remaining hr c
    obtain rfl := Option.some.inj ((hnew _).symm.trans hr)
    by_cases hf : t.closeReason = some .transportFault
    · rw [if_pos hf]
      refine ⟨?_, fun h => absurd hf h.no_fault⟩
      show firstSentIn c t.history ++ [] <+: queuedIn c t.history
      rw [List.append_nil, ← hold c]
      exact List.prefix_append _ _
    · rw [if_neg hf]
      have hall : firstSentIn c t.history ++ firstsIn c t.outgoing.toList.flatten =
          queuedIn c t.history := by
        rw [firstsIn_flatten ht.lanes, hold c]
      refine ⟨hall ▸ List.prefix_rfl, fun _ => ?_⟩
      show queuedIn c (early t.history) <+:
        firstSentIn c t.history ++ firstsIn c t.outgoing.toList.flatten
      rw [hall]
      exact queuedIn_early_isPrefix

theorem Outbound.refuse {i : AttendantId} (ht : t.Outbound) (hlife : t.Lifecycle)
    (hl : t.attendants.length ≤ 1) (hs : t.stage? i = some .authenticating)
    (reason : Option CloseReason) :
    ({ t with phase := .closed, closeReason := reason, closed := true }.attend i
      ({ · with stage := .ended })).Outbound := by
  obtain ⟨rfl, a, hat, -, hrefused, -⟩ := hlife.only hl hs
  have hnew : ({ t with phase := .closed, closeReason := reason, closed := true }.attend 0
      ({ · with stage := .ended })).leftover? = some [] := by
    simp [leftover?, attend, hat, Stage.leftover?]
  have hold := ht.waiting ((leftover_of_stage hl hs).trans rfl)
  refine ⟨ht.lanes, ?_, ?_⟩
  · intro hn
    exact absurd (hnew.symm.trans hn) (by simp)
  · intro remaining hr c
    obtain rfl := Option.some.inj (hnew.symm.trans hr)
    refine ⟨?_, fun h => absurd (hrefused.symm.trans h.authorized) Bool.noConfusion⟩
    show firstSentIn c t.history ++ [] <+: queuedIn c t.history
    rw [List.append_nil, ← hold c]
    exact List.prefix_append _ _

theorem Outbound.flush {i : AttendantId} {joined : Bool} {o : Outgoing} {rest : List Outgoing}
    {room : Nat} {destination : Address} {linkUp : Bool} (ht : t.Outbound)
    (hl : t.attendants.length ≤ 1) (hs : t.stage? i = some (.flushing joined (o :: rest))) :
    ((t.transmit now room destination linkUp o).withRemaining i joined
      (if linkUp then rest else [])).Outbound := by
  have hnew : ((t.transmit now room destination linkUp o).withRemaining i joined
      (if linkUp then rest else [])).leftover? = some (if linkUp then rest else []) :=
    leftover_withRemaining (t := t.transmit now room destination linkUp o) _ _ hl hs
  refine ⟨ht.lanes, ?_, ?_⟩
  · intro hn
    exact absurd (hnew.symm.trans hn) (by simp)
  · intro remaining hr c
    obtain rfl := Option.some.inj (hnew.symm.trans hr)
    exact (ht.owed _ ((leftover_of_stage hl hs).trans rfl) c).flush

/-- The attendant moved on, and holds what it held before. -/
theorem Outbound.moved {i : AttendantId} {f : Attendant → Attendant} {stage : Stage}
    (ht : t.Outbound) (hl : t.attendants.length ≤ 1) (hs : t.stage? i = some stage)
    (hu : u.attendants = t.attendants) (hf : ∀ a, (f a).stage.leftover? = stage.leftover?)
    (ho : u.outgoing = t.outgoing) (hr : u.closeReason = t.closeReason)
    (hh : u.history = t.history)
    (ha : stage.leftover? ≠ none → u.authorized = t.authorized) : (u.attend i f).Outbound := by
  have hstage : u.stage? i = some stage := by rw [stage?, hu, ← stage?, hs]
  have hsame : (u.attend i f).leftover? = t.leftover? := by
    rw [leftover_moved hstage hf, leftover?, hu, leftover?]
  have hkept : (u.attend i f).history = t.history ++ [] := by rw [List.append_nil, ← hh]; rfl
  refine ht.spared hkept (by simp) ho hsame fun hsome h => h.mono ?_ hr hkept
  exact ha (leftover_of_stage hl hs ▸ hsome)

/-- The effects of a processed packet, on its acks and its fate. -/
theorem history_process_spec (now : Nat) (p : Packet) (t : Traffic) :
    ∃ l, ((t.acknowledge now p).decide now p).history = t.history ++ l ∧ ∀ e ∈ l,
      e = .processed p now ∨ e = .owes p.sequence ∨ e = .dropped p now ∨ e = .dispatched p now := by
  refine ⟨_, history_process now p t, ?_⟩
  intro e he
  have hcases : e = .processed p now ∨ (t.ackState.arrive p).1 = true ∧ e = .owes p.sequence ∨
      e = if (t.duplicates.seen p.sequence p.kind now).1 then .dropped p now
        else .dispatched p now := by simpa using he
  rcases hcases with h | ⟨-, h⟩ | h
  · exact .inl h
  · exact .inr (.inl h)
  · split at h
    · exact .inr (.inr (.inl h))
    · exact .inr (.inr (.inr h))

theorem Step.outbound (h : Step plain now t u) (ht : t.Outbound) (hlife : t.Lifecycle)
    (hl : t.attendants.length ≤ 1) : u.Outbound := by
  have quiet : t.history = t.history ++ [] := (List.append_nil _).symm
  cases h with
  | note he =>
    refine ht.spared (l := [_]) rfl ?_ rfl rfl fun _ h => h.mono rfl rfl rfl
    rename_i e
    cases e <;> simp_all [Effect.isNote, Effect.queued?, Effect.firstSent?]
  | queue hp hd ho => exact ht.queue (fun _ => hlife.called_of_leftover) hd
  | queueAcks hp hd hk hb ho =>
    refine Outbound.queue (t := { t with ackState.owed := _ }) ?_
      (fun _ => hlife.called_of_leftover) (by simp [hd])
    exact ht.spared quiet (by simp) rfl rfl fun _ h => h.mono rfl rfl quiet
  | requeue hd hk => exact ht.requeue hd
  | loseAcks | refresh | sweep =>
    exact ht.spared quiet (by simp) rfl rfl fun _ h => h.mono rfl rfl quiet
  | turnAway | receive =>
    refine ht.spared (l := [_]) rfl ?_ rfl rfl fun _ h => h.mono rfl rfl rfl
    simp [Effect.queued?, Effect.firstSent?]
  | process hs hc hi =>
    obtain ⟨l, hh, hown⟩ := history_process_spec now _ { t with incoming := _ }
    refine ht.spared hh ?_ rfl rfl fun _ h => h.mono rfl rfl hh
    intro e he
    rcases hown e he with rfl | rfl | rfl | rfl <;> exact ⟨rfl, rfl⟩
  | release hs hc ho => exact ht.release ((leftover_of_stage hl hs).trans rfl) ho
  | flush hs => exact ht.flush hl hs
  | close =>
    refine ht.spared (l := [_]) rfl (by simp [Effect.queued?, Effect.firstSent?]) rfl rfl ?_
    intro hsome h
    have hending := hlife.orderly.ending_of_leftover hsome
    exact h.mono rfl (by simp [log, hending]) rfl
  | authorize hs | authorizeLate hs =>
    exact ht.moved (u := { t with authorized := true }) hl hs rfl (fun _ => rfl) rfl rfl rfl
      (absurd rfl)
  | refuse hs => exact ht.refuse hlife hl hs _
  | join hs =>
    exact ht.moved (u := { t with phase := _ }) hl hs rfl (fun _ => rfl) rfl rfl rfl (absurd rfl)
  | poison hs => exact ht.moved hl hs rfl (fun _ => rfl) rfl rfl rfl (absurd rfl)
  | collect hs => exact ht.collect hl hs
  | leave hs =>
    exact ht.moved (u := { t with phase := _ }) hl hs rfl (fun _ => rfl) rfl rfl rfl fun _ => rfl
  | stopAckTimer | stopProbeTimer =>
    exact ht.spared quiet (by simp) rfl (leftover_attend fun _ _ => rfl) fun _ h =>
      h.mono rfl rfl quiet

end Traffic
end ViewerCircuit
