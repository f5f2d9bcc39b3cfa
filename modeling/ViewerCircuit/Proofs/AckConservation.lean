import ViewerCircuit.Proofs.Delivery
import ViewerCircuit.Proofs.UnsentPackets

/-!
# Conservation of acks

If callers leave the acks to the circuit, every ack that the viewer is owed goes on the wire once:
it waits, then it is appended to a datagram or put in a packet of its own, and such packets are sent
like all others. Retransmissions carry none.
-/
namespace ViewerCircuit

open scoped List

namespace Effect

def owes? : Effect → Option UInt32
  | owes sequence => some sequence
  | _ => none

def appendedAcks : Effect → List UInt32
  | transmitted _ datagram _ _ => Datagram.appended datagram
  | _ => []

def bodyAcks : Effect → List UInt32
  | transmitted _ datagram o _ => { o with bytes := datagram }.standaloneAcks
  | _ => []

end Effect

variable {history l : List Effect}

def owedIn (history : List Effect) : List UInt32 := history.filterMap Effect.owes?

def appendedIn (history : List Effect) : List UInt32 := history.flatMap Effect.appendedAcks

def bodiesIn (history : List Effect) : List UInt32 := history.flatMap Effect.bodyAcks

namespace Traffic

variable {plain : Prop} {now : Nat} {t u : Traffic}

def unsentAcks (t : Traffic) : List UInt32 := t.unsent.flatMap Outgoing.standaloneAcks

structure GaveUp (t : Traffic) : Prop where
  authorized : t.authorized = true
  fault : t.closeReason = some .transportFault
  collected : t.leftover? ≠ none

structure Intact (t : Traffic) : Prop where
  no_failure : ∀ e ∈ t.history, e.isFailure = false
  kept : ¬ t.GaveUp

theorem Step.gaveUp (h : Step plain now t u) (hlife : t.Lifecycle) (hl : t.attendants.length ≤ 1)
    (ht : t.GaveUp) : u.GaveUp := by
  obtain ⟨ha, hr, hf⟩ := ht
  cases h with
  | close =>
    have hending := hlife.orderly.ending_of_leftover hf
    exact ⟨ha, by simp [log, hending, hr], hf⟩
  | flush hs =>
    exact ⟨ha, hr, (leftover_withRemaining (t := t.transmit _ _ _ _ _) _ _ hl hs).trans_ne
      (Option.some_ne_none _)⟩
  | leave hs =>
    exact ⟨ha, hr, (leftover_moved (t := { t with phase := _ }) hs fun _ => rfl).trans_ne hf⟩
  | stopAckTimer | stopProbeTimer =>
    refine ⟨ha, hr, Eq.trans_ne ?_ hf⟩
    exact leftover_attend fun _ _ => rfl
  | authorize hs | authorizeLate hs | refuse hs | join hs | poison hs | collect hs =>
    exact absurd (leftover_of_stage hl hs) hf
  | _ => exact ⟨ha, hr, hf⟩

theorem Step.intact (h : Step plain now t u) (hlife : t.Lifecycle) (hl : t.attendants.length ≤ 1)
    (hu : u.Intact) : t.Intact :=
  ⟨fun e he => hu.no_failure e (h.history_isPrefix.subset he),
    fun ht => hu.kept (h.gaveUp hlife hl ht)⟩

structure Conserving (t : Traffic) : Prop where
  resent : ∀ destination datagram o delivered,
    Effect.transmitted destination datagram o delivered ∈ t.history → o.delivery = .resend →
      Datagram.appended datagram = []
  balanced : t.Intact → owedIn t.history ~
    appendedIn t.history ++ bodiesIn t.history ++ t.unsentAcks ++ t.ackState.owed.waiting

theorem unsentAcks_of_perm {o : Outgoing} (h : t.unsent ~ o :: u.unsent) :
    t.unsentAcks ~ o.standaloneAcks ++ u.unsentAcks := by
  have hflat := h.flatMap_right Outgoing.standaloneAcks
  rwa [List.flatMap_cons] at hflat

/-- Steps that send nothing only move acks between those that wait and the packets. -/
theorem Conserving.quiet (ht : t.Conserving) (hh : u.history = t.history ++ l)
    (hl : ∀ e ∈ l, e.owes? = none ∧ e.isTransmission = false) (hi : u.Intact → t.Intact)
    (hb : u.Intact → t.unsentAcks ++ t.ackState.owed.waiting ~
      u.unsentAcks ++ u.ackState.owed.waiting) : u.Conserving := by
  have hnone : ∀ e ∈ l, e.appendedAcks = [] ∧ e.bodyAcks = [] := by
    intro e he
    have hquiet := (hl e he).2
    cases e with
    | transmitted => cases hquiet
    | _ => exact ⟨rfl, rfl⟩
  have howed : owedIn u.history = owedIn t.history := by
    rw [hh, owedIn, List.filterMap_append, List.filterMap_eq_nil_iff.2 fun e he => (hl e he).1,
      List.append_nil, owedIn]
  have happended : appendedIn u.history = appendedIn t.history := by
    rw [hh, appendedIn, List.flatMap_append, List.flatMap_eq_nil_iff.2 fun e he => (hnone e he).1,
      List.append_nil, appendedIn]
  have hbodies : bodiesIn u.history = bodiesIn t.history := by
    rw [hh, bodiesIn, List.flatMap_append, List.flatMap_eq_nil_iff.2 fun e he => (hnone e he).2,
      List.append_nil, bodiesIn]
  constructor
  · intro destination datagram o delivered hm
    rw [hh] at hm
    rcases List.mem_append.1 hm with hm | hm
    · exact ht.resent destination datagram o delivered hm
    · exact absurd (hl _ hm).2 Bool.noConfusion
  · intro h
    rw [howed, happended, hbodies, List.append_assoc]
    refine (ht.balanced (hi h)).trans ?_
    rw [List.append_assoc]
    exact (hb h).append_left _

theorem standaloneAcks_depart (now room : Nat) (o : Outgoing) (a : AckState) :
    { o with bytes := (a.depart now room o).1 }.standaloneAcks = o.standaloneAcks := by
  by_cases hk : o.kind = .packetAck
  · rw [AckState.depart_alone now room (.inr hk)]
  · simp [Outgoing.standaloneAcks, hk]

/-- A packet that is sent brings the acks in its body, and those that it takes along. -/
theorem Conserving.sent {o : Outgoing} {room : Nat} {destination : Address} {linkUp : Bool}
    (ht : t.Conserving) (ho : o.Loadable) (hm : t.ackState.owed.maxAppended ≤ 255)
    (hh : u.history = t.history ++
      [.transmitted destination (t.ackState.depart now room o).1 o linkUp])
    (ha : u.ackState = (t.ackState.depart now room o).2) (hi : u.Intact → t.Intact)
    (hp : u.Intact → t.unsent ~ o :: u.unsent) : u.Conserving := by
  constructor
  · intro destination datagram p delivered hmem hd
    rw [hh] at hmem
    rcases List.mem_append.1 hmem with hmem | hmem
    · exact ht.resent destination datagram p delivered hmem hd
    · cases List.mem_singleton.1 hmem
      rw [AckState.depart_alone now room (.inl hd)]
      exact Datagram.appended_bare ho.bare
  · intro h
    have hold := ht.balanced (hi h)
    have hunsent := unsentAcks_of_perm (hp h)
    have hwaiting := AckState.depart_waiting now room ho.bare hm
    have happended : appendedIn u.history =
        appendedIn t.history ++ Datagram.appended (t.ackState.depart now room o).1 := by
      simp [hh, appendedIn, Effect.appendedAcks]
    have hbodies : bodiesIn u.history = bodiesIn t.history ++ o.standaloneAcks := by
      simp only [hh, bodiesIn, List.flatMap_append, List.flatMap_cons, List.flatMap_nil,
        Effect.bodyAcks, standaloneAcks_depart, List.append_nil]
    have howed : owedIn u.history = owedIn t.history := by
      simp [hh, owedIn, Effect.owes?]
    rw [howed, happended, hbodies, ha]
    refine hold.trans (List.perm_iff_count.2 fun a => ?_)
    have hcount := hunsent.count_eq a
    rw [← hwaiting]
    simp only [List.count_append] at hcount ⊢
    omega

theorem unsentAcks_push (o : Outgoing) (t : Traffic) :
    (t.push o).unsentAcks ~ o.standaloneAcks ++ t.unsentAcks :=
  unsentAcks_of_perm (unsent_push o t)

theorem standaloneAcks_other {o : Outgoing} (h : o.kind ≠ .packetAck) : o.standaloneAcks = [] :=
  if_neg h

/-- A packet without acks in it is queued. -/
theorem Conserving.pushed {o : Outgoing} {e : Effect} (ht : t.Conserving)
    (hk : o.kind ≠ .packetAck) (he : e.owes? = none ∧ e.isTransmission = false)
    (hi : ((t.push o).log e).Intact → t.Intact) : ((t.push o).log e).Conserving := by
  refine ht.quiet (l := [e]) rfl (by simpa using he) hi ?_
  intro _
  have hpush := unsentAcks_push o t
  rw [standaloneAcks_other hk, List.nil_append] at hpush
  exact hpush.symm.append_right _

/-- A closed circuit has no timer and no attendant left that could take acks and lose them. -/
theorem Lifecycle.keeps_acks {a : Attendant} (ht : t.Lifecycle) (hp : t.phase = .closed)
    (ha : a ∈ t.attendants) :
    ¬ (a.ackTimer = .running ∨ ∃ joined, a.stage = .finishing joined) := by
  have hended := ht.ended hp a ha
  have told := ht.tells a ha
  rw [hended] at told
  rintro (hr | ⟨joined, hs⟩)
  · exact told.1 hr
  · exact Stage.noConfusion (hended.symm.trans hs)

/-- Owed acks leave the ones that wait for a packet of their own. -/
theorem Conserving.queueAcks {o : Outgoing} {max : Nat} (ht : t.Conserving)
    (ho : o.standaloneAcks = (t.ackState.owed.take max).1)
    (hi : (({ t with ackState.owed := (t.ackState.owed.take max).2 }.push o).log
      (.queued o)).Intact → t.Intact) :
    (({ t with ackState.owed := (t.ackState.owed.take max).2 }.push o).log
      (.queued o)).Conserving := by
  refine ht.quiet (l := [.queued o]) rfl (by simp [Effect.owes?, Effect.isTransmission]) hi
    fun _ => ?_
  have hpush := unsentAcks_push o { t with ackState.owed := (t.ackState.owed.take max).2 }
  have hwaiting : (t.ackState.owed.take max).1 ++ (t.ackState.owed.take max).2.waiting =
      t.ackState.owed.waiting := OwedAcks.take_waiting max
  rw [ho] at hpush
  rw [← hwaiting, ← List.append_assoc]
  exact (List.perm_append_comm.trans hpush.symm).append_right _

theorem Conserving.flush {i : AttendantId} {joined : Bool} {o : Outgoing} {rest : List Outgoing}
    {room : Nat} {destination : Address} {linkUp : Bool} (ht : t.Conserving) (hs : t.Stocked)
    (hl : t.attendants.length ≤ 1) (hstage : t.stage? i = some (.flushing joined (o :: rest)))
    (hi : ((t.transmit now room destination linkUp o).withRemaining i joined
      (if linkUp then rest else [])).Intact → t.Intact) :
    ((t.transmit now room destination linkUp o).withRemaining i joined
      (if linkUp then rest else [])).Conserving := by
  have hold := unsent_flushing hl hstage
  refine ht.sent (hs.unsent o (hold ▸ List.mem_cons_self)) hs.appended_le
    rfl rfl hi fun h => ?_
  have hup : linkUp = true := by
    have := h.no_failure (.transmitted destination _ o linkUp)
      (List.mem_append_right _ (List.mem_singleton_self _))
    simpa [Effect.isFailure] using this
  rw [hold, unsent_flush hl hstage, if_pos hup]
  exact .rfl

/-- What waits in the queue is given up only after a fault of the transport. -/
theorem Conserving.collect {i : AttendantId} {joined : Bool} (ht : t.Conserving)
    (hlife : t.Lifecycle) (hl : t.attendants.length ≤ 1)
    (hstage : t.stage? i = some (.finishing joined))
    (hi : ({ t with incoming := [], outgoing := .all [] }.withRemaining i joined
      (if t.closeReason = some CloseReason.transportFault then []
        else t.outgoing.toList.flatten)).Intact → t.Intact) :
    ({ t with incoming := [], outgoing := .all [] }.withRemaining i joined
      (if t.closeReason = some CloseReason.transportFault then []
        else t.outgoing.toList.flatten)).Conserving := by
  refine ht.quiet (l := []) (List.append_nil _).symm (by simp) hi ?_
  intro h
  have hnew := unsent_collect joined (if t.closeReason = some CloseReason.transportFault then []
    else t.outgoing.toList.flatten) hl hstage
  have hfault : t.closeReason ≠ some .transportFault := by
    intro hr
    obtain ⟨-, a, -, -, hauthorized, -⟩ := hlife.only hl hstage
    refine h.kept ⟨hauthorized, hr, ?_⟩
    exact (leftover_withRemaining (t := { t with incoming := [], outgoing := .all [] }) _ _ hl
      hstage).trans_ne (Option.some_ne_none _)
  have hsame : t.unsent = t.outgoing.toList.flatten := by
    rw [unsent, leftover_of_stage hl hstage]
    rfl
  rw [unsentAcks, unsentAcks, hnew, if_neg hfault, hsame]
  exact .rfl

theorem Conserving.moved (ht : t.Conserving) (hh : u.history = t.history)
    (hu : u.unsent = t.unsent) (ha : u.ackState = t.ackState) (hi : u.Intact → t.Intact) :
    u.Conserving := by
  refine ht.quiet (l := []) (by rw [hh, List.append_nil]) (by simp) hi ?_
  intro _
  rw [unsentAcks, unsentAcks, hu, ha]

theorem Conserving.process {p : Packet} {rest : List Packet} (ht : t.Conserving)
    (hi : ((({ t with incoming := rest }).acknowledge now p).decide now p).Intact → t.Intact) :
    ((({ t with incoming := rest }).acknowledge now p).decide now p).Conserving := by
  obtain ⟨seen, hseen⟩ : ∃ seen, (t.duplicates.seen p.sequence p.kind now).1 = seen := ⟨_, rfl⟩
  obtain ⟨owes, howes⟩ : ∃ owes, (t.ackState.arrive p).1 = owes := ⟨_, rfl⟩
  obtain ⟨u, hu⟩ : ∃ u, (({ t with incoming := rest }).acknowledge now p).decide now p = u :=
    ⟨_, rfl⟩
  have hh : u.history = t.history ++ (.processed p now ::
      (if owes then [.owes p.sequence] else []) ++
        [if seen then .dropped p now else .dispatched p now]) := by
    rw [← hu, ← hseen, ← howes]
    exact history_process now p { t with incoming := rest }
  have howed : owedIn u.history = owedIn t.history ++ if owes then [p.sequence] else [] := by
    rw [owedIn, hh]
    cases seen <;> cases owes <;> simp [owedIn, List.filterMap_cons, Effect.owes?]
  have happended : appendedIn u.history = appendedIn t.history := by
    rw [appendedIn, hh]
    cases seen <;> cases owes <;> simp [appendedIn, Effect.appendedAcks]
  have hbodies : bodiesIn u.history = bodiesIn t.history := by
    rw [bodiesIn, hh]
    cases seen <;> cases owes <;> simp [bodiesIn, Effect.bodyAcks]
  have hwaiting : u.ackState.owed.waiting =
      t.ackState.owed.waiting ++ if owes then [p.sequence] else [] := by
    rw [← hu, ← howes]
    exact AckState.arrive_waiting p
  have hunsent : u.unsentAcks = t.unsentAcks := by rw [← hu]; rfl
  rw [hu] at hi ⊢
  constructor
  · intro destination datagram o delivered hm
    refine ht.resent destination datagram o delivered ?_
    rw [hh] at hm
    cases seen <;> cases owes <;> simpa using hm
  · intro h
    rw [howed, happended, hbodies, hwaiting, hunsent, ← List.append_assoc]
    exact (ht.balanced (hi h)).append_right _

theorem Step.conserving (h : Step True now t u) (ht : t.Conserving) (hs : t.Stocked)
    (hlife : t.Lifecycle) (hl : t.attendants.length ≤ 1) : u.Conserving := by
  have hi : u.Intact → t.Intact := h.intact hlife hl
  have quiet : t.history = t.history ++ [] := (List.append_nil _).symm
  cases h with
  | note he =>
    refine ht.quiet (l := [_]) rfl ?_ hi fun _ => .rfl
    rename_i e
    cases e <;> simp_all [Effect.isNote, Effect.owes?, Effect.isTransmission]
  | turnAway | receive | close =>
    exact ht.quiet (l := [_]) rfl (by simp [Effect.owes?, Effect.isTransmission]) hi fun _ => .rfl
  | queue hp hd ho => exact ht.pushed (ho trivial).2 ⟨rfl, rfl⟩ hi
  | requeue hd hk =>
    obtain ⟨e, he, -, -, hkind⟩ := hk
    exact ht.pushed (hkind ▸ (hs.inFlight e he).2) ⟨rfl, rfl⟩ hi
  | queueAcks hp hd hk hb ho => exact ht.queueAcks ho hi
  | loseAcks hp ha hr => exact absurd hr (hlife.keeps_acks hp ha)
  | process => exact ht.process hi
  | release hstage hc ho =>
    have hperm := unsent_release ho
    exact ht.sent (hs.unsent _ (hperm.mem_iff.2 List.mem_cons_self)) hs.appended_le rfl rfl hi
      fun _ => hperm
  | flush hstage => exact ht.flush hs hl hstage hi
  | collect hstage hw => exact ht.collect hlife hl hstage hi
  | authorize hstage | authorizeLate hstage | refuse hstage | join hstage | poison hstage
    | leave hstage => exact ht.moved rfl (unsent_moved hstage rfl rfl fun _ => rfl) rfl hi
  | stopAckTimer | stopProbeTimer => exact ht.moved rfl (unsent_attend fun _ _ => rfl) rfl hi
  | refresh | sweep => exact ht.quiet quiet (by simp) hi fun _ => .rfl

/-- Once the queue was collected, no ack waits, neither by itself nor in a queued packet. -/
def Drained (t : Traffic) : Prop :=
  t.authorized = true → t.leftover? ≠ none →
    t.ackState.owed.waiting = [] ∧ ∀ c, ∀ o ∈ t.outgoing.get c, o.standaloneAcks = []

theorem Drained.kept (ht : t.Drained) (ha : u.authorized = t.authorized)
    (hf : u.leftover? = t.leftover?) (ho : u.outgoing = t.outgoing)
    (hw : t.ackState.owed.waiting = [] → u.ackState.owed.waiting = []) : u.Drained := by
  intro hauthorized hcollected
  obtain ⟨hwaiting, hqueue⟩ := ht (ha ▸ hauthorized) (hf ▸ hcollected)
  exact ⟨hw hwaiting, ho ▸ hqueue⟩

theorem Drained.pushed {o : Outgoing} {e : Effect} (ht : t.Drained)
    (ho : t.authorized = true → t.leftover? ≠ none → o.standaloneAcks = []) :
    ((t.push o).log e).Drained := by
  intro hauthorized hcollected
  obtain ⟨hwaiting, hqueue⟩ := ht hauthorized hcollected
  refine ⟨hwaiting, fun c p hp => ?_⟩
  rcases mem_push hp with hp | ⟨rfl, -⟩
  · exact hqueue c p hp
  · exact ho hauthorized hcollected

/-- The attendant has not collected the queue yet. -/
theorem Drained.early (h : u.leftover? = none) : u.Drained := by
  intro _ hcollected
  exact absurd h hcollected

theorem Step.drained (h : Step True now t u) (ht : t.Drained) (hs : t.Stocked)
    (hlife : t.Lifecycle) (hl : t.attendants.length ≤ 1) : u.Drained := by
  have take : ∀ max, t.ackState.owed.waiting = [] →
      (t.ackState.owed.take max).1 = [] ∧ (t.ackState.owed.take max).2.waiting = [] := by
    intro max hw
    exact List.append_eq_nil_iff.1 ((OwedAcks.take_waiting max).trans hw)
  cases h with
  | queue hp hd ho => exact ht.pushed fun _ _ => standaloneAcks_other (ho trivial).2
  | requeue hd hk =>
    obtain ⟨e, he, -, -, hkind⟩ := hk
    exact ht.pushed fun _ _ => standaloneAcks_other (hkind ▸ (hs.inFlight e he).2)
  | queueAcks hp hd hk hb ho =>
    refine Drained.pushed (t := { t with ackState.owed := _ }) ?_ ?_
    · exact ht.kept rfl rfl rfl fun hw => (take _ hw).2
    · intro ha hf
      exact ho.trans (take _ (ht ha hf).1).1
  | loseAcks => exact ht.kept rfl rfl rfl fun hw => (take _ hw).2
  | process hstage => exact .early (leftover_of_stage hl hstage)
  | release hstage => exact .early (leftover_of_stage hl hstage)
  | flush hstage =>
    intro ha _
    have hcollected : t.leftover? ≠ none :=
      (leftover_of_stage hl hstage).trans_ne (Option.some_ne_none _)
    obtain ⟨hwaiting, hqueue⟩ := ht ha hcollected
    refine ⟨?_, hqueue⟩
    show (t.ackState.depart _ _ _).2.owed.waiting = []
    rw [AckState.depart_owed]
    split
    · exact hwaiting
    · exact (List.append_eq_nil_iff.1 ((OwedAcks.piggyback_waiting _ _).trans hwaiting)).2
  | collect hstage hw =>
    refine fun _ _ => ⟨hw, fun c o ho => ?_⟩
    rw [show (withRemaining _ _ _ _).outgoing = PerCategory.all [] from rfl,
      PerCategory.get_all] at ho
    cases ho
  | authorize hstage | authorizeLate hstage | join hstage | poison hstage =>
    exact .early ((leftover_moved hstage fun _ => rfl).trans (leftover_of_stage hl hstage))
  | leave hstage => exact ht.kept rfl (leftover_moved hstage fun _ => rfl) rfl id
  | refuse hstage =>
    intro ha
    obtain ⟨-, a, -, -, hrefused, -⟩ := hlife.only hl hstage
    exact absurd (hrefused.symm.trans ha) Bool.noConfusion
  | stopAckTimer | stopProbeTimer => exact ht.kept rfl (leftover_attend fun _ _ => rfl) rfl id
  | _ => exact ht.kept rfl rfl rfl id

structure Accounted (t : Traffic) : Prop where
  stocked : t.Stocked
  conserving : t.Conserving
  drained : t.Drained

theorem Step.accounted (h : Step True now t u) (ht : t.Accounted) (hlife : t.Lifecycle)
    (hl : t.attendants.length ≤ 1) : u.Accounted :=
  ⟨h.stocked ht.stocked hl, h.conserving ht.conserving ht.stocked hlife hl,
    h.drained ht.drained ht.stocked hlife hl⟩

theorem Accounted.started (ht : t.Accounted) (hat : t.attendants = []) : t.started.Accounted := by
  have hone : t.started.attendants = [{}] := by simp [Traffic.started, hat]
  have hnone : t.leftover? = none := by simp [leftover?, hat]
  have hnew : t.started.leftover? = none := by simp [leftover?, hone, Stage.leftover?]
  have hunsent : t.started.unsent = t.unsent := by
    rw [unsent, unsent, hnone, hnew]
    rfl
  refine ⟨ht.stocked.kept hunsent rfl, ?_, .early hnew⟩
  exact ht.conserving.moved rfl hunsent rfl fun h => ⟨h.no_failure, fun k => k.collected hnone⟩

theorem Reachable.accounted {timed : Prop} {start : Traffic} {starts clock : Nat}
    (h : Reachable True timed start starts clock t) (hs : start.attendants = [])
    (hl : start.Lifecycle) (ha : start.Accounted) (hn : starts ≤ 1) : t.Accounted := by
  induction h with
  | refl => exact ha
  | started h ih =>
    have hnone := h.length_attendants hs
    exact (ih (by omega)).started (List.length_eq_zero_iff.1 (by omega))
  | wait _ _ ih => exact ih hn
  | step h step ih =>
    exact step.accounted (ih hn) (h.lifecycle hs hl hn) ((h.length_attendants hs).trans_le hn)

theorem Accounted.unsentAcks_of_closed (ht : t.Accounted) (hlife : t.Lifecycle)
    (hp : t.phase = .closed) (ha : t.authorized = true) :
    t.unsentAcks = [] ∧ t.ackState.owed.waiting = [] := by
  have hleft := hlife.leftover_of_closed hp
  obtain ⟨hwaiting, hqueue⟩ := ht.drained ha (hleft.trans_ne (Option.some_ne_none _))
  refine ⟨?_, hwaiting⟩
  rw [unsentAcks, unsent, hleft]
  apply List.flatMap_eq_nil_iff.2
  intro o ho
  obtain ⟨l, hm, ho⟩ := List.mem_flatten.1 ho
  obtain ⟨c, -, rfl⟩ := List.mem_map.1 hm
  exact hqueue c o ho

end Traffic

/-- The configurations that circuits run with leave room for the count of the appended acks. -/
theorem Config.Valid.maxAppendedAcks_le {config : Config} (h : config.Valid) :
    config.maxAppendedAcks ≤ 255 := by
  unfold Config.Valid Config.validate at h
  split at h
  · cases h
  split at h
  · cases h
  split at h
  · cases h
  · omega

namespace Site

/-- The acks that the viewer is owed: each is behind a datagram, in the body of a datagram, in a
packet that is yet to be sent, or waits; and none is left when the circuit is closed. Packets with
acks in them are given up only after a fault of the transport. -/
structure AcksKept (s : Site) : Prop where
  conserved : (∀ e ∈ s.history, e.isFailure = false) → ¬ s.traffic.GaveUp →
    owedIn s.history ~ appendedIn s.history ++ bodiesIn s.history ++ s.traffic.unsentAcks ++
      s.circuit.ackState.owed.waiting
  resent : ∀ destination datagram o delivered,
    .transmitted destination datagram o delivered ∈ s.history → o.delivery = .resend →
      Datagram.appended datagram = []
  drained : s.circuit.phase = .closed → s.circuit.login.isSome →
    s.traffic.unsentAcks = [] ∧ s.circuit.ackState.owed.waiting = []

section

variable {config : Config} (viewer : Viewer) (remote : Address) (since : Nat)

theorem opened_accounted (hc : config.maxAppendedAcks ≤ 255) :
    (opened config viewer remote since).traffic.Accounted := by
  have hunsent : (opened config viewer remote since).traffic.unsent = [] := by
    simp [Traffic.unsent, Traffic.leftover?, traffic, opened, Circuit.new, Queue.new]
  refine ⟨⟨?_, ?_, hc⟩, ⟨?_, ?_⟩, .early rfl⟩
  · rw [hunsent]
    exact fun _ => List.not_mem_nil.elim
  · intro e he
    cases he
  · intro _ _ _ _ hm
    cases hm
  · intro _
    rw [Traffic.unsentAcks, hunsent]
    exact .rfl

/-- In every run with one attendant in which the acks are left to the circuit, none is lost and none
is sent twice. -/
theorem follow_keeps_acks (hc : config.maxAppendedAcks ≤ 255) {moves : List Move}
    (hm : StartedOnce moves) (hp : ∀ m ∈ moves, m.LeavesAcks) :
    ((opened config viewer remote since).follow moves).AcksKept := by
  obtain ⟨last, h⟩ := run_reachable True False config viewer remote since
    (fun _ => hp) (fun h => h.elim)
  have life := h.lifecycle rfl (opened_lifecycle config viewer remote since) hm
  have accounted := h.accounted rfl (opened_lifecycle config viewer remote since)
    (opened_accounted viewer remote since hc) hm
  exact ⟨fun hf hk => accounted.conserving.balanced ⟨hf, hk⟩, accounted.conserving.resent,
    accounted.unsentAcks_of_closed life⟩

end

def owedMoves (reason : CloseReason) : List Move :=
  [.step {} .start, .step {} (.authenticated 0 (.authorized none)), .step {} (.joined 0),
   .step {} (.receive { Packet.reliable (.completePingCheck { pingId := 1 }) with sequence := 7 }),
   .step {} (.serve 0 1 true), .step {} (.close reason), .step {} (.serve 0 1 true),
   .step {} (.finish 0), .step {} (.flush 0 2 true), .step {} (.stopAckTimer 0),
   .step {} (.stopProbeTimer 0), .step {} (.leave 0)]

theorem owed_ack_leaves_before_kick :
    ({} : Config).maxAppendedAcks ≤ 255 ∧ StartedOnce (owedMoves .kicked) ∧
      (∀ m ∈ owedMoves .kicked, m.LeavesAcks) ∧ (sample.follow (owedMoves .kicked)).AcksKept ∧
        owedIn (sample.follow (owedMoves .kicked)).history = [7] ∧
          bodiesIn (sample.follow (owedMoves .kicked)).history = [7] := by
  have hm : StartedOnce (owedMoves .kicked) := by
    unfold StartedOnce
    decide
  have hp : ∀ m ∈ owedMoves .kicked, m.LeavesAcks := by
    simp [owedMoves, Move.LeavesAcks, Event.LeavesAcks]
  exact ⟨by decide, hm, hp, follow_keeps_acks _ _ _ (by decide) hm hp, by decide +kernel,
    by decide +kernel⟩

/-- No datagram fails here. The caller who closes names a transport fault all the same, so the ack
is given up with the packet that it was put in. -/
theorem owed_ack_lost_after_fault :
    StartedOnce (owedMoves .transportFault) ∧
    (∀ m ∈ owedMoves .transportFault, m.LeavesAcks) ∧
    (∀ e ∈ (sample.follow (owedMoves .transportFault)).history, e.isFailure = false) ∧
    ¬ owedIn (sample.follow (owedMoves .transportFault)).history ~
      appendedIn (sample.follow (owedMoves .transportFault)).history ++
        bodiesIn (sample.follow (owedMoves .transportFault)).history ++
          (sample.follow (owedMoves .transportFault)).traffic.unsentAcks ++
            (sample.follow (owedMoves .transportFault)).circuit.ackState.owed.waiting := by
  refine ⟨by unfold StartedOnce; decide, ?_, by decide +kernel, by decide +kernel⟩
  simp [owedMoves, Move.LeavesAcks, Event.LeavesAcks]

end Site
end ViewerCircuit
