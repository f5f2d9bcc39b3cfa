import ViewerCircuit.Proofs.Service
import ViewerCircuit.Proofs.WireSilence

/-!
# Transport faults

A datagram that cannot be sent is the last one that a circuit hands to the transport. If it came
from the queue, the circuit is closed for that reason, its queue is thrown away, and its attendant
leaves the scene as ever. If it came from what is flushed, the rest of that is given up.
-/
namespace ViewerCircuit

open Relation (ReflTransGen)

/-- Nothing goes on the wire after a datagram that could not be sent. -/
def Effect.Final (e later : Effect) : Prop := e.isFailure = true → later.isTransmission = false

def Event.isServe : Event → Bool
  | serve _ _ _ => true
  | _ => false

def Move.isServe : Move → Bool
  | step _ e => e.isServe
  | _ => false

/-- An attendant at this stage has nothing to send, now or later. It `served` if the datagram that
could not be sent came from the queue. -/
def Stage.GivesUp (served : Bool) : Stage → Prop
  | serving => served = true
  | finishing joined => served = true ∧ joined = true
  | flushing joined remaining => remaining = [] ∧ (served = true → joined = true)
  | ended => True
  | _ => False

theorem isFailure_of_isDeed {e : Effect} (he : e.isDeed = true) : e.isFailure = false := by
  cases e <;> first | rfl | cases he

theorem final_of_noFailure {l : List Effect} (h : ∀ e ∈ l, e.isFailure = false) :
    l.Pairwise Effect.Final := by
  refine List.pairwise_of_forall_mem_list ?_
  intro e he later _ failed
  exact absurd failed (Bool.eq_false_iff.1 (h e he))

namespace Traffic

structure Spent (served : Bool) (t : Traffic) : Prop where
  closed : t.closed = true
  ending : t.phase.isEnding = true
  attended : t.attendants ≠ []
  stages : ∀ a ∈ t.attendants, a.stage.GivesUp served
  reason : served = true → t.closeReason = some .transportFault
  asked : served = true → .sceneAdd 0 ∈ t.history

variable {plain : Prop} {now : Nat} {t u : Traffic} {served : Bool}

theorem Spent.of_stage {i : AttendantId} {stage : Stage} (ht : t.Spent served)
    (hs : t.stage? i = some stage) : stage.GivesUp served := by
  obtain ⟨a, ha, rfl⟩ := mem_of_stage hs
  exact ht.stages a ha

theorem Spent.same (ht : t.Spent served) (hc : u.closed = t.closed) (hp : u.phase = t.phase)
    (ha : u.attendants = t.attendants) (hr : u.closeReason = t.closeReason)
    (hh : t.history <+: u.history) : u.Spent served where
  closed := hc.trans ht.closed
  ending := by rw [hp, ht.ending]
  attended := ha ▸ ht.attended
  stages := ha ▸ ht.stages
  reason h := hr.trans (ht.reason h)
  asked h := hh.subset (ht.asked h)

theorem Spent.attend {i : AttendantId} {f : Attendant → Attendant} (ht : t.Spent served)
    (hf : ∀ a, t.attendants[i]? = some a → (f a).stage.GivesUp served) :
    (t.attend i f).Spent served := by
  refine { ht with attended := ?_, stages := ?_ }
  · intro hnone
    exact ht.attended (List.modify_eq_nil_iff.1 hnone)
  · intro a ha
    rcases mem_modify ha with ha | ⟨b, hb, rfl⟩
    · exact ht.stages a ha
    · exact hf b hb

theorem Spent.withRemaining {i : AttendantId} {joined : Bool} (ht : t.Spent served)
    (hj : served = true → joined = true) : (t.withRemaining i joined []).Spent served := by
  have moved : (t.attend i ({ · with stage := .flushing joined [] })).Spent served :=
    ht.attend fun _ _ => ⟨rfl, hj⟩
  refine { moved with attended := ?_, stages := ?_ }
  · intro hnone
    exact moved.attended (List.map_eq_nil_iff.1 hnone)
  · intro a ha
    obtain ⟨b, hb, rfl⟩ := List.mem_map.1 ha
    rw [claimedBy_stage]
    exact moved.stages b hb

theorem Step.spent (h : Step plain now t u) (ht : t.Spent served) : u.Spent served := by
  have grown := h.history_isPrefix
  cases h with
  | process hs hc | release hs hc => exact absurd ht.closed (Bool.eq_false_iff.1 hc)
  | flush hs => exact absurd (ht.of_stage hs).1 (List.cons_ne_nil _ _)
  | authorize hs | authorizeLate hs | refuse hs | join hs => exact (ht.of_stage hs).elim
  | close => exact ht.same ht.closed.symm (if_pos ht.ending) rfl (if_pos ht.ending) grown
  | poison hs =>
    refine ht.attend ?_
    intro a _
    exact ⟨ht.of_stage hs, rfl⟩
  | collect hs =>
    obtain ⟨hserved, hjoined⟩ := ht.of_stage hs
    rw [if_pos (ht.reason hserved)]
    exact Spent.withRemaining (t := { t with incoming := [], outgoing := .all [] })
      (ht.same rfl rfl rfl rfl List.prefix_rfl) fun _ => hjoined
  | leave hs =>
    refine Spent.attend (t := { t with phase := .closed }) { ht with ending := rfl } ?_
    intro a _
    trivial
  | stopAckTimer | stopProbeTimer =>
    refine ht.attend ?_
    intro a ha
    exact ht.stages a (List.mem_of_getElem? ha)
  | _ => exact ht.same rfl rfl rfl rfl grown

/-- However the circuit goes on, it hands nothing to the transport any more. -/
theorem Spent.later (ht : t.Spent served) (h : ReflTransGen (Step plain now) t u) :
    u.Spent served ∧ wire u.history = wire t.history := by
  induction h with
  | refl => exact ⟨ht, rfl⟩
  | tail _ step ih =>
    obtain ⟨spent, same⟩ := ih
    refine ⟨step.spent spent, (step.wire_idle ?_ ?_).trans same⟩
    · intro _ _
      exact spent.closed
    · intro _ _ _ hs
      exact (spent.of_stage hs).1

end Traffic
namespace Site

variable {authorized added : Prop} {s : Site} {m : Move} {moves : List Move} {served : Bool}

def toldServing (s : Site) (m : Move) : List Effect := if m.isServe then s.told m else []

/-- The transport failed with a packet from the queue. -/
def FailedServing (s : Site) (moves : List Move) : Prop :=
  ∃ e ∈ trace toldServing s moves, e.isFailure = true

theorem move_works_of_failure (hs : s.pool.Sound) (hf : ∃ e ∈ s.told m, e.isFailure = true) :
    Works s m (s.move m) := by
  refine (move_works hs m).resolve_left ?_
  intro same
  obtain ⟨e, he, failed⟩ := hf
  have aside := told_aside hs same e he
  cases e <;> first | cases failed | cases aside

theorem stages_length (s : Site) : s.course.stages.length = s.traffic.attendants.length :=
  List.length_map _

/-- A circuit that is served has asked the scene to add it. -/
theorem asked_of_serving {i : AttendantId} (hc : s.course.Sound authorized added)
    (hl : s.traffic.attendants.length ≤ 1) (hs : s.circuit.stage? i = some .serving) :
    .sceneAdd 0 ∈ s.history := by
  obtain ⟨-, ⟨hscenes, -⟩, -⟩ := hc.sole ((stages_length s).trans_le hl)
    ((course_stage s i).trans hs)
  exact (mem_scenes_course.1 (hscenes ▸ List.mem_singleton_self _)).1

/-- The only attendant serves, and closes the circuit because the transport failed. -/
theorem close_spent {a : Attendant} (hat : s.circuit.attendants = [a]) (ha : a.stage = .serving)
    (hopen : s.circuit.phase.isEnding = false) (hasked : .sceneAdd 0 ∈ s.history) :
    (s.close .transportFault).traffic.Spent true := by
  have hcircuit := close_circuit .transportFault s
  rw [hopen] at hcircuit
  have closing : (s.close .transportFault).traffic.phase = .closing :=
    congrArg Circuit.phase hcircuit
  have fault : (s.close .transportFault).traffic.closeReason = some .transportFault :=
    congrArg Circuit.closeReason hcircuit
  have sole : (s.close .transportFault).traffic.attendants = [a] :=
    (congrArg Circuit.attendants hcircuit).trans hat
  have closed : (s.close .transportFault).circuit.queue = s.circuit.queue.close :=
    congrArg Circuit.queue hcircuit
  constructor
  · exact (congrArg Queue.closed closed).trans (Queue.close_closed _)
  · rw [closing]
    rfl
  · rw [sole]
    exact List.cons_ne_nil _ _
  · rw [sole]
    intro b hb
    rw [List.mem_singleton.1 hb, ha]
    rfl
  · intro _
    exact fault
  · intro _
    have told : (s.close .transportFault).traffic.history = _ := history_close _ s
    rw [told]
    exact List.mem_append_left _ hasked

/-- The only attendant gives up what is left to be flushed. -/
theorem giveUp_spent {i : AttendantId} {joined : Bool} {t : Traffic} (ht : t.Orderly)
    (hl : t.attendants.length ≤ 1) {rest : List Outgoing}
    (hs : t.stage? i = some (.flushing joined rest)) :
    (t.withRemaining i joined []).Spent false := by
  obtain ⟨rfl, a, hat, -⟩ := Traffic.sole hl hs
  have closed := ht.closed_of_stage hs rfl
  have sole : (t.withRemaining 0 joined []).attendants =
      [({ a with stage := .flushing joined [] }).claimedBy 0] := by
    simp [Traffic.withRemaining, hat]
  refine ⟨closed, ht.closed_eq ▸ closed, ?_, ?_, Bool.noConfusion, Bool.noConfusion⟩
  · rw [sole]
    exact List.cons_ne_nil _ _
  · rw [sole]
    intro b hb
    rw [List.mem_singleton.1 hb, Traffic.claimedBy_stage]
    exact ⟨rfl, Bool.noConfusion⟩

/-- A processed packet hands nothing to the transport. -/
theorem process_sends_nothing (conduct : Conduct) (now : Nat) (p : Packet)
    (hs : s.pool.Sound) : ∃ l, (s.process conduct now p).history = s.history ++ l ∧
      ∀ e ∈ l, e.isFailure = false := by
  obtain ⟨l, hl, deeds⟩ := process_history conduct now p hs
  refine ⟨_, hl, ?_⟩
  intro e he
  rcases List.mem_append.1 he with he | he
  · rcases mem_heardEffects he with rfl | rfl <;> rfl
  · rcases List.mem_cons.1 he with rfl | he
    · split <;> rfl
    · exact isFailure_of_isDeed (deeds e he)

/-- Every failure of the transport leaves a circuit that sends nothing any more, and it was the last
thing that was sent. -/
theorem move_fails (hs : s.pool.Sound) (ht : s.traffic.Lifecycle)
    (hl : s.traffic.attendants.length ≤ 1) (hc : s.course.Sound authorized added)
    (hf : ∃ e ∈ s.told m, e.isFailure = true) :
    (s.move m).traffic.Spent m.isServe ∧ (s.told m).Pairwise Effect.Final := by
  have works := move_works_of_failure hs hf
  have told := move_history hs m
  generalize s.move m = u at works told
  obtain ⟨e, he, failed⟩ := hf
  cases works with
  | @process conduct i now linkUp p rest hstage hopen hi =>
    obtain ⟨l, hl, quiet⟩ := process_sends_nothing (s := s.update fun c => { c with
      queue := { s.circuit.queue with incoming := rest } }) conduct now p hs
    rw [List.append_cancel_left (told.symm.trans hl)] at he
    exact absurd failed (Bool.eq_false_iff.1 (quiet e he))
  | @release conduct i now linkUp queue c o rest hstage hopen hget hclosed hincoming hout =>
    obtain ⟨-, a, hat, ha⟩ := Traffic.sole hl hstage
    obtain ⟨v, hv, sole, ending, same⟩ : ∃ v, s.update (fun c => { c with queue }) = v ∧
        v.circuit.attendants = [a] ∧ v.circuit.phase.isEnding = false ∧ v.history = s.history :=
      ⟨_, rfl, hat, ht.orderly.closed_eq.symm.trans hopen, rfl⟩
    obtain ⟨datagram, sent⟩ := released_history now linkUp o v
    rw [hv] at told ⊢
    rw [List.append_cancel_left (told.symm.trans (same ▸ sent))] at he ⊢
    cases linkUp with
    | true =>
      rw [List.mem_singleton.1 he] at failed
      cases failed
    | false =>
      refine ⟨close_spent sole ha ending ?_, by simp [Effect.Final, Effect.isTransmission]⟩
      rw [transmit_history, same]
      exact List.mem_append_left _ (asked_of_serving hc hl hstage)
  | @flush conduct i now linkUp joined o rest hstage =>
    obtain ⟨datagram, sent⟩ := flushNext_history i now linkUp joined o rest s
    rw [List.append_cancel_left (told.symm.trans sent)] at he ⊢
    cases linkUp with
    | true =>
      rw [List.mem_singleton.1 he] at failed
      cases failed
    | false =>
      refine ⟨?_, List.pairwise_singleton _ _⟩
      obtain ⟨room, destination, transmitted⟩ := traffic_transmit now false o s
      unfold flushNext
      dsimp only
      rw [traffic_withRemaining, transmitted, transmit_sent]
      exact giveUp_spent (t := s.traffic.transmit now room destination false o)
        ⟨ht.orderly.closed_eq, ht.orderly.closed_of_leaving⟩ hl hstage

theorem move_spent (hm : m.isStart = false) (hs : s.pool.Sound)
    (ht : s.traffic.Spent served) :
    (s.move m).traffic.Spent served ∧ ∀ e ∈ s.told m, e.isTransmission = false := by
  obtain ⟨now, led⟩ := move_leads hm s
  obtain ⟨spent, same⟩ := ht.later (led hs).2
  have grown : wire (s.move m).history = wire s.history ++ wire (s.told m) := by
    rw [move_history hs, wire_append]
  refine ⟨spent, ?_⟩
  have silent : wire (s.told m) = [] :=
    List.append_cancel_left ((grown.symm.trans same).trans (List.append_nil _).symm)
  simpa [wire] using silent

theorem isTransmission_of_isFailure {e : Effect} (he : e.isFailure = true) :
    e.isTransmission = true := by
  cases e <;> first | rfl | cases he

structure Faulted (s : Site) (moves : List Move) : Prop where
  last : (s.follow moves).history.Pairwise Effect.Final
  spent : (∃ e ∈ (s.follow moves).history, e.isFailure = true) →
    ∃ served, (s.follow moves).traffic.Spent served
  served : s.FailedServing moves → (∃ e ∈ (s.follow moves).history, e.isFailure = true) ∧
    (s.follow moves).traffic.Spent true

theorem FailedServing.snoc (h : s.FailedServing (moves ++ [m])) : s.FailedServing moves ∨
    m.isServe = true ∧ ∃ e ∈ (s.follow moves).told m, e.isFailure = true := by
  obtain ⟨e, he, failed⟩ := h
  rw [trace_snoc] at he
  rcases List.mem_append.1 he with he | he
  · exact .inl ⟨e, he, failed⟩
  · unfold toldServing at he
    split at he
    · next hserve => exact .inr ⟨hserve, e, he, failed⟩
    · cases he

/-- The circuit goes on after a failure. -/
theorem Faulted.goes_on (h : s.Faulted moves) (hs : (s.follow moves).pool.Sound)
    (hm : m.isStart = false) (hf : ∃ e ∈ (s.follow moves).history, e.isFailure = true) :
    s.Faulted (moves ++ [m]) := by
  obtain ⟨given, spent⟩ := h.spent hf
  obtain ⟨still, silent⟩ := move_spent hm hs spent
  have quiet : ∀ e ∈ (s.follow moves).told m, e.isFailure = false := by
    intro e he
    refine Bool.eq_false_iff.2 fun failed => ?_
    exact absurd (isTransmission_of_isFailure failed) (Bool.eq_false_iff.1 (silent e he))
  have grown := move_history hs m
  obtain ⟨e, he, failed⟩ := hf
  have kept : ∃ e ∈ (s.follow moves).history ++ (s.follow moves).told m, e.isFailure = true :=
    ⟨e, List.mem_append_left _ he, failed⟩
  rw [← follow_snoc] at still grown
  rw [← grown] at kept
  refine ⟨?_, fun _ => ⟨given, still⟩, ?_⟩
  · rw [grown]
    refine List.pairwise_append.2 ⟨h.last, final_of_noFailure quiet, ?_⟩
    intro _ _ later hlater _
    exact silent later hlater
  · intro hserved
    refine ⟨kept, ?_⟩
    rcases hserved.snoc with before | ⟨-, e, he, failed⟩
    · rw [follow_snoc]
      exact (move_spent hm hs (h.served before).2).1
    · exact absurd failed (Bool.eq_false_iff.1 (quiet e he))

/-- The transport fails for the first time. -/
theorem Faulted.fails (h : s.Faulted moves) (hs : (s.follow moves).pool.Sound)
    (hnone : ¬∃ e ∈ (s.follow moves).history, e.isFailure = true)
    (spent : ((s.follow moves).move m).traffic.Spent m.isServe)
    (last : ((s.follow moves).told m).Pairwise Effect.Final)
    (hf : ∃ e ∈ (s.follow moves).told m, e.isFailure = true) : s.Faulted (moves ++ [m]) := by
  have grown := move_history hs m
  obtain ⟨e, he, failed⟩ := hf
  have kept : ∃ e ∈ (s.follow moves).history ++ (s.follow moves).told m, e.isFailure = true :=
    ⟨e, List.mem_append_right _ he, failed⟩
  rw [← follow_snoc] at spent grown
  rw [← grown] at kept
  refine ⟨?_, fun _ => ⟨_, spent⟩, ?_⟩
  · rw [grown]
    refine List.pairwise_append.2 ⟨h.last, last, ?_⟩
    intro early hearly _ _ hfailed
    exact absurd ⟨early, hearly, hfailed⟩ hnone
  · intro hserved
    refine ⟨kept, ?_⟩
    rcases hserved.snoc with before | ⟨hserve, -⟩
    · exact absurd (h.served before).1 hnone
    · rwa [hserve] at spent

/-- No move fails to send. -/
theorem Faulted.spared (h : s.Faulted moves) (hs : (s.follow moves).pool.Sound)
    (hnone : ¬∃ e ∈ (s.follow moves).history, e.isFailure = true)
    (hf : ¬∃ e ∈ (s.follow moves).told m, e.isFailure = true) : s.Faulted (moves ++ [m]) := by
  have grown := move_history hs m
  rw [← follow_snoc] at grown
  have none : ∀ e ∈ (s.follow (moves ++ [m])).history, e.isFailure = false := by
    rw [grown]
    intro e he
    refine Bool.eq_false_iff.2 fun failed => ?_
    rcases List.mem_append.1 he with he | he
    · exact hnone ⟨e, he, failed⟩
    · exact hf ⟨e, he, failed⟩
  refine ⟨final_of_noFailure none, ?_, ?_⟩
  · rintro ⟨e, he, failed⟩
    exact absurd failed (Bool.eq_false_iff.1 (none e he))
  · intro hserved
    rcases hserved.snoc with before | ⟨-, told⟩
    · exact absurd (h.served before).1 hnone
    · exact absurd told hf

/-- What the only attendant still does once its queue is closed: it looks into the queue, finishes,
waits for its timers and leaves. -/
def partingMoves : List Move :=
  [.step {} (.serve 0 0 true), .step {} (.finish 0), .step {} (.stopAckTimer 0),
   .step {} (.stopProbeTimer 0), .step {} (.leave 0)]

/-- The queue was emptied, and the attendant took nothing from it. -/
def Discarded (i : AttendantId) (s : Site) : Prop :=
  s.circuit.queue.outgoing = .all [] ∧ s.circuit.queue.incoming = [] ∧
    s.circuit.stage? i = some (.flushing true [])

/-- What a failure of the transport means to a circuit that is started once. The attendant can
always leave, whatever still happens before. Every beginning of a run is a run as well, so each
field tells what comes after the failure. -/
structure FaultsFinal (s : Site) (moves : List Move) : Prop where
  last : (s.follow moves).history.Pairwise Effect.Final
  reason : s.FailedServing moves → (s.follow moves).circuit.closeReason = some .transportFault
  discarded : s.FailedServing moves → ∀ conduct i, (s.follow moves).circuit.Enabled (.finish i) →
    ((s.follow moves).move (.step conduct (.finish i))).Discarded i
  removed : s.FailedServing moves → (s.follow moves).history.filter Effect.isSceneCall =
    if (s.follow moves).circuit.phase = .closed then [.sceneAdd 0, .sceneRemove] else [.sceneAdd 0]
  leaves : s.FailedServing moves → (s.follow (moves ++ partingMoves)).circuit.phase = .closed

theorem finish_discards {conduct : Conduct} {i : AttendantId}
    (ht : s.traffic.Spent true) (he : s.circuit.Enabled (.finish i)) :
    (s.move (.step conduct (.finish i))).Discarded i := by
  have stage : s.circuit.stage? i = some (.finishing true) := by
    rcases he with h | h
    · exact h
    · exact absurd (ht.of_stage h).2 Bool.noConfusion
  have moved : s.move (.step conduct (.finish i)) = s.beginFlush i true := by
    simp [move, next, he, perform, stage]
  have same : s.sendOwedAcks.course = s.course := course_blind.sendAckChunks _ s
  have fault : s.sendOwedAcks.circuit.closeReason = some .transportFault :=
    (congrArg Course.closeReason same).trans (ht.reason rfl)
  rw [moved]
  unfold beginFlush
  dsimp only
  rw [if_pos fault]
  refine ⟨rfl, rfl, ?_⟩
  have flushed := course_withRemaining i true [] (s.sendOwedAcks.update fun c => { c with
    queue := s.sendOwedAcks.circuit.queue.flush.2 })
  rw [← course_stage]
  refine (congrArg (fun c => c.stages[i]?) flushed).trans ?_
  have before : s.sendOwedAcks.course.stages[i]? = some (.finishing true) := by
    rw [same, course_stage, stage]
  refine List.getElem?_set_self'.trans ?_
  exact congrArg _ before

theorem Spent.sole {t : Traffic} (ht : t.Spent served) (hl : t.attendants.length ≤ 1) :
    ∃ a, t.attendants = [a] ∧ a.stage.GivesUp served := by
  match hat : t.attendants with
  | [] => exact absurd hat ht.attended
  | [a] => exact ⟨a, rfl, ht.stages a (by simp [hat])⟩
  | _ :: _ :: _ => simp [hat] at hl

theorem scenes_spent (hc : s.course.Sound authorized added) (ht : s.traffic.Spent true)
    (hl : s.traffic.attendants.length ≤ 1) : s.history.filter Effect.isSceneCall =
      if s.circuit.phase = .closed then [.sceneAdd 0, .sceneRemove] else [.sceneAdd 0] := by
  have asked : .sceneAdd 0 ∈ s.course.scenes := mem_scenes_course.2 ⟨ht.asked rfl, rfl⟩
  obtain ⟨a, hat, gives⟩ := Spent.sole ht hl
  have stage : s.course.stage = a.stage := by
    have stages : s.course.stages = [a].map (·.stage) := congrArg _ hat
    rw [Course.stage, stages]
    rfl
  have told := hc.tells
  rw [stage] at told
  rw [← scenes_course]
  cases hs : a.stage with
  | serving =>
    rw [hs] at told
    obtain ⟨scenes, -, -, opened⟩ := told
    exact scenes.trans (if_neg opened).symm
  | finishing joined | flushing joined =>
    rw [hs] at told gives
    obtain ⟨scenes, -, closing⟩ := told
    have opened : s.circuit.phase ≠ .closed := by
      intro closed
      exact Phase.noConfusion (closing.symm.trans closed)
    obtain rfl : joined = true := by simp_all [Stage.GivesUp]
    exact scenes.trans (if_neg opened).symm
  | ended =>
    rw [hs] at told
    obtain ⟨scenes | ⟨scenes, -⟩, closed⟩ := told
    · rw [scenes] at asked
      cases asked
    · exact scenes.trans (if_pos closed).symm
  | authenticating | joining =>
    rw [hs] at gives
    exact gives.elim

/-- An attendant whose queue is closed serves no longer once it looks. -/
theorem serve_parts (conduct : Conduct) (now : Nat) (linkUp : Bool)
    (ht : s.traffic.Spent true) {a : Attendant} (hat : s.circuit.attendants = [a])
    (hopen : a.stage ≠ .ended) :
    ∃ b, (s.move (.step conduct (.serve 0 now linkUp))).circuit.attendants = [b] ∧
      (b.stage = .finishing true ∨ b.stage = .flushing true []) := by
  have gives := ht.stages a (by simp [traffic, hat])
  by_cases hs : a.stage = .serving
  · have enabled : s.circuit.stage? 0 = some .serving := by simp [Circuit.stage?, hat, hs]
    have moved : s.move (.step conduct (.serve 0 now linkUp)) =
        s.update (·.withStage 0 (.finishing true)) := by
      rcases serve_cases conduct 0 now linkUp s with ⟨-, hserve⟩ | ⟨opened, -⟩
      · simp [move, next, Circuit.Enabled, enabled, perform, hserve]
      · exact absurd ht.closed (Bool.eq_false_iff.1 opened)
    rw [moved]
    exact ⟨{ a with stage := .finishing true }, by
      simp [update, Circuit.withStage, Circuit.withAttendant, hat], .inl rfl⟩
  · have disabled : ¬s.circuit.Enabled (.serve 0 now linkUp) := by
      simp [Circuit.Enabled, Circuit.stage?, hat, hs]
    refine ⟨a, by simp [move, next, disabled, hat], ?_⟩
    cases hstage : a.stage <;> simp_all [Stage.GivesUp]

theorem length_move (hm : m.isStart = false) (hs : s.pool.Sound) :
    (s.move m).circuit.attendants.length = s.circuit.attendants.length := by
  have kept : ∀ {plain : Prop} {now : Nat} {t u : Traffic},
      ReflTransGen (Traffic.Step plain now) t u → u.attendants.length = t.attendants.length := by
    intro plain now t u steps
    induction steps with
    | refl => rfl
    | tail _ step ih => exact step.length_attendants.trans ih
  obtain ⟨now, led⟩ := move_leads hm s
  exact kept (led hs).2

theorem finish_parts (conduct : Conduct) (hs : s.pool.Sound)
    (ht : s.traffic.Spent true) {a : Attendant} (hat : s.circuit.attendants = [a])
    (ha : a.stage = .finishing true ∨ a.stage = .flushing true []) :
    ∃ b, (s.move (.step conduct (.finish 0))).circuit.attendants = [b] ∧
      b.stage = .flushing true [] := by
  have length := length_move (m := .step conduct (.finish 0)) rfl hs
  rw [hat] at length
  obtain ⟨b, hb⟩ := List.length_eq_one_iff.1 length
  refine ⟨b, hb, ?_⟩
  suffices h : (s.move (.step conduct (.finish 0))).circuit.stage? 0 =
      some (.flushing true []) by simpa [Circuit.stage?, hb] using h
  rcases ha with ha | ha
  · have enabled : s.circuit.Enabled (.finish 0) := .inl (by simp [Circuit.stage?, hat, ha])
    exact (finish_discards ht enabled).2.2
  · have disabled : ¬s.circuit.Enabled (.finish 0) := by
      simp [Circuit.Enabled, Circuit.stage?, hat, ha]
    simp [move, next, disabled, Circuit.stage?, hat, ha]

theorem stopAckTimer_parts (conduct : Conduct) (ht : s.traffic.Spent true)
    {a : Attendant} (hat : s.circuit.attendants = [a]) :
    ∃ b, (s.move (.step conduct (.stopAckTimer 0))).circuit.attendants = [b] ∧
      b.stage = a.stage ∧ b.ackTimer ≠ .running := by
  by_cases runs : a.ackTimer = .running
  · have enabled : s.circuit.Enabled (.stopAckTimer 0) :=
      ⟨by simp [Circuit.AckTimerRuns, hat, runs], ht.ending⟩
    refine ⟨{ a with ackTimer := .stopped }, ?_, rfl, TimerState.noConfusion⟩
    simp [move, next, enabled, perform, update, Circuit.withAttendant, hat]
  · have disabled : ¬s.circuit.Enabled (.stopAckTimer 0) := by
      simp [Circuit.Enabled, Circuit.AckTimerRuns, hat, runs]
    exact ⟨a, by simp [move, next, disabled, hat], rfl, runs⟩

theorem stopProbeTimer_parts (conduct : Conduct) (ht : s.traffic.Spent true)
    {a : Attendant} (hat : s.circuit.attendants = [a]) (ha : a.ackTimer ≠ .running) :
    ∃ b, (s.move (.step conduct (.stopProbeTimer 0))).circuit.attendants = [b] ∧
      b.stage = a.stage ∧ b.isQuiet := by
  by_cases runs : a.probeTimer = .running
  · have enabled : s.circuit.Enabled (.stopProbeTimer 0) :=
      ⟨by simp [Circuit.ProbeTimerRuns, hat, runs], ht.ending⟩
    refine ⟨{ a with probeTimer := .stopped }, ?_, rfl, by simp [Attendant.isQuiet, ha]⟩
    simp [move, next, enabled, perform, update, Circuit.withAttendant, hat]
  · have disabled : ¬s.circuit.Enabled (.stopProbeTimer 0) := by
      simp [Circuit.Enabled, Circuit.ProbeTimerRuns, hat, runs]
    exact ⟨a, by simp [move, next, disabled, hat], rfl, by simp [Attendant.isQuiet, ha, runs]⟩

theorem leave_parts {conduct : Conduct} {a : Attendant}
    (hat : s.circuit.attendants = [a]) (ha : a.stage = .flushing true []) (hq : a.isQuiet) :
    (s.move (.step conduct (.leave 0))).circuit.phase = .closed := by
  have stage : s.circuit.stage? 0 = some (.flushing true []) := by simp [Circuit.stage?, hat, ha]
  have quiet : s.circuit.TimersStopped 0 := by
    intro b hb _
    rw [hat] at hb
    exact List.mem_singleton.1 hb ▸ hq
  have enabled : s.circuit.Enabled (.leave 0) := ⟨.inl stage, quiet⟩
  simp [move, next, enabled, perform, stage, leave, emit, update]

/-- An attendant that gave up sending can leave. -/
theorem parting_closes (hs : s.pool.Sound) (ht : s.traffic.Spent true)
    (hl : s.traffic.attendants.length ≤ 1) (hc : s.course.Sound authorized added) :
    (s.follow partingMoves).circuit.phase = .closed := by
  by_cases closed : s.circuit.phase = .closed
  · exact follow_stays_closed hs closed _
  obtain ⟨a, hat, -⟩ := Spent.sole ht hl
  have staying : a.stage ≠ .ended := by
    intro ended
    have told := hc.tells
    have stages : s.course.stages = [a].map (·.stage) := congrArg _ hat
    rw [Course.stage, stages, List.map_singleton, List.headD_cons, ended] at told
    exact closed told.2
  obtain ⟨b, hbt, hb⟩ := serve_parts {} 0 true ht hat staying
  have hs₁ := move_sound hs (.step {} (.serve 0 0 true))
  have ht₁ := (move_spent (m := .step {} (.serve 0 0 true)) rfl hs ht).1
  obtain ⟨c, hct, hstage⟩ := finish_parts {} hs₁ ht₁ hbt hb
  have hs₂ := move_sound hs₁ (.step {} (.finish 0))
  have ht₂ := (move_spent (m := .step {} (.finish 0)) rfl hs₁ ht₁).1
  obtain ⟨d, hdt, hd, hack⟩ := stopAckTimer_parts {} ht₂ hct
  have ht₃ := (move_spent (m := .step {} (.stopAckTimer 0)) rfl hs₂ ht₂).1
  obtain ⟨e, het, he, hquiet⟩ := stopProbeTimer_parts {} ht₃ hdt hack
  simp only [partingMoves, follow, List.foldl_cons, List.foldl_nil]
  exact leave_parts het (he.trans (hd.trans hstage)) hquiet

section

variable (config : Config) (viewer : Viewer) (remote : Address) (since : Nat)

theorem unattended_of_start (hm : StartedOnce (moves ++ [m])) (hstart : m.isStart = true) :
    ((opened config viewer remote since).follow moves).traffic.attendants = [] := by
  have stages := follow_stages config viewer remote since moves
  unfold StartedOnce at hm
  rw [List.countP_append, List.countP_singleton, if_pos hstart] at hm
  exact List.length_eq_zero_iff.1 (by rw [← stages_length]; omega)

theorem follow_faulted (hm : StartedOnce moves) :
    (opened config viewer remote since).Faulted moves := by
  induction moves using List.reverseRecOn with
  | nil =>
    refine ⟨.nil, ?_, ?_⟩
    · rintro ⟨e, he, -⟩
      cases he
    · rintro ⟨e, he, -⟩
      cases he
  | append_singleton moves m ih =>
    have earlier := ih hm.prior
    have sound := follow_sound (opened_sound config viewer remote since) moves
    have course := follow_course config viewer remote since hm.prior
    obtain ⟨life, one⟩ := follow_lifecycle config viewer remote since hm.prior
    have unattended := unattended_of_start config viewer remote since hm
    generalize opened config viewer remote since = s at earlier sound course life one unattended ⊢
    by_cases before : ∃ e ∈ (s.follow moves).history, e.isFailure = true
    · refine earlier.goes_on sound ?_ before
      obtain ⟨_, spent⟩ := earlier.spent before
      exact Bool.eq_false_iff.2 fun hstart => spent.attended (unattended hstart)
    · by_cases now : ∃ e ∈ (s.follow moves).told m, e.isFailure = true
      · obtain ⟨spent, last⟩ := move_fails sound life one course now
        exact earlier.fails sound before spent last now
      · exact earlier.spared sound before now

/-- In every run with one attendant, a datagram that cannot be sent is the last one. If the
attendant served the queue then, the queue is thrown away, and the scene is left once. -/
theorem faults_are_final (hm : StartedOnce moves) :
    (opened config viewer remote since).FaultsFinal moves := by
  have faulted := follow_faulted config viewer remote since hm
  have sound := follow_sound (opened_sound config viewer remote since) moves
  have course := follow_course config viewer remote since hm
  obtain ⟨-, one⟩ := follow_lifecycle config viewer remote since hm
  generalize opened config viewer remote since = s at faulted sound course one ⊢
  constructor
  · exact faulted.last
  · intro failed
    exact (faulted.served failed).2.reason rfl
  · intro failed conduct i enabled
    exact finish_discards (faulted.served failed).2 enabled
  · intro failed
    exact scenes_spent course (faulted.served failed).2 one
  · intro failed
    rw [follow_append]
    exact parting_closes sound (faulted.served failed).2 one course

end

/-- An alert that cannot be sent, with another one behind it. Then callers go on as if nothing had
happened, and the circuit is left. -/
def faultMoves : List Move :=
  [.step {} .start, .step {} (.authenticated 0 (.authorized none)), .step {} (.joined 0),
   .step {} (.tell (.alert "first")), .step {} (.tell (.alert "second")),
   .step {} (.serve 0 (1 * Time.second) false), .step {} (.tell (.alert "third")),
   .step {} (.ackTick 0 (2 * Time.second)), .step {} (.close .logout)] ++ partingMoves

def lateFaultMoves : List Move :=
  [.step {} .start, .step {} (.authenticated 0 (.authorized none)), .step {} (.joined 0),
   .step {} (.tell (.alert "first")), .step {} (.tell (.alert "second")),
   .step {} (.close .logout), .step {} (.serve 0 1 true), .step {} (.finish 0),
   .step {} (.flush 0 2 false), .step {} (.flush 0 3 true), .step {} (.stopAckTimer 0),
   .step {} (.stopProbeTimer 0), .step {} (.leave 0)]

theorem faults_are_final_served_and_flushed :
    StartedOnce faultMoves ∧ sample.FaultsFinal faultMoves ∧ sample.FailedServing faultMoves ∧
      (sample.follow faultMoves).circuit.phase = .closed ∧
      (wire (sample.follow faultMoves).history).length = 1 ∧
    StartedOnce lateFaultMoves ∧ sample.FaultsFinal lateFaultMoves ∧
      (sample.follow lateFaultMoves).circuit.closeReason = some .logout ∧
      (wire (sample.follow lateFaultMoves).history).length = 1 := by
  have once : StartedOnce faultMoves := by
    unfold StartedOnce
    decide
  have lateOnce : StartedOnce lateFaultMoves := by
    unfold StartedOnce
    decide
  have failed : sample.FailedServing faultMoves := by
    unfold FailedServing
    decide +kernel
  exact ⟨once, faults_are_final _ _ _ _ once, failed, by decide +kernel, by decide +kernel,
    lateOnce, faults_are_final _ _ _ _ lateOnce, by decide +kernel, by decide +kernel⟩

end Site
end ViewerCircuit
