import ViewerCircuit.Proofs.AppendedAcks
import ViewerCircuit.Proofs.Outbound

/-!
# Unsent packets

The packets that are not yet on the wire, wherever they are, and those that may go there again. If
callers leave the acks to the circuit, all of them can take acks along.
-/
namespace ViewerCircuit

open scoped List

structure Outgoing.Loadable (o : Outgoing) : Prop where
  bare : Datagram.IsBare o.bytes
  unreliable : o.kind = .packetAck → o.delivery = .unreliable

namespace PerCategory

variable {α : Type}

theorem flatten_set (p : PerCategory (List α)) (c : Category) (l : List α) :
    (p.set c l).toList.flatten ++ p.get c ~ p.toList.flatten ++ l := by
  classical
  apply List.perm_iff_count.2
  intro a
  simp only [toList, Category.all, List.map_cons, List.map_nil, List.flatten_cons,
    List.flatten_nil, List.count_append, List.count_nil]
  cases c <;> simp [get_set_of_ne] <;> omega

theorem flatten_push (p : PerCategory (List α)) (c : Category) (a : α) :
    (p.set c (p.get c ++ [a])).toList.flatten ~ a :: p.toList.flatten := by
  classical
  have hset := p.flatten_set c (p.get c ++ [a])
  apply List.perm_iff_count.2
  intro b
  have hcount := hset.count_eq b
  simp only [List.count_append, List.count_cons, List.count_nil] at hcount ⊢
  omega

theorem flatten_pop {p : PerCategory (List α)} {c : Category} {a : α} {rest : List α}
    (h : p.get c = a :: rest) : p.toList.flatten ~ a :: (p.set c rest).toList.flatten := by
  classical
  have hset := p.flatten_set c rest
  rw [h] at hset
  apply List.perm_iff_count.2
  intro b
  have hcount := hset.count_eq b
  simp only [List.count_append, List.count_cons] at hcount ⊢
  omega

end PerCategory

namespace Traffic

variable {plain : Prop} {now : Nat} {t u : Traffic}

def unsent (t : Traffic) : List Outgoing := t.leftover?.getD [] ++ t.outgoing.toList.flatten

theorem unsent_push (o : Outgoing) (t : Traffic) : (t.push o).unsent ~ o :: t.unsent :=
  ((t.outgoing.flatten_push o.category o).append_left _).trans List.perm_middle

theorem unsent_release {c : Category} {o : Outgoing} {rest : List Outgoing}
    (h : t.outgoing.get c = o :: rest) :
    t.unsent ~ o :: { t with outgoing := t.outgoing.set c rest }.unsent :=
  ((PerCategory.flatten_pop h).append_left _).trans List.perm_middle

structure Stocked (t : Traffic) : Prop where
  unsent : ∀ o ∈ t.unsent, o.Loadable
  inFlight : ∀ e ∈ t.ackState.inFlight.kept, Datagram.IsBare e.2.bytes ∧ e.2.kind ≠ .packetAck
  appended_le : t.ackState.owed.maxAppended ≤ 255

theorem Stocked.shrunk (ht : t.Stocked) (hu : ∀ o ∈ u.unsent, o ∈ t.unsent)
    (hk : ∀ e ∈ u.ackState.inFlight.kept, e ∈ t.ackState.inFlight.kept)
    (hm : u.ackState.owed.maxAppended = t.ackState.owed.maxAppended) : u.Stocked :=
  ⟨fun o ho => ht.unsent o (hu o ho), fun e he => ht.inFlight e (hk e he), hm ▸ ht.appended_le⟩

theorem Stocked.kept (ht : t.Stocked) (hu : u.unsent = t.unsent) (ha : u.ackState = t.ackState) :
    u.Stocked :=
  ht.shrunk (fun _ ho => hu ▸ ho) (fun _ he => ha ▸ he) (by rw [ha])

theorem Stocked.pushed {o : Outgoing} (ht : t.Stocked) (ho : o.Loadable) (e : Effect) :
    ((t.push o).log e).Stocked := by
  refine ⟨?_, ht.inFlight, ht.appended_le⟩
  intro p hp
  rcases List.mem_cons.1 ((unsent_push o t).mem_iff.1 hp) with rfl | hp
  · exact ho
  · exact ht.unsent p hp

theorem Stocked.transmitted {o : Outgoing} {room : Nat} (ht : t.Stocked) (ho : o ∈ t.unsent)
    (hu : ∀ p ∈ u.unsent, p ∈ t.unsent)
    (ha : u.ackState = (t.ackState.depart now room o).2) : u.Stocked := by
  have loadable := ht.unsent o ho
  refine ⟨fun p hp => ht.unsent p (hu p hp), ?_, ?_⟩
  · intro e he
    rw [ha] at he
    rcases AckState.kept_of_depart he with he | ⟨hd, -, rfl⟩
    · exact ht.inFlight e he
    · refine ⟨loadable.bare, fun hk => ?_⟩
      have := loadable.unreliable hk
      simp [hd] at this
  · rw [ha, AckState.depart_maxAppended]
    exact ht.appended_le

/-- Nothing is collected from an empty queue. -/
theorem unsent_collect {i : AttendantId} {stage : Stage} (joined : Bool) (remaining : List Outgoing)
    (hl : t.attendants.length ≤ 1) (hs : t.stage? i = some stage) :
    ({ t with incoming := [], outgoing := .all [] }.withRemaining i joined remaining).unsent =
      remaining := by
  have hnew := leftover_withRemaining (t := { t with incoming := [], outgoing := .all [] })
    joined remaining hl hs
  rw [unsent, hnew, Option.getD_some]
  show remaining ++ (PerCategory.all []).toList.flatten = remaining
  rw [PerCategory.flatten_all_nil, List.append_nil]

theorem unsent_flushing {i : AttendantId} {joined : Bool} {remaining : List Outgoing}
    (hl : t.attendants.length ≤ 1) (hs : t.stage? i = some (.flushing joined remaining)) :
    t.unsent = remaining ++ t.outgoing.toList.flatten := by
  rw [unsent, leftover_of_stage hl hs]
  rfl

theorem unsent_flush {i : AttendantId} {joined : Bool} {remaining : List Outgoing} {stage : Stage}
    {room : Nat} {destination : Address} {linkUp : Bool} {o : Outgoing}
    (hl : t.attendants.length ≤ 1) (hs : t.stage? i = some stage) :
    ((t.transmit now room destination linkUp o).withRemaining i joined remaining).unsent =
      remaining ++ t.outgoing.toList.flatten := by
  have hnew := leftover_withRemaining (t := t.transmit now room destination linkUp o)
    joined remaining hl hs
  rw [unsent, hnew]
  rfl

theorem unsent_attend {i : AttendantId} {f : Attendant → Attendant}
    (h : ∀ a, t.attendants[i]? = some a →
      (f a).stage.leftover?.getD [] = a.stage.leftover?.getD []) :
    (t.attend i f).unsent = t.unsent := by
  unfold unsent leftover? attend
  cases hat : t.attendants with
  | nil => simp
  | cons a rest =>
    cases i with
    | zero => simpa using h a (by simp [hat])
    | succ i => simp

/-- An attendant takes packets from the queue only to leave. -/
theorem unsent_moved {i : AttendantId} {f : Attendant → Attendant} {stage : Stage}
    (hs : t.stage? i = some stage) (hu : u.attendants = t.attendants) (ho : u.outgoing = t.outgoing)
    (hf : ∀ a, (f a).stage.leftover?.getD [] = stage.leftover?.getD []) :
    (u.attend i f).unsent = t.unsent := by
  rw [unsent_attend fun a ha => ?_]
  · rw [unsent, leftover?, hu, ho, unsent, leftover?]
  · have hstage : a.stage = stage := by simpa [stage?, ← hu, ha] using hs
    rw [hf, hstage]

theorem Step.stocked (h : Step True now t u) (ht : t.Stocked) (hl : t.attendants.length ≤ 1) :
    u.Stocked := by
  cases h with
  | queue hp hd ho =>
    obtain ⟨hb, hk⟩ := ho trivial
    exact ht.pushed ⟨hb, fun h => absurd h hk⟩ _
  | queueAcks hp hd hk hb ho =>
    refine Stocked.pushed (t := { t with ackState.owed := _ }) ?_ ⟨hb, fun _ => hd⟩ _
    exact ht.shrunk (fun _ => id) (fun _ => id) rfl
  | loseAcks => exact ht.shrunk (fun _ => id) (fun _ => id) rfl
  | refresh =>
    refine ⟨ht.unsent, ?_, ht.appended_le⟩
    intro e he
    obtain ⟨e, hm, rfl⟩ := List.mem_map.1 he
    obtain ⟨hb, hk⟩ := ht.inFlight e hm
    dsimp only
    split
    · exact ⟨hb.asResent, hk⟩
    · exact ⟨hb, hk⟩
  | requeue hd hk =>
    obtain ⟨e, he, -, hbytes, hkind⟩ := hk
    obtain ⟨hb, hk⟩ := ht.inFlight e he
    exact ht.pushed ⟨hbytes ▸ hb, fun h => absurd (hkind.trans h) hk⟩ _
  | process =>
    refine ht.shrunk (fun _ => id) (fun e he => ?_) ?_
    · rw [show (decide _ _ _).ackState = (t.ackState.arrive _).2 from rfl,
        AckState.arrive_inFlight] at he
      exact (AckState.kept_of_acked he).1
    · show (t.ackState.arrive _).2.owed.maxAppended = _
      rw [AckState.arrive_owed]
      split
      · exact (OwedAcks.Used.accept _ _).settings.2
      · rfl
  | release hs hc ho =>
    have hperm := unsent_release ho
    exact ht.transmitted (hperm.mem_iff.2 List.mem_cons_self)
      (fun p hp => hperm.mem_iff.2 (List.mem_cons_of_mem _ hp)) rfl
  | flush hs =>
    have hold := unsent_flushing hl hs
    refine ht.transmitted (hold ▸ List.mem_cons_self) (fun p hp => ?_) rfl
    rw [unsent_flush hl hs] at hp
    rw [hold]
    rcases List.mem_append.1 hp with hp | hp
    · split at hp
      · exact List.mem_append_left _ (List.mem_cons_of_mem _ hp)
      · cases hp
    · exact List.mem_append_right _ hp
  | collect hs hw =>
    refine ht.shrunk (fun o ho => ?_) (fun _ => id) rfl
    rw [unsent_collect _ _ hl hs] at ho
    split at ho
    · cases ho
    · exact List.mem_append_right _ ho
  | authorize hs | authorizeLate hs | refuse hs | join hs | poison hs | leave hs =>
    exact ht.kept (unsent_moved hs rfl rfl fun _ => rfl) rfl
  | stopAckTimer | stopProbeTimer => exact ht.kept (unsent_attend fun _ _ => rfl) rfl
  | _ => exact ht.kept rfl rfl

end Traffic
end ViewerCircuit
