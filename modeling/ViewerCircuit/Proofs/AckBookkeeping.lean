import Mathlib.Data.List.Nodup
import ViewerCircuit.Proofs.StepTraffic

/-!
# Bookkeeping of acks

The set of numbers that wait for an ack agrees with the queue of them, no number waits twice, and a
packet that was acked is forgotten. Whatever a circuit does, the acks that it owes are only added to
at one end and taken at the other.
-/
namespace ViewerCircuit

open Relation (ReflTransGen)

namespace OwedAcks

structure Consistent (limit : Nat) (o : OwedAcks) : Prop where
  limit_eq : o.limit = limit
  nodup : o.waiting.Nodup
  mem_iff : ∀ s, s ∈ o.members ↔ s ∈ o.waiting

variable {o : OwedAcks} {limit : Nat}

theorem Consistent.accept (h : o.Consistent limit) (sequence : UInt32) :
    (o.accept sequence).2.Consistent limit := by
  unfold OwedAcks.accept
  split
  · exact h
  split
  · exact h
  next hmem _ =>
  have hnew : sequence ∉ o.waiting := by
    intro hw
    exact hmem (by simpa using (h.mem_iff sequence).2 hw)
  refine ⟨h.limit_eq, ?_, ?_⟩
  · exact List.Nodup.append h.nodup (List.nodup_singleton sequence) (by simpa using hnew)
  · intro s
    simp only [List.mem_cons, List.mem_append, h.mem_iff s, List.not_mem_nil, or_false]
    exact or_comm

theorem Consistent.take (h : o.Consistent limit) (max : Nat) :
    (o.take max).2.Consistent limit := by
  have hsplit : (o.waiting.take max ++ o.waiting.drop max).Nodup := by
    rw [List.take_append_drop]
    exact h.nodup
  refine ⟨h.limit_eq, (List.drop_sublist max o.waiting).nodup h.nodup, ?_⟩
  intro s
  have hw : s ∈ o.waiting ↔ s ∈ o.waiting.take max ∨ s ∈ o.waiting.drop max := by
    rw [← List.mem_append, List.take_append_drop]
  have hd : s ∈ o.waiting.take max → s ∉ o.waiting.drop max := by
    intro ht hd
    exact (List.nodup_append.1 hsplit).2.2 s ht s hd rfl
  simp only [OwedAcks.take, List.mem_filter, h.mem_iff, hw, Bool.not_eq_eq_eq_not, Bool.not_true,
    List.contains_eq_mem, decide_eq_false_iff_not]
  constructor
  · rintro ⟨ht | hd, hn⟩
    · exact absurd ht hn
    · exact hd
  · intro hdrop
    exact ⟨.inr hdrop, fun ht => hd ht hdrop⟩

theorem Consistent.piggyback (h : o.Consistent limit) (kind : MessageKind) (room : Nat) :
    (o.piggyback kind room).2.Consistent limit := by
  unfold OwedAcks.piggyback
  split
  · exact h
  split
  · exact h
  · exact h.take _

inductive Used : OwedAcks → OwedAcks → Prop
  | accept (o sequence) : Used o (o.accept sequence).2
  | take (o max) : Used o (o.take max).2
  | piggyback (o kind room) : Used o (o.piggyback kind room).2

theorem Used.consistent {u : OwedAcks} (h : Used o u) (ho : o.Consistent limit) :
    u.Consistent limit := by
  cases h with
  | accept => exact ho.accept _
  | take => exact ho.take _
  | piggyback => exact ho.piggyback _ _

theorem Used.settings {u : OwedAcks} (h : Used o u) :
    u.appendThreshold = o.appendThreshold ∧ u.maxAppended = o.maxAppended := by
  cases h with
  | accept =>
    unfold OwedAcks.accept
    split
    · exact ⟨rfl, rfl⟩
    · split <;> exact ⟨rfl, rfl⟩
  | take => exact ⟨rfl, rfl⟩
  | piggyback =>
    unfold OwedAcks.piggyback
    split
    · exact ⟨rfl, rfl⟩
    · split <;> exact ⟨rfl, rfl⟩

/-- The acks that a circuit with this configuration may ever owe. -/
def Reached (config : Config) (o : OwedAcks) : Prop :=
  ReflTransGen Used (AckState.ofConfig config).owed o

theorem consistent_of_used {u : OwedAcks} (h : ReflTransGen Used o u) (ho : o.Consistent limit) :
    u.Consistent limit := by
  induction h with
  | refl => exact ho
  | tail _ used ih => exact used.consistent ih

theorem Reached.consistent {config : Config} (h : o.Reached config) :
    o.Consistent config.maxPendingAcks :=
  consistent_of_used h ⟨rfl, List.nodup_nil, fun _ => Iff.rfl⟩

theorem Reached.settings {config : Config} (h : o.Reached config) :
    o.appendThreshold = config.appendAckThreshold ∧ o.maxAppended = config.maxAppendedAcks := by
  induction h with
  | refl => exact ⟨rfl, rfl⟩
  | tail _ used ih => exact ⟨used.settings.1.trans ih.1, used.settings.2.trans ih.2⟩

end OwedAcks

namespace AckState

variable {a : AckState}

theorem acked_cons (sequence : UInt32) (sequences : List UInt32) :
    a.acked (sequence :: sequences) =
      { a with inFlight := (a.inFlight.remove sequence).2 }.acked sequences := rfl

theorem contains_acked_of_not {other : UInt32} (h : a.inFlight.contains other = false)
    (sequences : List UInt32) : (a.acked sequences).inFlight.contains other = false := by
  induction sequences generalizing a with
  | nil => exact h
  | cons sequence sequences ih =>
    rw [acked_cons]
    exact ih (InFlight.contains_remove_of_not h sequence)

/-- What was acked is in flight no more. -/
theorem contains_acked {sequences : List UInt32} {sequence : UInt32} (h : sequence ∈ sequences) :
    (a.acked sequences).inFlight.contains sequence = false := by
  induction sequences generalizing a with
  | nil => cases h
  | cons first sequences ih =>
    rw [acked_cons]
    rcases List.mem_cons.1 h with rfl | h
    · exact contains_acked_of_not (InFlight.contains_remove_self sequence) sequences
    · exact ih h

theorem arrive_inFlight (p : Packet) : (a.arrive p).2.inFlight = (a.acked p.acked).inFlight := by
  unfold arrive
  dsimp only
  split <;> rfl

theorem arrive_owed (p : Packet) : (a.arrive p).2.owed =
    if p.flags.reliable then (a.owed.accept p.sequence).2 else a.owed := by
  unfold arrive
  dsimp only
  split <;> rfl

theorem depart_owed (now room : Nat) (o : Outgoing) : (a.depart now room o).2.owed =
    if o.delivery = .resend then a.owed else (a.owed.piggyback o.kind room).2 := by
  unfold depart
  dsimp only
  split <;> rfl

end AckState

namespace Traffic

variable {plain : Prop} {now limit : Nat} {t u : Traffic}

theorem Step.owed (h : Step plain now t u) :
    ReflTransGen OwedAcks.Used t.ackState.owed u.ackState.owed := by
  have departs : ∀ now room o, ReflTransGen OwedAcks.Used t.ackState.owed
      (t.ackState.depart now room o).2.owed := by
    intro now room o
    rw [AckState.depart_owed]
    split
    · exact .refl
    · exact .single (.piggyback _ o.kind room)
  cases h with
  | queueAcks | loseAcks => exact .single (.take _ _)
  | process =>
    show ReflTransGen _ _ (t.ackState.arrive _).2.owed
    rw [AckState.arrive_owed]
    split
    · exact .single (.accept _ _)
    · exact .refl
  | release | flush => exact departs _ _ _
  | _ => exact .refl

theorem Reachable.owed {timed : Prop} {start : Traffic} {starts clock : Nat}
    (h : Reachable plain timed start starts clock t) :
    ReflTransGen OwedAcks.Used start.ackState.owed t.ackState.owed := by
  induction h with
  | refl => exact .refl
  | started _ ih => exact ih
  | wait _ _ ih => exact ih
  | step _ step ih => exact ih.trans step.owed

theorem Reachable.consistent {timed : Prop} {start : Traffic} {starts clock : Nat}
    (h : Reachable plain timed start starts clock t)
    (hs : start.ackState.owed.Consistent limit) : t.ackState.owed.Consistent limit :=
  OwedAcks.consistent_of_used h.owed hs

end Traffic

/-- The acks that are owed in any run. -/
theorem Site.follow_owed (config : Config) (viewer : Viewer) (remote : Address) (since : Nat)
    (moves : List Move) : ((opened config viewer remote since).follow
      moves).circuit.ackState.owed.Reached config := by
  obtain ⟨last, h⟩ := follow_traffic config viewer remote since moves
  exact h.owed

end ViewerCircuit
