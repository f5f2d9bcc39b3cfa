import ViewerCircuit.Proofs.Piggybacking

/-!
# Calls on owed acks

Acks are accepted at one end of a queue and taken at the other, appended to packets or for packets
of their own. Whatever calls are made: what was taken and what waits is what was accepted, in that
order, and a number that waits is refused until it is taken.
-/
namespace ViewerCircuit

open Relation (ReflTransGen)

namespace OwedAcks

inductive Op where
  | accept (sequence : UInt32)
  | piggyback (kind : MessageKind) (room : Nat)
  | take (max : Nat)

def perform (o : OwedAcks) : Op → OwedAcks
  | .accept sequence => (o.accept sequence).2
  | .piggyback kind room => (o.piggyback kind room).2
  | .take max => (o.take max).2

def after (o : OwedAcks) (ops : List Op) : OwedAcks := ops.foldl perform o

def takenBy (o : OwedAcks) : Op → List UInt32
  | .accept _ => []
  | .piggyback kind room => (o.piggyback kind room).1
  | .take max => (o.take max).1

def acceptedBy (o : OwedAcks) : Op → List UInt32
  | .accept sequence => if (o.accept sequence).1 then [sequence] else []
  | _ => []

def taken (o : OwedAcks) : List Op → List UInt32
  | [] => []
  | op :: ops => o.takenBy op ++ (o.perform op).taken ops

def accepted (o : OwedAcks) : List Op → List UInt32
  | [] => []
  | op :: ops => o.acceptedBy op ++ (o.perform op).accepted ops

variable {o : OwedAcks} {limit : Nat} {sequence : UInt32}

theorem used_perform (o : OwedAcks) (op : Op) : Used o (o.perform op) := by
  cases op with
  | accept sequence => exact .accept o sequence
  | piggyback kind room => exact .piggyback o kind room
  | take max => exact .take o max

theorem used_after (o : OwedAcks) (ops : List Op) : ReflTransGen Used o (o.after ops) := by
  induction ops generalizing o with
  | nil => exact .refl
  | cons op ops ih => exact .head (o.used_perform op) (ih _)

theorem settings_after (o : OwedAcks) (ops : List Op) :
    (o.after ops).appendThreshold = o.appendThreshold ∧
      (o.after ops).maxAppended = o.maxAppended := by
  have hused := o.used_after ops
  generalize o.after ops = u at hused
  induction hused with
  | refl => exact ⟨rfl, rfl⟩
  | tail _ used ih => exact ⟨used.settings.1.trans ih.1, used.settings.2.trans ih.2⟩

/-- One call adds at the end what it accepts, and removes from the front what it takes. -/
theorem takenBy_waiting (o : OwedAcks) (op : Op) :
    o.takenBy op ++ (o.perform op).waiting = o.waiting ++ o.acceptedBy op := by
  cases op with
  | accept sequence => exact accept_waiting sequence
  | piggyback kind room => exact (piggyback_waiting kind room).trans (List.append_nil _).symm
  | take max => exact (take_waiting max).trans (List.append_nil _).symm

theorem taken_waiting (o : OwedAcks) (ops : List Op) :
    o.taken ops ++ (o.after ops).waiting = o.waiting ++ o.accepted ops := by
  induction ops generalizing o with
  | nil => exact (List.append_nil _).symm
  | cons op ops ih =>
    calc o.takenBy op ++ (o.perform op).taken ops ++ ((o.perform op).after ops).waiting
        = o.takenBy op ++ ((o.perform op).waiting ++ (o.perform op).accepted ops) := by
          rw [List.append_assoc, ih]
      _ = o.waiting ++ (o.acceptedBy op ++ (o.perform op).accepted ops) := by
          rw [← List.append_assoc, takenBy_waiting, List.append_assoc]

/-- A number is accepted if it does not wait and there is room for it. -/
theorem Consistent.accept_iff (h : o.Consistent limit) :
    (o.accept sequence).1 = true ↔ sequence ∉ o.waiting ∧ o.count < limit := by
  rw [← h.mem_iff, ← h.limit_eq]
  unfold OwedAcks.accept
  split
  · next hwaits =>
    have hmem : sequence ∈ o.members := List.contains_iff_mem.1 hwaits
    simp [hmem]
  next hnew =>
  have hmem : sequence ∉ o.members := mt List.contains_iff_mem.2 hnew
  split
  · next hfull => simp [Nat.not_lt.2 hfull]
  · next hroom => simpa [hmem] using hroom

theorem accept_of_refused (h : (o.accept sequence).1 = false) : (o.accept sequence).2 = o := by
  unfold accept at h ⊢
  split
  · rfl
  next hnew =>
  rw [if_neg hnew] at h
  split
  · rfl
  · next hroom =>
    rw [if_neg hroom] at h
    cases h

theorem count_perform_le (h : o.Consistent limit) (hc : o.count ≤ limit) (op : Op) :
    (o.perform op).count ≤ limit := by
  have hsplit := congrArg List.length (o.takenBy_waiting op)
  rw [List.length_append, List.length_append] at hsplit
  have hadded : o.count + (o.acceptedBy op).length ≤ limit := by
    cases op with
    | accept sequence =>
      rw [acceptedBy]
      split
      · next haccepted => exact (h.accept_iff.1 haccepted).2
      · exact hc
    | piggyback kind room => exact hc
    | take max => exact hc
  unfold count at hadded ⊢
  omega

theorem count_after_le (h : o.Consistent limit) (hc : o.count ≤ limit) (ops : List Op) :
    (o.after ops).count ≤ limit := by
  induction ops generalizing o with
  | nil => exact hc
  | cons op ops ih => exact ih ((o.used_perform op).consistent h) (count_perform_le h hc op)

/-- Taking a number that waits, and nothing else, makes room for it again. -/
theorem Consistent.accept_perform_iff (h : o.Consistent limit) (hc : o.count ≤ limit)
    (hw : sequence ∈ o.waiting) (op : Op) :
    ((o.perform op).accept sequence).1 = true ↔ sequence ∈ o.takenBy op := by
  have hsplit := o.takenBy_waiting op
  rw [((o.used_perform op).consistent h).accept_iff]
  constructor
  · rintro ⟨hgone, -⟩
    have hmem : sequence ∈ o.takenBy op ++ (o.perform op).waiting :=
      hsplit ▸ List.mem_append_left _ hw
    exact (List.mem_append.1 hmem).resolve_right hgone
  · intro ht
    -- A call that takes something accepts nothing, so it splits the queue in two.
    have hnothing : o.acceptedBy op = [] := by
      cases op with
      | accept sequence => cases ht
      | piggyback kind room => rfl
      | take max => rfl
    rw [hnothing, List.append_nil] at hsplit
    have hdistinct := h.nodup
    rw [← hsplit] at hdistinct
    refine ⟨fun hstays => (List.nodup_append.1 hdistinct).2.2 _ ht _ hstays rfl, ?_⟩
    have hlength := congrArg List.length hsplit
    have hsome := List.length_pos_of_mem ht
    rw [List.length_append] at hlength
    unfold count at hc ⊢
    omega

/-- Nothing is appended to packets of these kinds, nor while too many acks wait. -/
def Abstains (o : OwedAcks) (appendThreshold : Nat) (kind : MessageKind) : Prop :=
  kind ∈ [.packetAck, .logoutRequest, .logoutReply] ∨ appendThreshold < o.count

theorem piggyback_abstains {kind : MessageKind} (h : o.Abstains o.appendThreshold kind)
    (room : Nat) : o.piggyback kind room = ([], o) := by
  rcases h with hkind | hmany
  · rw [piggyback, if_pos (refusesAcks_iff.2 hkind)]
  · rw [piggyback, if_pos hmany, ite_self]

theorem piggyback_takes {kind : MessageKind} (h : ¬ o.Abstains o.appendThreshold kind)
    (room : Nat) : o.piggyback kind room = o.take (min (min o.maxAppended room) o.count) := by
  obtain ⟨hkind, hfew⟩ := not_or.1 h
  rw [take_min, piggyback, if_neg (mt refusesAcks_iff.1 hkind), if_neg hfew]

/-- What calls make of the acks that are owed, where `accepted` and `taken` are all those that were
accepted and taken until now. A number that waits goes on doing so until it is taken, and is
acceptable again from then on. -/
structure Conserves (limit appendThreshold maxAppended : Nat) (accepted taken : List UInt32)
    (o : OwedAcks) : Prop where
  conserved : taken ++ o.waiting = accepted
  distinct : o.waiting.Nodup
  members : ∀ s, s ∈ o.members ↔ s ∈ o.waiting
  bounded : o.count ≤ limit
  accepts_iff : ∀ s, (o.accept s).1 = true ↔ s ∉ o.waiting ∧ o.count < limit
  added : ∀ s, (o.accept s).1 = true → (o.accept s).2.waiting = o.waiting ++ [s]
  refused : ∀ s, (o.accept s).1 = false → (o.accept s).2 = o
  waits : ∀ s ∈ o.waiting, ∀ later, s ∈ o.taken later ∨ s ∈ (o.after later).waiting
  again_iff : ∀ s ∈ o.waiting, ∀ op, ((o.perform op).accept s).1 = true ↔ s ∈ o.takenBy op
  oldest : ∀ max, (o.take max).1 = o.waiting.take (min max o.count) ∧
    (o.take max).2.waiting = o.waiting.drop (min max o.count)
  abstains : ∀ kind, o.Abstains appendThreshold kind → ∀ room, o.piggyback kind room = ([], o)
  appended : ∀ kind, ¬ o.Abstains appendThreshold kind → ∀ room,
    (o.piggyback kind room).1 = o.waiting.take (min (min maxAppended room) o.count) ∧
      (o.piggyback kind room).2.waiting = o.waiting.drop (min (min maxAppended room) o.count)

/-- Over any calls with any arguments, no owed ack is lost, doubled or put before another one. -/
theorem calls_conserve (limit appendThreshold maxAppended : Nat) (ops : List Op) :
    Conserves limit appendThreshold maxAppended
      (({ limit, appendThreshold, maxAppended } : OwedAcks).accepted ops)
      (({ limit, appendThreshold, maxAppended } : OwedAcks).taken ops)
      (({ limit, appendThreshold, maxAppended } : OwedAcks).after ops) := by
  obtain ⟨o, ho⟩ : ∃ o : OwedAcks, { limit, appendThreshold, maxAppended } = o := ⟨_, rfl⟩
  have start : o.Consistent limit := ho ▸ ⟨rfl, List.nodup_nil, fun _ => Iff.rfl⟩
  have empty : o.waiting = [] := ho ▸ rfl
  have consistent := consistent_of_used (o.used_after ops) start
  have bounded : (o.after ops).count ≤ limit := by
    refine count_after_le start ?_ ops
    rw [count, empty]
    exact Nat.zero_le limit
  obtain ⟨hthreshold, hmost⟩ := o.settings_after ops
  rw [show o.appendThreshold = appendThreshold from ho ▸ rfl] at hthreshold
  rw [show o.maxAppended = maxAppended from ho ▸ rfl] at hmost
  rw [ho]
  constructor
  · rw [taken_waiting, empty, List.nil_append]
  · exact consistent.nodup
  · exact consistent.mem_iff
  · exact bounded
  · exact fun s => consistent.accept_iff
  · intro s hs
    rw [accept_waiting, if_pos hs]
  · exact fun s hs => accept_of_refused hs
  · intro s hs later
    rw [← List.mem_append, taken_waiting]
    exact List.mem_append_left _ hs
  · exact fun s hs op => consistent.accept_perform_iff bounded hs op
  · intro max
    rw [← take_min]
    exact ⟨rfl, rfl⟩
  · intro kind habstains room
    rw [← hthreshold] at habstains
    exact piggyback_abstains habstains room
  · intro kind hfree room
    rw [← hthreshold] at hfree
    rw [piggyback_takes hfree, hmost]
    exact ⟨rfl, rfl⟩

/-- The third number finds no room, and the first one is taken and accepted anew. -/
example : ({ limit := 2, appendThreshold := 2, maxAppended := 1 } : OwedAcks).taken
    [.accept 7, .accept 8, .accept 9, .piggyback .packetAck 5, .piggyback .alertMessage 5,
      .accept 7, .take 9] = [7, 8, 7] := by
  decide

end OwedAcks
end ViewerCircuit
