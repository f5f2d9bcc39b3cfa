import ViewerCircuit.Proofs.InFlightCalls

/-!
# The accounts of the packets in flight

How many packets are kept and how many bytes they have is counted along with the calls that keep
and forget them. The counts are right after any run of calls, and a packet is forgotten only when
its ack comes, or when it was sent before all others and a new one needs its place.
-/
namespace ViewerCircuit

namespace InFlight

variable {f : InFlight} {limit : Nat}

/-- What comes of a packet that is to be kept. It is refused if another one has its number; if as
many packets are kept as may be, one of those that were sent first gives way to it. -/
inductive Admission (limit : Nat) (f : InFlight) (sequence : UInt32) (p : KeptPacket) :
    Bool × InFlight → Prop
  | refused : f.contains sequence = true → Admission limit f sequence p (false, f)
  | added {g : InFlight} : f.contains sequence = false → f.count < limit →
      g.bytes = f.bytes + p.bytes.length →
      (∀ id, g.kept.get? id = if id = sequence then some p else f.kept.get? id) →
      Admission limit f sequence p (true, g)
  | replaced {g : InFlight} {first : UInt32} {q : KeptPacket} : f.contains sequence = false →
      f.count = limit → f.kept.get? first = some q →
      (∀ id r, f.kept.get? id = some r → q.sentAt ≤ r.sentAt) →
      g.bytes + q.bytes.length = f.bytes + p.bytes.length →
      (∀ id, g.kept.get? id =
        if id = sequence then some p else if id = first then none else f.kept.get? id) →
      Admission limit f sequence p (true, g)

inductive Settlement (f : InFlight) (sequence : UInt32) : Bool × InFlight → Prop
  | unknown : f.contains sequence = false → Settlement f sequence (false, f)
  | settled {g : InFlight} {p : KeptPacket} : f.kept.get? sequence = some p →
      g.bytes + p.bytes.length = f.bytes →
      (∀ id, g.kept.get? id = if id = sequence then none else f.kept.get? id) →
      Settlement f sequence (true, g)

/-- The counts are those of the packets that are kept, and each call accounts for what it keeps and
forgets. -/
structure Accounts (limit : Nat) (f : InFlight) : Prop where
  distinct : f.kept.keys.Nodup
  bytes_eq : f.bytes = (f.kept.map fun e => e.2.bytes.length).sum
  count_le : f.count ≤ limit
  tracked : ∀ sequence kind bytes category now,
    Admission limit f sequence ⟨kind, bytes, category, now, 0⟩
      (f.track sequence kind bytes category now)
  acked : ∀ sequence, Settlement f sequence (f.remove sequence)
  retransmitted : ∀ now, (f.retransmit now).2.bytes = f.bytes ∧
    ∀ id, (f.retransmit now).2.contains id = f.contains id
  oldest_kept : f.kept ≠ [] → f.contains f.oldest = true
  oldest_le : ∀ id, f.contains id = true → f.oldest ≤ id
  oldest_zero : f.oldest = 0 ↔ f.kept = [] ∨ f.contains 0 = true

structure Bounded (limit : Nat) (f : InFlight) : Prop extends f.Balanced where
  limit_eq : f.limit = limit
  count_le : f.count ≤ limit

/-- One packet less is kept behind an ack that settles one. -/
theorem count_remove (h : f.kept.keys.Nodup) {sequence : UInt32} {p : KeptPacket}
    (hp : f.kept.get? sequence = some p) : (f.remove sequence).2.count + 1 = f.count := by
  rw [count, kept_remove, count, (Table.perm_erase h hp).length_eq, List.length_cons]

theorem count_remove_le (sequence : UInt32) : (f.remove sequence).2.count ≤ f.count := by
  rw [count, kept_remove]
  exact List.length_filter_le _ _

namespace Bounded

theorem empty (resendTimeout limit : Nat) : Bounded limit { resendTimeout, limit } :=
  ⟨.empty resendTimeout limit, rfl, Nat.zero_le _⟩

theorem count_evict (h : f.Bounded limit) (hl : 0 < limit) : f.evict.count < limit := by
  rcases evict_cases f with ⟨heq, hroom | hnone⟩ | ⟨first, p, -, hmem, -, heq⟩
  · rw [heq, ← h.limit_eq]
    exact hroom
  · rw [heq, count, hnone]
    exact hl
  · have := count_remove h.distinct (Table.get?_of_mem h.distinct hmem)
    have := h.count_le
    rw [heq]
    omega

theorem perform (h : f.Bounded limit) (hl : 0 < limit) (op : Op) :
    (f.perform op).Bounded limit := by
  refine ⟨h.toBalanced.perform op, ?_, ?_⟩
  · rw [(settings_perform op).2, h.limit_eq]
  · cases op with
    | track sequence kind bytes category now =>
      cases hc : f.contains sequence with
      | true =>
        rw [InFlight.perform, track_of_contains hc]
        exact h.count_le
      | false =>
        rw [InFlight.perform, track_of_new hc, count,
          Table.put_of_not_contains (contains_evict_of_not hc), List.length_append]
        exact h.count_evict hl
    | ack sequence => exact (count_remove_le sequence).trans h.count_le
    | retransmit now =>
      rw [InFlight.perform, count, kept_retransmit, List.length_map]
      exact h.count_le

theorem after (h : f.Bounded limit) (hl : 0 < limit) (ops : List Op) :
    (f.after ops).Bounded limit := by
  induction ops generalizing f with
  | nil => exact h
  | cons op ops ih => exact ih (h.perform hl op)

variable (h : f.Bounded limit)

include h in
theorem admission (hl : 0 < limit) (sequence : UInt32) (kind : MessageKind) (bytes : Bytes)
    (category : Category) (now : Nat) :
    Admission limit f sequence ⟨kind, bytes, category, now, 0⟩
      (f.track sequence kind bytes category now) := by
  cases hc : f.contains sequence with
  | true =>
    rw [track_of_contains hc]
    exact .refused hc
  | false =>
    rw [track_of_new hc]
    have hroom := h.count_evict hl
    rcases evict_cases f with ⟨heq, -⟩ | ⟨first, q, hfull, hmem, hmin, heq⟩
    · rw [heq] at hroom ⊢
      exact .added hc hroom rfl fun id => Table.get?_put _ _ _
    · have hq := Table.get?_of_mem h.distinct hmem
      rw [h.limit_eq] at hfull
      rw [heq]
      refine .replaced hc (h.count_le.antisymm hfull) hq
        (fun id r hr => hmin (id, r) (Table.mem_of_get? hr)) ?_ fun id => ?_
      · have := (h.bytes_remove hq).1
        dsimp only
        omega
      · rw [Table.get?_put, kept_remove, Table.get?_erase]

include h in
theorem settlement (sequence : UInt32) : Settlement f sequence (f.remove sequence) := by
  cases hp : f.kept.get? sequence with
  | none =>
    have hnew := contains_eq_false.2 hp
    rw [remove_of_not hnew]
    exact .unknown hnew
  | some p =>
    have hbytes := (h.bytes_remove hp).1
    rw [remove_of_get? hp] at hbytes ⊢
    exact .settled hp hbytes fun id => Table.get?_erase _ _

end Bounded

theorem Accounts.of_bounded (h : f.Bounded limit) (hl : 0 < limit) : f.Accounts limit where
  distinct := h.distinct
  bytes_eq := h.bytes
  count_le := h.count_le
  tracked := h.admission hl
  acked := h.settlement
  retransmitted now := ⟨rfl, contains_retransmit now⟩
  oldest_kept hsome := contains_iff_mem.2 (InFlight.oldest_le (mt List.map_eq_nil_iff.1 hsome)).1
  oldest_le id hid := by
    have hmem := contains_iff_mem.1 hid
    exact (InFlight.oldest_le (List.ne_nil_of_mem hmem)).2 id hmem
  oldest_zero := oldest_eq_zero

/-- The accounts are right after any calls, at whatever times they are made. -/
theorem accounts_hold (resendTimeout : Nat) (hl : 0 < limit) (ops : List Op) :
    (({ resendTimeout, limit } : InFlight).after ops).Accounts limit :=
  .of_bounded ((Bounded.empty resendTimeout limit).after hl ops) hl

/-- The second packet fills the places, and the third one takes that of the packet sent first. -/
theorem accounts_hold_replaced :
    0 < 2 ∧ (({ resendTimeout := 5, limit := 2 } : InFlight).after
      [.track 9 .killObject [0x40, 1] .task 3, .track 4 .chatFromSimulator [0x40] .task 4,
        .retransmit 9, .track 6 .killObject [] .task 2, .ack 8]).Accounts 2 ∧
    (({ resendTimeout := 5, limit := 2 } : InFlight).after
      [.track 9 .killObject [0x40, 1] .task 3, .track 4 .chatFromSimulator [0x40] .task 4,
        .retransmit 9, .track 6 .killObject [] .task 2, .ack 8]).kept.keys = [9, 6] :=
  ⟨by decide, accounts_hold 5 (by decide) _, by decide⟩

/-- A packet may have the number zero. Then zero is the lowest number, though a packet is kept. -/
theorem oldest_zero_of_kept :
    ¬ ((({ resendTimeout := 1000, limit := 4 } : InFlight).after
        [.track 5 .killObject [0x40] .task 0, .track 0 .killObject [0x40] .task 1]).oldest = 0 ↔
      (({ resendTimeout := 1000, limit := 4 } : InFlight).after
        [.track 5 .killObject [0x40] .task 0, .track 0 .killObject [0x40] .task 1]).kept = []) := by
  decide

end InFlight
end ViewerCircuit
