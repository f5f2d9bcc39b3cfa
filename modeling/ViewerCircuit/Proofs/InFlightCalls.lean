import Mathlib.Algebra.BigOperators.Group.List.Basic
import Mathlib.Algebra.GroupWithZero.Nat
import Mathlib.Data.List.Induction
import Mathlib.Data.List.Sort
import ViewerCircuit.Proofs.Tables
import ViewerCircuit.Reliability.InFlight

/-!
# Calls on the packets in flight

Packets in flight are tracked, acked and retransmitted, in any order and at any times. Here is what
one call does to the packets that are kept, and what is kept through a run of calls: each number is
kept once, and the byte count is that of what is kept.
-/
namespace ViewerCircuit

open scoped List

namespace Datagram

variable (raw : Bytes)

theorem length_asResent : (asResent raw).length = raw.length :=
  length_setFlag Flags.resentBit raw

theorem asResent_asResent : asResent (asResent raw) = asResent raw := by
  cases raw with
  | nil => rfl
  | cons flags rest => simp [asResent, setFlag, UInt8.or_assoc]

end Datagram

namespace InFlight

variable {f : InFlight} {sequence other : UInt32} {p : KeptPacket} {e : UInt32 × KeptPacket}
  {kind : MessageKind} {bytes : Bytes} {category : Category} {now : Nat}

theorem contains_eq_false : f.contains sequence = false ↔ f.kept.get? sequence = none :=
  Table.contains_eq_false

theorem contains_iff_mem : f.contains sequence = true ↔ sequence ∈ f.kept.keys :=
  Table.contains_iff_mem

/-! ## Acks -/

theorem remove_of_get? (h : f.kept.get? sequence = some p) : f.remove sequence =
    (true, { f with kept := f.kept.erase sequence, bytes := f.bytes - p.bytes.length }) := by
  rw [remove, h]

theorem remove_of_not (h : f.contains sequence = false) : f.remove sequence = (false, f) := by
  rw [remove, contains_eq_false.1 h]

theorem kept_remove (sequence : UInt32) :
    (f.remove sequence).2.kept = f.kept.erase sequence := by
  cases h : f.kept.get? sequence with
  | none =>
    have hnew : sequence ∉ f.kept.keys := fun hmem => by
      rw [← Table.contains_iff_mem, Table.contains_eq_false.2 h] at hmem
      cases hmem
    rw [remove_of_not (contains_eq_false.2 h), Table.erase_of_not_mem hnew]
  | some p => rw [remove_of_get? h]

theorem get?_remove_self (sequence : UInt32) :
    (f.remove sequence).2.kept.get? sequence = none := by
  rw [kept_remove, Table.get?_erase_self]

theorem get?_remove_of_ne (h : other ≠ sequence) :
    (f.remove sequence).2.kept.get? other = f.kept.get? other := by
  rw [kept_remove, Table.get?_erase_of_ne h]

theorem contains_remove_self (sequence : UInt32) :
    (f.remove sequence).2.contains sequence = false :=
  contains_eq_false.2 (get?_remove_self sequence)

theorem contains_remove_of_not (h : f.contains other = false) (sequence : UInt32) :
    (f.remove sequence).2.contains other = false := by
  by_cases he : other = sequence
  · rw [he, contains_remove_self]
  · rw [contains_eq_false, get?_remove_of_ne he]
    exact contains_eq_false.1 h

theorem kept_of_remove (h : e ∈ (f.remove sequence).2.kept) : e ∈ f.kept ∧ e.1 ≠ sequence := by
  rw [kept_remove, Table.erase, List.mem_filter, decide_eq_true_eq] at h
  exact h

/-! ## Tracking -/

def earlier (best : Option (UInt32 × Nat)) (e : UInt32 × KeptPacket) : Option (UInt32 × Nat) :=
  match best with
  | some (s, time) => if e.2.sentAt < time then some (e.1, e.2.sentAt) else some (s, time)
  | none => some (e.1, e.2.sentAt)

theorem oldestSent?_eq (f : InFlight) :
    f.oldestSent? = (f.kept.foldl earlier none).map (·.1) := rfl

/-- The search ends at a packet that was sent no later than any that was looked at. -/
theorem foldl_earlier (t : Table UInt32 KeptPacket) (s : UInt32) (time : Nat) :
    ∃ best, t.foldl earlier (some (s, time)) = some best ∧
      (best = (s, time) ∨ ∃ e ∈ t, best = (e.1, e.2.sentAt)) ∧
      best.2 ≤ time ∧ ∀ e ∈ t, best.2 ≤ e.2.sentAt := by
  induction t generalizing s time with
  | nil => exact ⟨(s, time), rfl, .inl rfl, Nat.le_refl _, by simp⟩
  | cons e t ih =>
    by_cases he : e.2.sentAt < time
    · obtain ⟨best, hbest, hfrom, hle, hall⟩ := ih e.1 e.2.sentAt
      refine ⟨best, by rw [List.foldl_cons, earlier, if_pos he, hbest], ?_, by omega, ?_⟩
      · rcases hfrom with rfl | ⟨d, hd, rfl⟩
        · exact .inr ⟨e, List.mem_cons_self, rfl⟩
        · exact .inr ⟨d, List.mem_cons_of_mem _ hd, rfl⟩
      · exact List.forall_mem_cons.2 ⟨hle, hall⟩
    · obtain ⟨best, hbest, hfrom, hle, hall⟩ := ih s time
      refine ⟨best, by rw [List.foldl_cons, earlier, if_neg he, hbest], ?_, hle, ?_⟩
      · rcases hfrom with rfl | ⟨d, hd, rfl⟩
        · exact .inl rfl
        · exact .inr ⟨d, List.mem_cons_of_mem _ hd, rfl⟩
      · exact List.forall_mem_cons.2 ⟨by omega, hall⟩

/-- Where something is kept, the oldest packet is kept, and none was sent before it. -/
theorem oldestSent?_spec (h : f.kept ≠ []) : ∃ oldest p, f.oldestSent? = some oldest ∧
    (oldest, p) ∈ f.kept ∧ ∀ e ∈ f.kept, p.sentAt ≤ e.2.sentAt := by
  rw [oldestSent?_eq]
  cases hk : f.kept with
  | nil => exact absurd hk h
  | cons first rest =>
    obtain ⟨best, hbest, hfrom, hle, hall⟩ := foldl_earlier rest first.1 first.2.sentAt
    have hfold : ((first :: rest).foldl earlier none).map (·.1) = some best.1 := by
      rw [List.foldl_cons, earlier, hbest, Option.map_some]
    rcases hfrom with rfl | ⟨d, hd, rfl⟩
    · exact ⟨_, first.2, hfold, List.mem_cons_self,
        List.forall_mem_cons.2 ⟨Nat.le_refl _, hall⟩⟩
    · exact ⟨_, d.2, hfold, List.mem_cons_of_mem _ hd, List.forall_mem_cons.2 ⟨hle, hall⟩⟩

theorem evict_of_room (h : f.count < f.limit) : f.evict = f := if_neg (Nat.not_le.2 h)

/-- There is room for one more packet; or nothing is kept; or the oldest packet makes room. -/
theorem evict_cases (f : InFlight) : f.evict = f ∧ (f.count < f.limit ∨ f.kept = []) ∨
    ∃ oldest p, f.limit ≤ f.count ∧ (oldest, p) ∈ f.kept ∧
      (∀ e ∈ f.kept, p.sentAt ≤ e.2.sentAt) ∧ f.evict = (f.remove oldest).2 := by
  by_cases hfull : f.limit ≤ f.count
  · by_cases hnone : f.kept = []
    · refine .inl ⟨?_, .inr hnone⟩
      rw [evict, if_pos hfull, oldestSent?_eq, hnone]
      rfl
    · obtain ⟨oldest, p, hold, hmem, hmin⟩ := oldestSent?_spec hnone
      exact .inr ⟨oldest, p, hfull, hmem, hmin, by rw [evict, if_pos hfull, hold]⟩
  · exact .inl ⟨evict_of_room (Nat.not_le.1 hfull), .inl (Nat.not_le.1 hfull)⟩

theorem kept_of_evict (h : e ∈ f.evict.kept) : e ∈ f.kept := by
  rcases evict_cases f with ⟨heq, -⟩ | ⟨oldest, p, -, -, -, heq⟩
  · rwa [heq] at h
  · rw [heq] at h
    exact (kept_of_remove h).1

theorem contains_evict_of_not (h : f.contains sequence = false) :
    f.evict.contains sequence = false := by
  rcases evict_cases f with ⟨heq, -⟩ | ⟨oldest, p, -, -, -, heq⟩
  · rwa [heq]
  · rw [heq]
    exact contains_remove_of_not h oldest

theorem track_of_contains (h : f.contains sequence = true) :
    f.track sequence kind bytes category now = (false, f) := if_pos h

theorem track_of_new (h : f.contains sequence = false) :
    f.track sequence kind bytes category now = (true, { f.evict with
      kept := f.evict.kept.put sequence ⟨kind, bytes, category, now, 0⟩
      bytes := f.evict.bytes + bytes.length }) := by
  simp [track, h]

theorem track_refused : (f.track sequence kind bytes category now).1 = false ↔
    f.contains sequence = true := by
  cases h : f.contains sequence with
  | true => simp [track_of_contains h]
  | false => simp [track_of_new h]

theorem track_made (h : (f.track sequence kind bytes category now).1 = true) :
    (f.track sequence kind bytes category now).2.kept.get? sequence =
      some ⟨kind, bytes, category, now, 0⟩ := by
  have hnew : f.contains sequence = false := by
    by_contra hc
    rw [track_refused.2 (by simpa using hc)] at h
    cases h
  rw [track_of_new hnew]
  exact Table.get?_put_self _ _ _

theorem kept_of_track (h : e ∈ (f.track sequence kind bytes category now).2.kept) :
    e ∈ f.kept ∨ f.contains sequence = false ∧ e = (sequence, ⟨kind, bytes, category, now, 0⟩) := by
  cases hc : f.contains sequence with
  | true =>
    rw [track_of_contains hc] at h
    exact .inl h
  | false =>
    rw [track_of_new hc] at h
    rcases Table.mem_of_mem_put h with h | rfl
    · exact .inl (kept_of_evict h)
    · exact .inr ⟨rfl, rfl⟩

/-! ## Retransmission -/

def refreshed (f : InFlight) (now : Nat) (p : KeptPacket) : KeptPacket :=
  if f.isDue now p then p.resentAt now else p

theorem kept_retransmit (now : Nat) :
    (f.retransmit now).2.kept = f.kept.map fun e => (e.1, f.refreshed now e.2) := rfl

theorem get?_retransmit (now : Nat) (sequence : UInt32) :
    (f.retransmit now).2.kept.get? sequence =
      (f.kept.get? sequence).map (f.refreshed now) := by
  rw [kept_retransmit, Table.get?_map]

theorem contains_retransmit (now : Nat) (sequence : UInt32) :
    (f.retransmit now).2.contains sequence = f.contains sequence := by
  simp [contains, Table.contains, get?_retransmit]

theorem keys_retransmit (now : Nat) : (f.retransmit now).2.kept.keys = f.kept.keys := by
  simp [kept_retransmit, Table.keys]

theorem length_refreshed (now : Nat) (p : KeptPacket) :
    (f.refreshed now p).bytes.length = p.bytes.length := by
  unfold refreshed
  split
  · exact Datagram.length_asResent p.bytes
  · rfl

theorem mem_retransmit_iff {r : Retransmission} : r ∈ (f.retransmit now).1 ↔
    ∃ p, (r.sequence, p) ∈ f.kept ∧ f.isDue now p = true ∧
      r.kind = p.kind ∧ r.bytes = Datagram.asResent p.bytes := by
  simp only [retransmit, List.mem_mergeSort, List.mem_map, List.mem_filter]
  constructor
  · rintro ⟨⟨s, p⟩, ⟨he, hdue⟩, rfl⟩
    exact ⟨p, he, hdue, rfl, rfl⟩
  · rintro ⟨p, he, hdue, hkind, hbytes⟩
    exact ⟨(r.sequence, p), ⟨he, hdue⟩, by rw [← hkind, ← hbytes]⟩

/-- A retransmission has the bytes that are kept from now on. -/
theorem retransmit_kept {r : Retransmission} (h : r ∈ (f.retransmit now).1) :
    ∃ e ∈ (f.retransmit now).2.kept,
      e.1 = r.sequence ∧ e.2.bytes = r.bytes ∧ e.2.kind = r.kind := by
  obtain ⟨p, he, hdue, hkind, hbytes⟩ := mem_retransmit_iff.1 h
  refine ⟨(r.sequence, p.resentAt now), ?_, rfl, hbytes.symm, hkind.symm⟩
  exact List.mem_map.2 ⟨(r.sequence, p), he, by simp [hdue]⟩

/-- A kept packet stays as it is, or is marked as resent. -/
theorem kept_of_retransmit (h : e ∈ (f.retransmit now).2.kept) : ∃ d ∈ f.kept, d.1 = e.1 ∧
    (e.2.bytes = d.2.bytes ∨ e.2.bytes = Datagram.asResent d.2.bytes) := by
  obtain ⟨d, hd, rfl⟩ := List.mem_map.1 h
  refine ⟨d, hd, rfl, ?_⟩
  dsimp only
  split
  · exact .inr rfl
  · exact .inl rfl

/-- Where each number is kept once, numbers come out in ascending order. -/
theorem retransmit_ascending (h : f.kept.keys.Nodup) (now : Nat) :
    ((f.retransmit now).1.map (·.sequence)).Pairwise (· < ·) := by
  have hperm : (f.retransmit now).1.map (·.sequence) ~
      Table.keys (f.kept.filter fun e => f.isDue now e.2) := by
    refine ((List.mergeSort_perm _ _).map _).trans (.of_eq ?_)
    simp [Table.keys, Function.comp_def]
  have hnodup := hperm.nodup_iff.2 (Table.nodup_keys_filter h _)
  have hsorted : ((f.retransmit now).1.map (·.sequence)).Pairwise (· ≤ ·) := by
    refine List.pairwise_map.2 (List.Pairwise.imp of_decide_eq_true
      (List.pairwise_mergeSort ?_ ?_ _))
    · intro a b c hab hbc
      simp only [decide_eq_true_eq] at hab hbc ⊢
      exact UInt32.le_trans hab hbc
    · intro a b
      simpa using UInt32.le_total a.sequence b.sequence
  exact hsorted.imp₂ (fun _ _ hle hne => UInt32.lt_of_le_of_ne hle hne) hnodup

/-! ## The lowest number -/

theorem oldest_le (h : f.kept.keys ≠ []) :
    f.oldest ∈ f.kept.keys ∧ ∀ id ∈ f.kept.keys, f.oldest ≤ id := by
  obtain ⟨least, hleast⟩ := Option.ne_none_iff_exists'.1 (mt List.min?_eq_none_iff.1 h)
  rw [oldest, hleast, Option.getD_some]
  exact List.min?_eq_some_iff.1 hleast

theorem oldest_of_none (h : f.kept.keys = []) : f.oldest = 0 := by
  rw [oldest, h]
  rfl

/-- Zero stands for no packet, and for one that has the number zero. -/
theorem oldest_eq_zero : f.oldest = 0 ↔ f.kept = [] ∨ f.contains 0 = true := by
  constructor
  · intro h
    by_cases hnone : f.kept.keys = []
    · exact .inl (List.map_eq_nil_iff.1 hnone)
    · exact .inr (contains_iff_mem.2 (h ▸ (oldest_le hnone).1))
  · rintro (h | h)
    · exact oldest_of_none (by rw [h]; rfl)
    · have hmem := contains_iff_mem.1 h
      have hle := (oldest_le (List.ne_nil_of_mem hmem)).2 0 hmem
      exact UInt32.le_antisymm hle (UInt32.zero_le)

/-! ## Runs of calls -/

def keptBytes (f : InFlight) : Nat := (f.kept.map fun e => e.2.bytes.length).sum

structure Balanced (f : InFlight) : Prop where
  distinct : f.kept.keys.Nodup
  bytes : f.bytes = f.keptBytes

inductive Op where
  | track (sequence : UInt32) (kind : MessageKind) (bytes : Bytes) (category : Category)
      (now : Nat)
  | ack (sequence : UInt32)
  | retransmit (now : Nat)
  deriving DecidableEq, Repr

def perform (f : InFlight) : Op → InFlight
  | .track sequence kind bytes category now => (f.track sequence kind bytes category now).2
  | .ack sequence => (f.remove sequence).2
  | .retransmit now => (f.retransmit now).2

def after (ops : List Op) (f : InFlight) : InFlight := ops.foldl perform f

theorem settings_remove (sequence : UInt32) :
    (f.remove sequence).2.resendTimeout = f.resendTimeout ∧
      (f.remove sequence).2.limit = f.limit := by
  unfold remove
  split <;> exact ⟨rfl, rfl⟩

/-- Calls leave the timeout and the limit as they are. -/
theorem settings_perform (op : Op) :
    (f.perform op).resendTimeout = f.resendTimeout ∧ (f.perform op).limit = f.limit := by
  cases op with
  | track sequence kind bytes category now =>
    cases hc : f.contains sequence with
    | true => exact ⟨by rw [perform, track_of_contains hc], by rw [perform, track_of_contains hc]⟩
    | false =>
      rw [perform, track_of_new hc]
      rcases evict_cases f with ⟨heq, -⟩ | ⟨oldest, p, -, -, -, heq⟩
      · rw [heq]
        exact ⟨rfl, rfl⟩
      · rw [heq]
        exact settings_remove oldest
  | ack sequence => exact settings_remove sequence
  | retransmit now => exact ⟨rfl, rfl⟩

theorem settings_after (ops : List Op) :
    (f.after ops).resendTimeout = f.resendTimeout ∧ (f.after ops).limit = f.limit := by
  induction ops generalizing f with
  | nil => exact ⟨rfl, rfl⟩
  | cons op ops ih =>
    obtain ⟨htimeout, hlimit⟩ := ih (f := f.perform op)
    exact ⟨htimeout.trans (settings_perform op).1, hlimit.trans (settings_perform op).2⟩

namespace Balanced

theorem empty (resendTimeout limit : Nat) : Balanced { resendTimeout, limit } :=
  ⟨List.nodup_nil, rfl⟩

/-- The packet that is forgotten takes its bytes out of the count. -/
theorem bytes_remove (h : f.Balanced) (hp : f.kept.get? sequence = some p) :
    (f.remove sequence).2.bytes + p.bytes.length = f.bytes ∧
      (f.remove sequence).2.bytes = (f.remove sequence).2.keptBytes := by
  have hsum : f.keptBytes = p.bytes.length + (f.remove sequence).2.keptBytes := by
    have := ((Table.perm_erase h.distinct hp).map fun e => e.2.bytes.length).sum_eq
    simpa [keptBytes, kept_remove] using this
  have hbytes := h.bytes
  have hleft : (f.remove sequence).2.bytes = f.bytes - p.bytes.length := by
    rw [remove_of_get? hp]
  omega

theorem remove (h : f.Balanced) (sequence : UInt32) : (f.remove sequence).2.Balanced := by
  cases hp : f.kept.get? sequence with
  | none => rwa [remove_of_not (contains_eq_false.2 hp)]
  | some p =>
    refine ⟨?_, (h.bytes_remove hp).2⟩
    rw [kept_remove]
    exact Table.nodup_keys_filter h.distinct _

theorem evict (h : f.Balanced) : f.evict.Balanced := by
  rcases evict_cases f with ⟨heq, -⟩ | ⟨oldest, p, -, -, -, heq⟩
  · rwa [heq]
  · rw [heq]
    exact h.remove oldest

theorem track (h : f.Balanced) (sequence : UInt32) (kind : MessageKind) (bytes : Bytes)
    (category : Category) (now : Nat) :
    (f.track sequence kind bytes category now).2.Balanced := by
  cases hc : f.contains sequence with
  | true => rwa [track_of_contains hc]
  | false =>
    rw [track_of_new hc]
    refine ⟨Table.nodup_keys_put h.evict.distinct _ _, ?_⟩
    dsimp only [keptBytes]
    rw [Table.put_of_not_contains (contains_evict_of_not hc), List.map_append, List.sum_append,
      h.evict.bytes]
    rfl

theorem retransmit (h : f.Balanced) (now : Nat) : (f.retransmit now).2.Balanced where
  distinct := by
    rw [keys_retransmit]
    exact h.distinct
  bytes := by
    have hsum : (f.retransmit now).2.keptBytes = f.keptBytes := by
      simp [keptBytes, kept_retransmit, Function.comp_def, length_refreshed]
    rw [hsum]
    exact h.bytes

theorem perform (h : f.Balanced) (op : Op) : (f.perform op).Balanced := by
  cases op with
  | track sequence kind bytes category now => exact h.track sequence kind bytes category now
  | ack sequence => exact h.remove sequence
  | retransmit now => exact h.retransmit now

theorem after (h : f.Balanced) (ops : List Op) : (f.after ops).Balanced := by
  induction ops generalizing f with
  | nil => exact h
  | cons op ops ih => exact ih (h.perform op)

end Balanced

end InFlight
end ViewerCircuit
