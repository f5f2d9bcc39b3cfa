import Mathlib.Data.List.Pairwise
import ViewerCircuit.Proofs.InFlightCalls

/-!
# The schedule of retransmissions

The calls that were made tell the life of a packet: with what it came and when, and when it was
given out for retransmission since. What is kept of a packet is what its life leads to, so a look
for packets that are due finds those that were last sent more than the timeout ago.
-/
namespace ViewerCircuit

namespace InFlight

/-- What happened to a packet since it is kept, with the times of the looks that gave it out for
retransmission. -/
structure Life where
  kind : MessageKind
  bytes : Bytes
  category : Category
  trackedAt : Nat
  returns : List Nat
  deriving DecidableEq, Repr

namespace Life

def sends (l : Life) : List Nat := l.trackedAt :: l.returns

def lastSent (l : Life) : Nat := l.sends.getLast (List.cons_ne_nil _ _)

def returned (l : Life) (now : Nat) : Life := { l with returns := l.returns ++ [now] }

def record (l : Life) : KeptPacket where
  kind := l.kind
  bytes := if l.returns = [] then l.bytes else Datagram.asResent l.bytes
  category := l.category
  sentAt := l.lastSent
  retries := l.returns.length

def Spaced (timeout : Nat) (l : Life) : Prop := l.sends.Pairwise fun a b => a + timeout < b

variable {l : Life} {now timeout : Nat}

theorem lastSent_returned : (l.returned now).lastSent = now :=
  List.getLast_append_singleton l.sends

theorem asResent_record : Datagram.asResent l.record.bytes = Datagram.asResent l.bytes := by
  unfold record
  dsimp only
  split
  · rfl
  · rw [Datagram.asResent_asResent]

theorem record_returned : (l.returned now).record = l.record.resentAt now := by
  have hsent : (l.returned now).returns ≠ [] := by simp [returned]
  rw [KeptPacket.resentAt, asResent_record, record, if_neg hsent, lastSent_returned]
  simp [record, returned]

/-- One more send that is late enough after the last one is late enough after all of them. -/
theorem Spaced.returned (h : l.Spaced timeout) (hnow : l.lastSent + timeout < now) :
    (l.returned now).Spaced timeout := by
  have hsends : (l.returned now).sends = l.sends ++ [now] := rfl
  rw [Spaced, hsends, List.pairwise_append]
  refine ⟨h, List.pairwise_singleton _ _, fun a ha b hb => ?_⟩
  obtain rfl := List.mem_singleton.1 hb
  have hle : l.sends.Pairwise (· ≤ ·) := h.imp fun hlt => by omega
  have hlast : a ≤ l.lastSent := hle.rel_getLast ha
  omega

end Life

def Op.tracks (id : UInt32) : Op → Bool
  | .track sequence _ _ _ _ => sequence = id
  | _ => false

/-- The life of the packet with the number `id`, as the call goes on with it. A life begins where a
packet is tracked that is not kept yet. A packet that was evicted is one that is kept no longer when
another one is tracked. -/
def live (f : InFlight) (id : UInt32) (life : Option Life) : Op → Option Life
  | .track sequence kind bytes category now =>
    if sequence = id ∧ f.contains id = false then
      some ⟨kind, bytes, category, now, []⟩
    else if (f.track sequence kind bytes category now).2.contains id then life
    else none
  | .ack sequence => if sequence = id then none else life
  | .retransmit now =>
    if id ∈ (f.retransmit now).1.map (·.sequence) then life.map (·.returned now) else life

def lifeAfter (f : InFlight) (id : UInt32) (life : Option Life) : List Op → Option Life
  | [] => life
  | op :: ops => (f.perform op).lifeAfter id (f.live id life op) ops

variable {f : InFlight} {id : UInt32} {life : Option Life} {now : Nat}

structure Tells (f : InFlight) (id : UInt32) (life : Option Life) : Prop where
  get?_eq : f.kept.get? id = life.map Life.record
  spaced : ∀ l ∈ life, l.Spaced f.resendTimeout

theorem mem_sequences_iff (h : f.kept.keys.Nodup) :
    id ∈ (f.retransmit now).1.map (·.sequence) ↔
      ∃ p, f.kept.get? id = some p ∧ f.isDue now p = true := by
  rw [List.mem_map]
  constructor
  · rintro ⟨r, hr, rfl⟩
    obtain ⟨p, hp, hdue, -⟩ := mem_retransmit_iff.1 hr
    exact ⟨p, Table.get?_of_mem h hp, hdue⟩
  · rintro ⟨p, hp, hdue⟩
    exact ⟨⟨id, p.kind, Datagram.asResent p.bytes⟩,
      mem_retransmit_iff.2 ⟨p, Table.mem_of_get? hp, hdue, rfl, rfl⟩, rfl⟩

/-- A packet that does not come back is kept as it was. -/
theorem get?_retransmit_of_not (h : f.kept.keys.Nodup)
    (hid : id ∉ (f.retransmit now).1.map (·.sequence)) :
    (f.retransmit now).2.kept.get? id = f.kept.get? id := by
  rw [get?_retransmit]
  cases hp : f.kept.get? id with
  | none => rfl
  | some p =>
    have hdue : ¬ f.isDue now p = true := fun hdue => hid ((mem_sequences_iff h).2 ⟨p, hp, hdue⟩)
    simp [refreshed, hdue]

theorem isDue_record {l : Life} :
    f.isDue now l.record = true ↔ l.lastSent + f.resendTimeout < now := by
  rw [isDue, decide_eq_true_eq]
  exact Nat.lt_sub_iff_add_lt'

/-- Tracking changes nothing under another number, unless the packet with that number gives way. -/
theorem get?_track_of_not {sequence : UInt32} {kind : MessageKind} {bytes : Bytes}
    {category : Category} (h : ¬(sequence = id ∧ f.contains id = false)) :
    (f.track sequence kind bytes category now).2.kept.get? id = f.kept.get? id ∨
      (f.track sequence kind bytes category now).2.kept.get? id = none := by
  cases hc : f.contains sequence with
  | true => exact .inl (by rw [track_of_contains hc])
  | false =>
    have hne : id ≠ sequence := by
      rintro rfl
      exact h ⟨rfl, hc⟩
    rw [track_of_new hc, Table.get?_put_of_ne hne]
    rcases evict_cases f with ⟨heq, -⟩ | ⟨first, p, -, -, -, heq⟩
    · exact .inl (by rw [heq])
    · rw [heq, kept_remove, Table.get?_erase]
      split
      · exact .inr rfl
      · exact .inl rfl

theorem contains_perform_of_not (h : f.contains id = false) {op : Op} (hop : op.tracks id = false) :
    (f.perform op).contains id = false := by
  cases op with
  | track sequence kind bytes category now =>
    have hother : ¬(sequence = id ∧ f.contains id = false) :=
      fun hnew => of_decide_eq_false hop hnew.1
    rcases get?_track_of_not hother with hsame | hnone
    · exact contains_eq_false.2 (hsame.trans (contains_eq_false.1 h))
    · exact contains_eq_false.2 hnone
  | ack sequence => exact contains_remove_of_not h sequence
  | retransmit now => exact (contains_retransmit now id).trans h

theorem contains_after_of_not (h : f.contains id = false) {ops : List Op}
    (hops : ∀ op ∈ ops, op.tracks id = false) : (f.after ops).contains id = false := by
  induction ops generalizing f with
  | nil => exact h
  | cons op ops ih =>
    obtain ⟨hop, hrest⟩ := List.forall_mem_cons.1 hops
    exact ih (contains_perform_of_not h hop) hrest

theorem contains_of_mem_sequences (h : id ∈ (f.retransmit now).1.map (·.sequence)) :
    f.contains id = true := by
  obtain ⟨r, hr, rfl⟩ := List.mem_map.1 h
  obtain ⟨p, hp, -⟩ := mem_retransmit_iff.1 hr
  exact Table.contains_of_mem hp

namespace Tells

theorem none_of_not (h : f.contains id = false) : f.Tells id none :=
  ⟨contains_eq_false.1 h, by simp⟩

theorem of_get?_eq {g : InFlight} (h : f.Tells id life)
    (hsame : g.kept.get? id = f.kept.get? id) (htimeout : g.resendTimeout = f.resendTimeout) :
    g.Tells id life :=
  ⟨hsame.trans h.get?_eq, by rw [htimeout]; exact h.spaced⟩

theorem mem_sequences_iff (hf : f.kept.keys.Nodup) (h : f.Tells id life) :
    id ∈ (f.retransmit now).1.map (·.sequence) ↔
      ∃ l, life = some l ∧ l.lastSent + f.resendTimeout < now := by
  rw [InFlight.mem_sequences_iff hf, h.get?_eq]
  constructor
  · rintro ⟨p, hp, hdue⟩
    obtain ⟨l, rfl, rfl⟩ := Option.map_eq_some_iff.1 hp
    exact ⟨l, rfl, isDue_record.1 hdue⟩
  · rintro ⟨l, rfl, hdue⟩
    exact ⟨l.record, rfl, isDue_record.2 hdue⟩

/-- The life goes on with the record. -/
theorem perform (hf : f.kept.keys.Nodup) (h : f.Tells id life) (op : Op) :
    (f.perform op).Tells id (f.live id life op) := by
  have htimeout := (settings_perform (f := f) op).1
  cases op with
  | track sequence kind bytes category now =>
    rw [live]
    split
    · next hnew =>
      obtain ⟨rfl, hnew⟩ := hnew
      have hmade : (f.track sequence kind bytes category now).1 = true := by rw [track_of_new hnew]
      refine ⟨track_made hmade, fun l hl => ?_⟩
      obtain rfl := Option.mem_some_iff.1 hl
      exact List.pairwise_singleton _ _
    next hother =>
    split
    · next hc =>
      have hsame := (get?_track_of_not hother).resolve_right fun hnone => by
        rw [contains_eq_false.2 hnone] at hc
        cases hc
      exact h.of_get?_eq hsame htimeout
    · next hc => exact none_of_not (Bool.eq_false_iff.2 hc)
  | ack sequence =>
    rw [live]
    split
    · next hid =>
      rw [← hid]
      exact none_of_not (contains_remove_self sequence)
    · next hid => exact h.of_get?_eq (get?_remove_of_ne (Ne.symm hid)) htimeout
  | retransmit now =>
    rw [live]
    split
    · next hid =>
      obtain ⟨l, rfl, hdue⟩ := (h.mem_sequences_iff hf).1 hid
      refine ⟨?_, fun next hnext => ?_⟩
      · rw [InFlight.perform, get?_retransmit, h.get?_eq]
        simp [refreshed, isDue_record.2 hdue, Life.record_returned]
      · obtain rfl := Option.mem_some_iff.1 hnext
        rw [htimeout]
        exact (h.spaced l rfl).returned hdue
    · next hid => exact h.of_get?_eq (get?_retransmit_of_not hf hid) htimeout

theorem after (hf : f.Balanced) (h : f.Tells id life) (ops : List Op) :
    (f.after ops).Tells id (f.lifeAfter id life ops) := by
  induction ops generalizing f life with
  | nil => exact h
  | cons op ops ih => exact ih (hf.perform op) (h.perform hf.distinct op)

end Tells

/-- Looks for packets that are due keep to the timeout, and find all that it lets them find; `life`
tells what became of each packet that is kept. A copy is the datagram that was tracked, but for the
resent bit, and what was acked or evicted comes back under a new record only. -/
structure OnSchedule (timeout : Nat) (f : InFlight) (life : UInt32 → Option Life) : Prop where
  kept : ∀ id, f.contains id = (life id).isSome
  ascending : ∀ now, ((f.retransmit now).1.map (·.sequence)).Pairwise (· < ·)
  due : ∀ now id, id ∈ (f.retransmit now).1.map (·.sequence) ↔
    ∃ l, life id = some l ∧ l.lastSent + timeout < now
  copied : ∀ now, ∀ r ∈ (f.retransmit now).1, ∃ l, life r.sequence = some l ∧ r.kind = l.kind ∧
    r.bytes.head? = l.bytes.head?.map (· ||| Flags.resentBit) ∧ r.bytes.tail = l.bytes.tail
  spaced : ∀ id l, life id = some l → l.Spaced timeout
  counted : ∀ id, f.retries? id = (life id).map fun l => l.returns.length
  others : ∀ now id, id ∉ (f.retransmit now).1.map (·.sequence) →
    (f.retransmit now).2.kept.get? id = f.kept.get? id
  unchanged : ∀ now, (f.retransmit now).2.kept.keys = f.kept.keys ∧
    (f.retransmit now).2.bytes = f.bytes
  acked : ∀ id, (f.perform (.ack id)).contains id = false
  gone : ∀ id, f.contains id = false → ∀ later, (∀ op ∈ later, op.tracks id = false) →
    ∀ now, id ∉ ((f.after later).retransmit now).1.map (·.sequence)

theorem OnSchedule.of_tells {timeout : Nat} {life : UInt32 → Option Life} (hb : f.Balanced)
    (ht : f.resendTimeout = timeout) (h : ∀ id, f.Tells id (life id)) :
    OnSchedule timeout f life where
  kept id := by rw [contains, Table.contains, (h id).get?_eq, Option.isSome_map]
  ascending := retransmit_ascending hb.distinct
  due now id := ht ▸ (h id).mem_sequences_iff hb.distinct
  copied now r hr := by
    obtain ⟨p, hp, -, hkind, hbytes⟩ := mem_retransmit_iff.1 hr
    have hrecord := ((h r.sequence).get?_eq).symm.trans (Table.get?_of_mem hb.distinct hp)
    obtain ⟨l, hl, rfl⟩ := Option.map_eq_some_iff.1 hrecord
    refine ⟨l, hl, hkind, ?_⟩
    rw [hbytes, Life.asResent_record]
    cases l.bytes <;> exact ⟨rfl, rfl⟩
  spaced id l hl := ht ▸ (h id).spaced l hl
  counted id := by
    rw [retries?, (h id).get?_eq, Option.map_map]
    rfl
  others now id hid := get?_retransmit_of_not hb.distinct hid
  unchanged now := ⟨keys_retransmit now, rfl⟩
  acked := contains_remove_self
  gone id hnone later hlater now hid := by
    have hgone := contains_after_of_not hnone hlater
    rw [contains_of_mem_sequences hid] at hgone
    cases hgone

/-- Whatever calls are made, and at whatever times, retransmissions keep to the schedule that the
calls themselves make. -/
theorem resends_on_schedule (resendTimeout limit : Nat) (ops : List Op) :
    OnSchedule resendTimeout (({ resendTimeout, limit } : InFlight).after ops)
      fun id => ({ resendTimeout, limit } : InFlight).lifeAfter id none ops := by
  have hb := Balanced.empty resendTimeout limit
  refine .of_tells (hb.after ops) (settings_after ops).1 fun id => ?_
  exact Tells.after hb (.none_of_not rfl) ops

/-- The time of a packet begins with its last send; a second packet for its number is refused. -/
example : ({ resendTimeout := 5, limit := 2 } : InFlight).lifeAfter 9 none
    [.track 9 .killObject [0x40] .task 3, .retransmit 8, .retransmit 9,
      .track 9 .killObject [] .task 10, .retransmit 14, .retransmit 20] =
    some ⟨.killObject, [0x40], .task, 3, [9, 20]⟩ := by
  decide +kernel

end InFlight
end ViewerCircuit
