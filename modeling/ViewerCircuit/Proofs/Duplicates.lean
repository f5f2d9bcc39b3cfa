import ViewerCircuit.Packet.Basic
import ViewerCircuit.Proofs.Tables
import ViewerCircuit.Reliability.Duplicates

/-!
# What the duplicate tracker remembers

The memory of inbound numbers agrees with what was dispatched so far: an entry is the latest
dispatch of its number, and a dispatch without an entry as recent is older than the window. That
holds however often the memory was swept.
-/
namespace ViewerCircuit

structure Fate where
  packet : Packet
  time : Nat
  dispatched : Bool

namespace Fate

/-- A packet with the number of `f` was dispatched within the window before it. -/
def Repeats (window : Nat) (earlier : List Fate) (f : Fate) : Prop :=
  ∃ g ∈ earlier, g.dispatched = true ∧ g.packet.sequence = f.packet.sequence ∧
    f.time - g.time ≤ window

/-- Exactly the packets that repeat none are dispatched. -/
def Fair (window : Nat) (fates : List Fate) : Prop :=
  ∀ before f after, fates = before ++ f :: after →
    (f.dispatched = true ↔ ¬ f.Repeats window before)

theorem Fair.append {window : Nat} {fates : List Fate} {f : Fate} (h : Fair window fates)
    (hf : f.dispatched = true ↔ ¬ f.Repeats window fates) : Fair window (fates ++ [f]) := by
  intro before g after hsplit
  rcases List.append_eq_append_iff.1 hsplit with ⟨rest, hb, ht⟩ | ⟨rest, hb, ht⟩
  · obtain ⟨rfl, rfl⟩ : rest = [] ∧ g = f := by
      cases rest with
      | nil => exact ⟨rfl, (List.cons.inj ht).1.symm⟩
      | cons x rest => simp at ht
    rw [hb, List.append_nil]
    exact hf
  · cases rest with
    | nil =>
      obtain ⟨rfl, -⟩ := List.cons.inj ht
      rw [List.append_nil] at hb
      rw [← hb]
      exact hf
    | cons x rest =>
      obtain ⟨rfl, -⟩ := List.cons.inj ht
      exact h before g rest hb

end Fate

namespace Duplicates

/-- The memory `d` agrees with the fates until the time `clock`. -/
structure Remembers (clock : Nat) (fates : List Fate) (d : Duplicates) : Prop where
  keys_nodup : d.entries.keys.Nodup
  past : ∀ f ∈ fates, f.time ≤ clock
  recorded : ∀ s e, d.entries.get? s = some e →
    ∃ f ∈ fates, f.dispatched = true ∧ f.packet.sequence = s ∧ f.time = e.1
  latest : ∀ f ∈ fates, f.dispatched = true →
    (∃ e, d.entries.get? f.packet.sequence = some e ∧ f.time ≤ e.1) ∨ d.window < clock - f.time

variable {clock now : Nat} {fates : List Fate} {d : Duplicates}

theorem Remembers.later (h : Remembers clock fates d) (hn : clock ≤ now) :
    Remembers now fates d := by
  refine ⟨h.keys_nodup, fun f hf => Nat.le_trans (h.past f hf) hn, h.recorded, ?_⟩
  intro f hf hd
  rcases h.latest f hf hd with he | hold
  · exact .inl he
  · exact .inr (by omega)

theorem Remembers.sweep (h : Remembers now fates d) : Remembers now fates (d.sweep now).2 := by
  have hget : ∀ s, (d.sweep now).2.entries.get? s = (d.entries.get? s).filter (d.fresh now) :=
    fun s => Table.get?_filter h.keys_nodup (d.fresh now) s
  refine ⟨Table.nodup_keys_filter h.keys_nodup _, h.past, ?_, ?_⟩
  · intro s e he
    rw [hget] at he
    exact h.recorded s e (Option.filter_eq_some_iff.1 he).1
  · intro f hf hd
    rcases h.latest f hf hd with ⟨e, he, hle⟩ | hold
    · by_cases hfresh : d.fresh now e = true
      · exact .inl ⟨e, by rw [hget, he]; simp [Option.filter, hfresh], hle⟩
      · have hgone : ¬ now - e.1 ≤ d.window := by simpa only [fresh, decide_eq_true_eq] using hfresh
        exact .inr (show d.window < now - f.time by omega)
    · exact .inr hold

/-- A number that is known is not recorded again. -/
theorem seen_kept {sequence : UInt32} {kind : MessageKind}
    (h : (d.seen sequence kind now).1 = true) : (d.seen sequence kind now).2 = d := by
  unfold seen at h ⊢
  split at h
  · rename_i hfresh
    rw [if_pos hfresh]
  · cases h

theorem seen_recorded {sequence : UInt32} {kind : MessageKind}
    (h : (d.seen sequence kind now).1 = false) : (d.seen sequence kind now).2 =
      { d with entries := d.entries.put sequence (now, kind) } := by
  unfold seen at h ⊢
  split at h
  · cases h
  · next hnew => rw [if_neg hnew]

theorem window_seen (sequence : UInt32) (kind : MessageKind) :
    (d.seen sequence kind now).2.window = d.window := by
  unfold seen
  split <;> rfl

theorem known_iff {sequence : UInt32} {kind : MessageKind} :
    (d.seen sequence kind now).1 = true ↔
      ∃ e, d.entries.get? sequence = some e ∧ now - e.1 ≤ d.window := by
  unfold seen
  split
  · next hfresh => simpa [Option.any_eq_true, fresh] using hfresh
  · next hfresh => simpa [Option.any_eq_true, fresh] using hfresh

/-- A packet is taken for a duplicate exactly if it repeats one that was dispatched. -/
theorem Remembers.seen_iff (h : Remembers now fates d) (p : Packet) (dispatched : Bool) :
    (d.seen p.sequence p.kind now).1 = true ↔ Fate.Repeats d.window fates ⟨p, now, dispatched⟩ := by
  rw [known_iff]
  constructor
  · rintro ⟨e, he, hle⟩
    obtain ⟨f, hf, hd, hs, ht⟩ := h.recorded p.sequence e he
    exact ⟨f, hf, hd, hs, by rw [ht]; exact hle⟩
  · rintro ⟨g, hg, hd, hs, hle⟩
    rcases h.latest g hg hd with ⟨e, he, hge⟩ | hold
    · exact ⟨e, hs ▸ he, by dsimp only at hle; omega⟩
    · dsimp only at hle
      omega

theorem Remembers.see (h : Remembers now fates d) (p : Packet) :
    Remembers now (fates ++ [⟨p, now, !(d.seen p.sequence p.kind now).1⟩])
      (d.seen p.sequence p.kind now).2 := by
  have past : ∀ b, ∀ f ∈ fates ++ [⟨p, now, b⟩], f.time ≤ now := by
    intro b f hf
    rcases List.mem_append.1 hf with hf | hf
    · exact h.past f hf
    · obtain rfl := List.mem_singleton.1 hf
      exact Nat.le_refl now
  unfold seen
  split
  · refine ⟨h.keys_nodup, past _, ?_, ?_⟩
    · intro s e he
      obtain ⟨f, hf, rest⟩ := h.recorded s e he
      exact ⟨f, List.mem_append_left _ hf, rest⟩
    · intro f hf hd
      rcases List.mem_append.1 hf with hf | hf
      · exact h.latest f hf hd
      · obtain rfl := List.mem_singleton.1 hf
        cases hd
  · refine ⟨Table.nodup_keys_put h.keys_nodup _ _, past _, ?_, ?_⟩
    · intro s e he
      by_cases hs : s = p.sequence
      · subst hs
        rw [Table.get?_put_self] at he
        obtain rfl := Option.some.inj he
        exact ⟨_, List.mem_append_right _ (List.mem_singleton_self _), rfl, rfl, rfl⟩
      · rw [Table.get?_put_of_ne hs] at he
        obtain ⟨f, hf, rest⟩ := h.recorded s e he
        exact ⟨f, List.mem_append_left _ hf, rest⟩
    · intro f hf hd
      by_cases hs : f.packet.sequence = p.sequence
      · refine .inl ⟨(now, p.kind), ?_, past _ f hf⟩
        rw [hs, Table.get?_put_self]
      · rw [Table.get?_put_of_ne hs]
        rcases List.mem_append.1 hf with hf | hf
        · exact h.latest f hf hd
        · obtain rfl := List.mem_singleton.1 hf
          exact absurd rfl hs

end Duplicates
end ViewerCircuit
