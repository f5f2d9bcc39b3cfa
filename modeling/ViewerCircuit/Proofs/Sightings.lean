import Mathlib.Algebra.Order.BigOperators.Group.List
import Mathlib.Algebra.Order.Group.Nat
import Mathlib.Data.List.Pairwise
import ViewerCircuit.Proofs.Duplicates

/-!
# Sightings

What the duplicate tracker answers follows from its earlier answers alone: a number is known if it
was taken for new within the window. So it makes no difference when, or whether, the memory is
swept; and what is left behind a sweep can be read off the answers.
-/
namespace ViewerCircuit

structure Sighting where
  sequence : UInt32
  kind : MessageKind
  time : Nat
  known : Bool
  deriving DecidableEq, Repr

namespace Sighting

def Recent (window : Nat) (log : List Sighting) (sequence : UInt32) (now : Nat) : Prop :=
  ∃ g ∈ log, g.sequence = sequence ∧ g.known = false ∧ now - g.time ≤ window

instance (window : Nat) (log : List Sighting) (sequence : UInt32) (now : Nat) :
    Decidable (Recent window log sequence now) :=
  inferInstanceAs (Decidable (∃ g ∈ log, _))

def latest (sequence : UInt32) (log : List Sighting) : Option Sighting :=
  (log.filter fun g => g.sequence = sequence ∧ g.known = false).getLast?

def Apart (window : Nat) (g h : Sighting) : Prop :=
  g.sequence = h.sequence → g.known = false → h.known = false → g.time + window < h.time

variable {log : List Sighting} {sequence : UInt32} {g : Sighting}

theorem latest_append_other (h : ¬ (g.sequence = sequence ∧ g.known = false)) :
    latest sequence (log ++ [g]) = latest sequence log := by
  rw [latest, List.filter_append, List.filter_cons_of_neg (by simpa using h), List.filter_nil,
    List.append_nil, latest]

theorem latest_append_self (hs : g.sequence = sequence) (hn : g.known = false) :
    latest sequence (log ++ [g]) = some g := by
  rw [latest, List.filter_append, List.filter_cons_of_pos (by simp [hs, hn]), List.filter_nil,
    List.getLast?_concat]

theorem latest_spec (h : latest sequence log = some g) :
    g ∈ log ∧ g.sequence = sequence ∧ g.known = false := by
  have hmem := List.mem_of_getLast? h
  simpa using hmem

/-- Where times do not go back, only the last time that a number was taken for new counts. -/
theorem recent_iff_latest (h : log.Pairwise fun a b => a.time ≤ b.time) {window now : Nat} :
    Recent window log sequence now ↔
      ∃ g, latest sequence log = some g ∧ now - g.time ≤ window := by
  constructor
  · rintro ⟨g, hg, hs, hn, hw⟩
    have hmem : g ∈ log.filter fun g => g.sequence = sequence ∧ g.known = false := by
      simp [hg, hs, hn]
    have hsome := List.ne_nil_of_mem hmem
    refine ⟨_, List.getLast?_eq_some_getLast hsome, ?_⟩
    have hle := (h.filter _).rel_getLast_of_rel_getLast_getLast hmem (Nat.le_refl _)
    omega
  · rintro ⟨g, hg, hw⟩
    obtain ⟨hmem, hs, hn⟩ := latest_spec hg
    exact ⟨g, hmem, hs, hn, hw⟩

end Sighting

namespace Duplicates

inductive Op where
  | see (sequence : UInt32) (kind : MessageKind) (now : Nat)
  | sweep (now : Nat)

namespace Op

def time : Op → Nat
  | see _ _ now => now
  | sweep now => now

def isSee : Op → Bool
  | see .. => true
  | sweep _ => false

def Elapse (ops : List Op) (since till : Nat) : Prop :=
  (since :: (ops.map time ++ [till])).Pairwise (· ≤ ·)

end Op

def perform (d : Duplicates) : Op → Duplicates
  | .see sequence kind now => (d.seen sequence kind now).2
  | .sweep now => (d.sweep now).2

def after (d : Duplicates) (ops : List Op) : Duplicates := ops.foldl perform d

def sightingsBy (d : Duplicates) : Op → List Sighting
  | .see sequence kind now => [⟨sequence, kind, now, (d.seen sequence kind now).1⟩]
  | .sweep _ => []

def sightings (d : Duplicates) : List Op → List Sighting
  | [] => []
  | op :: ops => d.sightingsBy op ++ (d.perform op).sightings ops

/-- The answers that the log and the window alone account for. -/
def recount (window : Nat) (log : List Sighting) : List Op → List Sighting
  | [] => []
  | .see sequence kind now :: ops =>
    let g : Sighting := ⟨sequence, kind, now, decide (Sighting.Recent window log sequence now)⟩
    g :: recount window (log ++ [g]) ops
  | .sweep _ :: ops => recount window log ops

/-- The tracker `d` has given the answers of the log, the last of them at the time `clock` at the
latest. It remembers when a number was taken for new the last time, unless that is longer ago than
the window. -/
structure Recalls (clock : Nat) (log : List Sighting) (d : Duplicates) : Prop where
  distinct : d.entries.keys.Nodup
  past : ∀ g ∈ log, g.time ≤ clock
  ordered : log.Pairwise fun g h => g.time ≤ h.time
  apart : log.Pairwise (Sighting.Apart d.window)
  entry : ∀ s, d.entries.get? s = (Sighting.latest s log).map (fun g => (g.time, g.kind)) ∨
    d.entries.get? s = none ∧ ∀ g, Sighting.latest s log = some g → d.window < clock - g.time

variable {d : Duplicates} {clock now till : Nat} {log : List Sighting} {op : Op} {ops : List Op}

theorem after_append (d : Duplicates) (ops later : List Op) :
    d.after (ops ++ later) = (d.after ops).after later := List.foldl_append

theorem window_perform (d : Duplicates) (op : Op) : (d.perform op).window = d.window := by
  cases op with
  | see sequence kind now => exact window_seen sequence kind
  | sweep now => rfl

theorem window_after (d : Duplicates) (ops : List Op) : (d.after ops).window = d.window := by
  induction ops generalizing d with
  | nil => rfl
  | cons op ops ih => exact (ih _).trans (d.window_perform op)

theorem Op.Elapse.cons (h : Elapse (op :: ops) clock till) :
    clock ≤ op.time ∧ Elapse ops op.time till := by
  obtain ⟨hclock, hrest⟩ := List.pairwise_cons.1 h
  exact ⟨hclock op.time List.mem_cons_self, hrest⟩

theorem Op.Elapse.upTo {later : List Op} (h : Elapse (ops ++ op :: later) clock till) :
    Elapse ops clock op.time := by
  rw [Elapse, List.map_append, List.map_cons, List.append_assoc] at h
  exact h.sublist (List.Sublist.cons_cons clock (List.Sublist.append_left (by simp) _))

theorem Op.elapse_of_pairwise (h : (ops.map Op.time).Pairwise (· ≤ ·)) :
    ∃ till, Elapse ops 0 till := by
  refine ⟨(ops.map Op.time).sum, List.pairwise_cons.2 ⟨fun t _ => Nat.zero_le t, ?_⟩⟩
  refine List.pairwise_append.2 ⟨h, List.pairwise_singleton _ _, fun t ht b hb => ?_⟩
  rw [List.mem_singleton.1 hb]
  exact List.le_sum_of_mem ht

namespace Recalls

theorem new (window : Nat) : Recalls 0 [] { window } where
  distinct := List.nodup_nil
  past := by simp
  ordered := .nil
  apart := .nil
  entry _ := .inl rfl

theorem later (h : Recalls clock log d) (hn : clock ≤ now) : Recalls now log d := by
  refine ⟨h.distinct, fun g hg => Nat.le_trans (h.past g hg) hn, h.ordered, h.apart, fun s => ?_⟩
  refine (h.entry s).imp_right (And.imp_right fun hold g hg => ?_)
  have := hold g hg
  omega

theorem seen_iff_latest (h : Recalls now log d) (s : UInt32) (kind : MessageKind) :
    (d.seen s kind now).1 = true ↔
      ∃ g, Sighting.latest s log = some g ∧ now - g.time ≤ d.window := by
  rw [known_iff]
  rcases h.entry s with he | ⟨he, hold⟩
  · rw [he]
    cases Sighting.latest s log <;> simp
  · rw [he]
    constructor
    · rintro ⟨e, hnone, -⟩
      cases hnone
    · rintro ⟨g, hg, hw⟩
      have := hold g hg
      omega

theorem seen_iff (h : Recalls now log d) (s : UInt32) (kind : MessageKind) :
    (d.seen s kind now).1 = true ↔ Sighting.Recent d.window log s now := by
  rw [h.seen_iff_latest, Sighting.recent_iff_latest h.ordered]

/-- A sweep forgets exactly what is too old to be known. -/
theorem get?_sweep (h : Recalls now log d) (s : UInt32) : (d.sweep now).2.entries.get? s =
    ((Sighting.latest s log).filter fun g => now - g.time ≤ d.window).map
      fun g => (g.time, g.kind) := by
  rw [show (d.sweep now).2.entries.get? s = (d.entries.get? s).filter (d.fresh now) from
    Table.get?_filter h.distinct (d.fresh now) s]
  rcases h.entry s with he | ⟨he, hold⟩
  · rw [he]
    cases Sighting.latest s log with
    | none => rfl
    | some g => by_cases hw : now - g.time ≤ d.window <;> simp [Option.filter, fresh, hw]
  · rw [he]
    cases hg : Sighting.latest s log with
    | none => rfl
    | some g => simp [Option.filter, Nat.not_le.2 (hold g hg)]

theorem sweep (h : Recalls now log d) : Recalls now log (d.sweep now).2 := by
  refine ⟨Table.nodup_keys_filter h.distinct _, h.past, h.ordered, h.apart, fun s => ?_⟩
  rw [h.get?_sweep]
  cases hlatest : Sighting.latest s log with
  | none => exact .inl rfl
  | some g =>
    by_cases hw : now - g.time ≤ d.window
    · exact .inl (by simp [Option.filter, hw])
    · refine .inr ⟨by simp [Option.filter, hw], fun k hk => ?_⟩
      obtain rfl := Option.some.inj hk
      exact Nat.lt_of_not_le hw

/-- The answer is added to the log. It is new only if no sighting of the number is recent. -/
theorem see (h : Recalls now log d) (s : UInt32) (kind : MessageKind) :
    Recalls now (log ++ [⟨s, kind, now, (d.seen s kind now).1⟩]) (d.seen s kind now).2 := by
  refine ⟨?_, ?_, ?_, ?_, ?_⟩
  · cases ha : (d.seen s kind now).1 with
    | true =>
      rw [seen_kept ha]
      exact h.distinct
    | false =>
      rw [seen_recorded ha]
      exact Table.nodup_keys_put h.distinct _ _
  · intro g hg
    rcases List.mem_append.1 hg with hg | hg
    · exact h.past g hg
    · obtain rfl := List.mem_singleton.1 hg
      exact Nat.le_refl now
  · refine List.pairwise_append.2 ⟨h.ordered, List.pairwise_singleton _ _, fun g hg k hk => ?_⟩
    obtain rfl := List.mem_singleton.1 hk
    exact h.past g hg
  · rw [window_seen]
    refine List.pairwise_append.2 ⟨h.apart, List.pairwise_singleton _ _, fun g hg k hk => ?_⟩
    obtain rfl := List.mem_singleton.1 hk
    intro hs hg' hn
    by_contra hclose
    have hrecent : Sighting.Recent d.window log s now :=
      ⟨g, hg, hs, hg', by dsimp only at hclose; omega⟩
    rw [(h.seen_iff s kind).2 hrecent] at hn
    cases hn
  · intro other
    rw [window_seen]
    cases ha : (d.seen s kind now).1 with
    | true =>
      rw [seen_kept ha, Sighting.latest_append_other (by simp)]
      exact h.entry other
    | false =>
      rw [seen_recorded ha]
      by_cases ho : other = s
      · subst ho
        refine .inl ?_
        rw [Table.get?_put_self, Sighting.latest_append_self (by rfl) (by rfl)]
        rfl
      · rw [Table.get?_put_of_ne ho, Sighting.latest_append_other (by simp [Ne.symm ho])]
        exact h.entry other

theorem perform (h : Recalls clock log d) (hn : clock ≤ op.time) :
    Recalls op.time (log ++ d.sightingsBy op) (d.perform op) := by
  cases op with
  | see s kind now => exact (h.later hn).see s kind
  | sweep now =>
    rw [sightingsBy, List.append_nil]
    exact (h.later hn).sweep

theorem after (h : Recalls clock log d) (he : Op.Elapse ops clock till) :
    Recalls till (log ++ d.sightings ops) (d.after ops) := by
  induction ops generalizing clock log d with
  | nil =>
    rw [sightings, List.append_nil]
    exact h.later (List.rel_of_pairwise_cons he (List.mem_singleton_self till))
  | cons op ops ih =>
    obtain ⟨hclock, hrest⟩ := he.cons
    rw [sightings, ← List.append_assoc]
    exact ih (h.perform hclock) hrest

/-- The memory, whatever was swept from it, answers as the log does. -/
theorem sightings_eq (h : Recalls clock log d) (he : Op.Elapse ops clock till) :
    d.sightings ops = recount d.window log ops := by
  induction ops generalizing clock log d with
  | nil => rfl
  | cons op ops ih =>
    obtain ⟨hclock, hrest⟩ := he.cons
    have hops := ih (h.perform hclock) hrest
    rw [window_perform] at hops
    cases op with
    | see s kind now =>
      have hanswer : (d.seen s kind now).1 = decide (Sighting.Recent d.window log s now) := by
        rw [Bool.eq_iff_iff, decide_eq_true_iff]
        exact (h.later hclock).seen_iff s kind
      rw [sightings, recount, hops, sightingsBy, hanswer, List.singleton_append]
    | sweep now =>
      rw [sightings, recount, hops, sightingsBy, List.append_nil, List.nil_append]

end Recalls

theorem recount_isSee (window : Nat) (log : List Sighting) (ops : List Op) :
    recount window log ops = recount window log (ops.filter Op.isSee) := by
  induction ops generalizing log with
  | nil => rfl
  | cons op ops ih =>
    cases op with
    | see s kind now =>
      rw [List.filter_cons_of_pos rfl, recount, recount, ih]
    | sweep now =>
      rw [List.filter_cons_of_neg (by simp [Op.isSee]), recount, ih]

/-- A sweep takes out as many entries as it says, and leaves the others as they are. -/
theorem sweep_counts (d : Duplicates) (now : Nat) :
    (d.sweep now).1 + (d.sweep now).2.length = d.length ∧
      (d.sweep now).2.entries.Sublist d.entries := by
  have hkept : (d.sweep now).2.entries.Sublist d.entries := List.filter_sublist
  exact ⟨Nat.sub_add_cancel hkept.length_le, hkept⟩

/-- The answers of a tracker to the operations, and what it remembers, are what the window and
the earlier answers say. Sweeps are not noticed, and to be asked about a known number leaves
no trace. -/
structure Exact (window : Nat) (ops : List Op) (d : Duplicates) : Prop where
  known_iff : ∀ {before s kind now later}, ops = before ++ .see s kind now :: later →
    (((d.after before).seen s kind now).1 = true ↔
      Sighting.Recent window (d.sightings before) s now)
  unnoticed : ∀ {others}, (others.map Op.time).Pairwise (· ≤ ·) →
    others.filter Op.isSee = ops.filter Op.isSee → d.sightings others = d.sightings ops
  apart : (d.sightings ops).Pairwise (Sighting.Apart window)
  inert : ∀ {before s kind now later}, ops = before ++ .see s kind now :: later →
    ((d.after before).seen s kind now).1 = true →
      (d.after (before ++ [.see s kind now])) = d.after before
  distinct : (d.after ops).entries.keys.Nodup
  swept : ∀ {before now later}, ops = before ++ .sweep now :: later → ∀ s,
    (d.after (before ++ [.sweep now])).entries.get? s =
      ((Sighting.latest s (d.sightings before)).filter fun g => now - g.time ≤ window).map
        fun g => (g.time, g.kind)
  counted : ∀ {before now later}, ops = before ++ .sweep now :: later →
    ((d.after before).sweep now).1 + (d.after (before ++ [.sweep now])).length =
        (d.after before).length ∧
      (d.after (before ++ [.sweep now])).entries.Sublist (d.after before).entries

/-- Whatever numbers it is asked about and whenever it is swept, the tracker is exact. -/
theorem tracker_is_exact (window : Nat) (h : (ops.map Op.time).Pairwise (· ≤ ·)) :
    Exact window ops { window } := by
  obtain ⟨d, hd⟩ : ∃ d : Duplicates, { window } = d := ⟨_, rfl⟩
  have hwindow : d.window = window := hd ▸ rfl
  have start : Recalls 0 [] d := hd ▸ .new window
  obtain ⟨till, helapses⟩ := Op.elapse_of_pairwise h
  have recalls : ∀ {before op later}, ops = before ++ op :: later →
      Recalls op.time (d.sightings before) (d.after before) := by
    intro before op later hops
    exact start.after (hops ▸ helapses).upTo
  rw [hd]
  constructor
  · intro before s kind now later hops
    have hrecalls : Recalls now (d.sightings before) (d.after before) := recalls hops
    rw [hrecalls.seen_iff s kind, window_after, hwindow]
  · intro others hothers hsame
    obtain ⟨till', helse⟩ := Op.elapse_of_pairwise hothers
    rw [start.sightings_eq helapses, start.sightings_eq helse, recount_isSee, hsame,
      ← recount_isSee]
  · have hapart := (start.after helapses).apart
    rwa [window_after, hwindow] at hapart
  · intro before s kind now later _ hknown
    rw [after_append]
    exact seen_kept hknown
  · exact (start.after helapses).distinct
  · intro before now later hops s
    have hrecalls : Recalls now (d.sightings before) (d.after before) := recalls hops
    have hleft := hrecalls.get?_sweep s
    rw [window_after, hwindow] at hleft
    rw [after_append]
    exact hleft
  · intro before now later _
    rw [after_append]
    exact sweep_counts _ now

/-- One number is known until the window has passed and is then recorded in its old place, the other
one was swept when it comes again. -/
def recurring : List Op :=
  [.see 5 .agentUpdate 0, .see 6 .chatFromViewer 10, .see 5 .agentUpdate 30, .sweep 30,
    .see 5 .useCircuitCode 31, .sweep 41, .see 6 .agentUpdate 41]

theorem tracker_is_exact_recurring : (recurring.map Op.time).Pairwise (· ≤ ·) ∧
    Exact 30 recurring { window := 30 } ∧
    (({ window := 30 } : Duplicates).sightings recurring).map (·.known) =
      [false, false, true, false, false] ∧
    (({ window := 30 } : Duplicates).after (recurring.take 6)).entries =
      [(5, 31, .useCircuitCode)] :=
  ⟨by decide, tracker_is_exact 30 (by decide), by decide, by decide⟩

end Duplicates
end ViewerCircuit
