import Mathlib.Data.List.Pairwise
import ViewerCircuit.Endpoint.MalformedLog
import ViewerCircuit.Proofs.Tables

/-!
# Reports of malformed datagrams

How a malformed datagram is logged follows from how the earlier ones of its source were logged: it
is loud if none of them was loud within the interval. The table of sources that the log works with
is cleaned up whenever it has grown large, and no answer ever shows it.
-/
namespace ViewerCircuit.MalformedLog

structure Report where
  source : Address
  time : Nat
  loud : Bool
  deriving DecidableEq, Repr

namespace Report

/-- A report of the source was loud less than the interval before `now`. -/
def Silenced (interval : Nat) (log : List Report) (source : Address) (now : Nat) : Prop :=
  ∃ r ∈ log, r.source = source ∧ r.loud = true ∧ now - r.time < interval

instance (interval : Nat) (log : List Report) (source : Address) (now : Nat) :
    Decidable (Silenced interval log source now) :=
  inferInstanceAs (Decidable (∃ r ∈ log, _))

def Apart (interval : Nat) (r later : Report) : Prop :=
  r.source = later.source → r.loud = true → later.loud = true → r.time + interval ≤ later.time

end Report

abbrev Call := Address × Nat

def perform (m : MalformedLog) (call : Call) : MalformedLog := (m.note call.1 call.2).2

def after (m : MalformedLog) (calls : List Call) : MalformedLog := calls.foldl perform m

def report (m : MalformedLog) (call : Call) : Report :=
  ⟨call.1, call.2, (m.note call.1 call.2).1⟩

def reports (m : MalformedLog) : List Call → List Report
  | [] => []
  | call :: calls => m.report call :: (m.perform call).reports calls

/-- The reports that the interval alone accounts for. -/
def recount (interval : Nat) (log : List Report) : List Call → List Report
  | [] => []
  | (source, now) :: calls =>
    let r : Report := ⟨source, now, !decide (Report.Silenced interval log source now)⟩
    r :: recount interval (log ++ [r]) calls

def Elapse (since : Nat) (calls : List Call) : Prop :=
  (since :: calls.map Prod.snd).Pairwise (· ≤ ·)

/-- The log `m` has made these reports, the last of them at the time `clock` at the latest. It does
not forget a loud one as long as that silences its source. -/
structure Recalls (clock : Nat) (log : List Report) (m : MalformedLog) : Prop where
  distinct : m.logged.keys.Nodup
  past : ∀ r ∈ log, r.time ≤ clock
  apart : log.Pairwise (Report.Apart m.interval)
  reported : ∀ {source last}, m.logged.get? source = some last → ⟨source, last, true⟩ ∈ log
  kept : ∀ r ∈ log, r.loud = true → clock - r.time < m.interval →
    m.logged.get? r.source = some r.time

variable {m : MalformedLog} {clock now : Nat} {source : Address} {log : List Report}
  {call : Call} {calls : List Call}

theorem silent_iff : (m.note source now).1 = false ↔
    ∃ last, m.logged.get? source = some last ∧ now - last < m.interval := by
  unfold note
  cases hlast : m.logged.get? source with
  | none => simp
  | some last => by_cases h : now - last < m.interval <;> simp [recent, h]

/-- A silent report leaves no trace. -/
theorem note_silent (h : (m.note source now).1 = false) : (m.note source now).2 = m := by
  unfold note at h ⊢
  split at h
  · next hsome => rw [if_pos hsome]
  · cases h

/-- The table that a loud report is entered in: a full one has lost what is too old to matter. -/
def retained (m : MalformedLog) (now : Nat) : Table Address Nat :=
  if maxSources ≤ m.logged.length then m.logged.filter fun e => m.recent now e.2 else m.logged

theorem note_loud (h : (m.note source now).1 = true) :
    (m.note source now).2 = { m with logged := (m.retained now).put source now } := by
  unfold note at h ⊢
  split at h
  · cases h
  · next hnone =>
    rw [if_neg hnone]
    rfl

theorem retained_nodup (hm : m.logged.keys.Nodup) : (m.retained now).keys.Nodup := by
  unfold retained
  split
  · exact Table.nodup_keys_filter hm _
  · exact hm

theorem get?_of_retained (hm : m.logged.keys.Nodup) {last : Nat}
    (h : (m.retained now).get? source = some last) : m.logged.get? source = some last := by
  unfold retained at h
  split at h
  · rw [Table.get?_filter hm (m.recent now)] at h
    exact (Option.filter_eq_some_iff.1 h).1
  · exact h

theorem get?_retained (hm : m.logged.keys.Nodup) {last : Nat}
    (h : m.logged.get? source = some last) (hrecent : now - last < m.interval) :
    (m.retained now).get? source = some last := by
  unfold retained
  split
  · rw [Table.get?_filter hm (m.recent now), h]
    simp [recent, hrecent]
  · exact h

theorem interval_note : (m.note source now).2.interval = m.interval := by
  unfold note
  split <;> rfl

theorem interval_after (m : MalformedLog) (calls : List Call) :
    (m.after calls).interval = m.interval := by
  induction calls generalizing m with
  | nil => rfl
  | cons call calls ih => exact (ih _).trans interval_note

theorem Elapse.cons (h : Elapse clock (call :: calls)) : clock ≤ call.2 ∧ Elapse call.2 calls := by
  obtain ⟨hclock, hrest⟩ := List.pairwise_cons.1 h
  exact ⟨hclock call.2 List.mem_cons_self, hrest⟩

theorem Elapse.append {later : List Call} (h : Elapse clock (calls ++ call :: later)) :
    Elapse clock calls ∧ ∀ time ∈ clock :: calls.map Prod.snd, time ≤ call.2 := by
  rw [Elapse, List.map_append, ← List.cons_append] at h
  obtain ⟨hcalls, -, hlater⟩ := List.pairwise_append.1 h
  exact ⟨hcalls, fun time ht => hlater time ht call.2 List.mem_cons_self⟩

namespace Recalls

theorem new (interval : Nat) : Recalls 0 [] { interval } := by
  constructor
  · exact List.nodup_nil
  · simp
  · exact .nil
  · intro source last h
    cases h
  · simp

theorem later (h : Recalls clock log m) (hn : clock ≤ now) : Recalls now log m := by
  refine ⟨h.distinct, fun r hr => Nat.le_trans (h.past r hr) hn, h.apart, h.reported, ?_⟩
  intro r hr hloud hrecent
  apply h.kept r hr hloud
  omega

/-- The sources with a recent entry are those that were loud within the interval. -/
theorem recent_iff (h : Recalls now log m) (source : Address) :
    (∃ last, m.logged.get? source = some last ∧ now - last < m.interval) ↔
      Report.Silenced m.interval log source now := by
  constructor
  · rintro ⟨last, hlast, hrecent⟩
    exact ⟨_, h.reported hlast, rfl, rfl, hrecent⟩
  · rintro ⟨r, hr, rfl, hloud, hrecent⟩
    exact ⟨r.time, h.kept r hr hloud hrecent, hrecent⟩

theorem loud_iff (h : Recalls now log m) (source : Address) :
    (m.note source now).1 = true ↔ ¬ Report.Silenced m.interval log source now := by
  rw [← Bool.not_eq_false, silent_iff, not_iff_not, h.recent_iff]

theorem silent (h : Recalls now log m) (hs : (m.note source now).1 = false) :
    Recalls now (log ++ [⟨source, now, false⟩]) (m.note source now).2 := by
  rw [note_silent hs]
  constructor
  · exact h.distinct
  · exact List.forall_mem_append.2 ⟨h.past, List.forall_mem_singleton.2 (Nat.le_refl now)⟩
  · refine List.pairwise_append.2 ⟨h.apart, List.pairwise_singleton _ _, ?_⟩
    intro r _ new hnew _ _ hloud
    rw [List.mem_singleton.1 hnew] at hloud
    cases hloud
  · intro other last hlast
    exact List.mem_append_left _ (h.reported hlast)
  · intro r hr hloud hrecent
    rcases List.mem_append.1 hr with hr | hr
    · exact h.kept r hr hloud hrecent
    · rw [List.mem_singleton.1 hr] at hloud
      cases hloud

/-- What a loud report of the source replaces does not silence it any more. -/
theorem loud (h : Recalls now log m) (hs : (m.note source now).1 = true) :
    Recalls now (log ++ [⟨source, now, true⟩]) (m.note source now).2 := by
  have hdue : ¬ Report.Silenced m.interval log source now := (h.loud_iff source).1 hs
  rw [note_loud hs]
  constructor
  · exact Table.nodup_keys_put (retained_nodup h.distinct) source now
  · exact List.forall_mem_append.2 ⟨h.past, List.forall_mem_singleton.2 (Nat.le_refl now)⟩
  · refine List.pairwise_append.2 ⟨h.apart, List.pairwise_singleton _ _, ?_⟩
    intro r hr new hnew hsame hloud _
    rw [List.mem_singleton.1 hnew] at hsame ⊢
    by_contra hclose
    apply hdue
    refine ⟨r, hr, hsame, hloud, ?_⟩
    have hpast := h.past r hr
    dsimp only at hclose
    omega
  · intro other last hlast
    rw [Table.get?_put] at hlast
    split at hlast
    · next he =>
      obtain rfl := Option.some.inj hlast
      rw [he]
      exact List.mem_append_right _ (List.mem_singleton_self _)
    · exact List.mem_append_left _ (h.reported (get?_of_retained h.distinct hlast))
  · intro r hr hloud hclose
    rcases List.mem_append.1 hr with hr | hr
    · have hother : r.source ≠ source := by
        intro he
        exact hdue ⟨r, hr, he, hloud, hclose⟩
      rw [Table.get?_put_of_ne hother]
      exact get?_retained h.distinct (h.kept r hr hloud hclose) hclose
    · rw [List.mem_singleton.1 hr, Table.get?_put_self]

theorem perform (h : Recalls clock log m) (hn : clock ≤ call.2) :
    Recalls call.2 (log ++ [m.report call]) (m.perform call) := by
  have hnow : Recalls call.2 log m := h.later hn
  unfold report
  cases hs : (m.note call.1 call.2).1 with
  | false => exact hnow.silent hs
  | true => exact hnow.loud hs

theorem after (h : Recalls clock log m) (he : Elapse clock calls) :
    ∃ last ∈ clock :: calls.map Prod.snd,
      Recalls last (log ++ m.reports calls) (m.after calls) := by
  induction calls generalizing clock log m with
  | nil =>
    rw [reports, List.append_nil]
    exact ⟨clock, List.mem_cons_self, h⟩
  | cons call calls ih =>
    obtain ⟨hclock, hrest⟩ := he.cons
    obtain ⟨last, hlast, hrecalls⟩ := ih (h.perform hclock) hrest
    rw [reports, List.append_cons]
    exact ⟨last, List.mem_cons_of_mem clock hlast, hrecalls⟩

/-- The table, whatever was cleaned up in it, answers as all the reports do. -/
theorem reports_eq (h : Recalls clock log m) (he : Elapse clock calls) :
    m.reports calls = recount m.interval log calls := by
  induction calls generalizing clock log m with
  | nil => rfl
  | cons call calls ih =>
    obtain ⟨hclock, hrest⟩ := he.cons
    have hnow : Recalls call.2 log m := h.later hclock
    have hreport : m.report call =
        ⟨call.1, call.2, !decide (Report.Silenced m.interval log call.1 call.2)⟩ := by
      unfold report
      congr 1
      rw [Bool.eq_iff_iff, hnow.loud_iff]
      simp
    have hcalls := ih (h.perform hclock) hrest
    rw [MalformedLog.perform, interval_note] at hcalls
    rw [reports, recount, ← hreport, MalformedLog.perform, hcalls]

end Recalls

/-- What a log that is empty yet makes of the calls. No clean-up is ever noticed. -/
structure Exact (interval : Nat) (calls : List Call) (m : MalformedLog) : Prop where
  loud_iff : ∀ {before source now later}, calls = before ++ (source, now) :: later →
    (((m.after before).note source now).1 = true ↔
      ¬ Report.Silenced interval (m.reports before) source now)
  apart : (m.reports calls).Pairwise (Report.Apart interval)
  unnoticed : m.reports calls = recount interval [] calls

/-- However many sources there are, each is logged loudly exactly when it is due. -/
theorem reports_are_exact (interval : Nat) (h : (calls.map Prod.snd).Pairwise (· ≤ ·)) :
    Exact interval calls { interval } := by
  have start : Recalls 0 [] { interval } := .new interval
  have elapsed : Elapse 0 calls := List.pairwise_cons.2 ⟨fun time _ => Nat.zero_le time, h⟩
  constructor
  · intro before source now later hcalls
    rw [hcalls] at elapsed
    obtain ⟨hbefore, hpast⟩ := elapsed.append
    obtain ⟨last, hlast, hrecalls⟩ := start.after hbefore
    rw [List.nil_append] at hrecalls
    rw [(hrecalls.later (hpast last hlast)).loud_iff, interval_after]
  · obtain ⟨last, -, hrecalls⟩ := start.after elapsed
    rw [List.nil_append] at hrecalls
    have hapart := hrecalls.apart
    rwa [interval_after] at hapart
  · exact start.reports_eq elapsed

def insistent : List Call :=
  [(.v4 .unspecified 1, 0), (.v4 .unspecified 1, 5), (.v4 .unspecified 2, 5),
    (.v4 .unspecified 1, 10), (.v4 .unspecified 2, 14), (.v4 .unspecified 2, 15)]

theorem reports_are_exact_insistent : (insistent.map Prod.snd).Pairwise (· ≤ ·) ∧
    Exact 10 insistent { interval := 10 } ∧
    (({ interval := 10 } : MalformedLog).reports insistent).map (·.loud) =
      [true, false, true, true, false, true] :=
  ⟨by decide, reports_are_exact 10 (by decide), by decide⟩

end ViewerCircuit.MalformedLog
