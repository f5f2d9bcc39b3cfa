import Mathlib.Data.List.Perm.Subperm
import ViewerCircuit.Proofs.MalformedReports
import ViewerCircuit.Proofs.Reception

/-!
# Remembered sources

The log of malformed datagrams cleans up its table when it has grown to its limit, but what is
recent stays. So the table outgrows the limit exactly when more sources than that are reported
loudly within one interval, and then it has one entry for each of them.
-/
namespace ViewerCircuit

namespace MalformedLog

/-- The loud reports less than the interval before `now`; no two of them are of one source. -/
def crowd (interval : Nat) (log : List Report) (now : Nat) : List Report :=
  log.filter fun r => r.loud && decide (now - r.time < interval)

variable {m : MalformedLog} {interval now : Nat} {source : Address} {log : List Report}
  {calls : List Call}

theorem mem_crowd {r : Report} :
    r ∈ crowd interval log now ↔ r ∈ log ∧ r.loud = true ∧ now - r.time < interval := by
  rw [crowd, List.mem_filter, Bool.and_eq_true, decide_eq_true_iff]

theorem mem_sources_crowd :
    source ∈ (crowd interval log now).map (·.source) ↔ Report.Silenced interval log source now := by
  rw [List.mem_map]
  constructor
  · rintro ⟨r, hr, rfl⟩
    obtain ⟨there, loud, recent⟩ := mem_crowd.1 hr
    exact ⟨r, there, rfl, loud, recent⟩
  · rintro ⟨r, there, rfl, loud, recent⟩
    exact ⟨r, mem_crowd.2 ⟨there, loud, recent⟩, rfl⟩

theorem length_crowd_snoc (hpos : 0 < interval) : (crowd interval (log ++ [⟨source, now, true⟩])
    now).length = (crowd interval log now).length + 1 := by
  rw [crowd, List.filter_append, List.length_append]
  simp [crowd, hpos]

namespace Recalls

/-- Within an interval, no source is loud twice. -/
theorem crowd_nodup (h : Recalls now log m) :
    ((crowd m.interval log now).map (·.source)).Nodup := by
  refine List.pairwise_map.2 ((h.apart.sublist List.filter_sublist).imp_of_mem ?_)
  intro r later hr hlater apart same
  obtain ⟨-, loud, recent⟩ := mem_crowd.1 hr
  obtain ⟨there, loudLater, -⟩ := mem_crowd.1 hlater
  have between := apart same loud loudLater
  have past := h.past later there
  omega

/-- Who is loud within an interval is remembered. -/
theorem length_crowd_le (h : Recalls now log m) :
    (crowd m.interval log now).length ≤ m.logged.length := by
  have remembered : (crowd m.interval log now).map (·.source) ⊆ m.logged.keys := by
    intro source there
    obtain ⟨last, found, -⟩ := (h.recent_iff source).2 (mem_sources_crowd.1 there)
    exact List.mem_map_of_mem (Table.mem_of_get? found)
  have := (List.subperm_of_subset h.crowd_nodup remembered).length_le
  simpa [Table.keys] using this

/-- A clean-up leaves the sources that were loud within the interval, and nobody else. -/
theorem length_recent (h : Recalls now log m) :
    (m.logged.filter fun e => m.recent now e.2).length = (crowd m.interval log now).length := by
  have same : ∀ source, source ∈ Table.keys (m.logged.filter fun e => m.recent now e.2) ↔
      source ∈ (crowd m.interval log now).map (·.source) := by
    intro source
    rw [mem_sources_crowd, ← h.recent_iff, ← Table.contains_iff_mem, Table.contains_iff,
      Table.get?_filter h.distinct (m.recent now)]
    simp [Option.filter_eq_some_iff, recent]
  have perm := (List.perm_ext_iff_of_nodup (Table.nodup_keys_filter h.distinct _)
    h.crowd_nodup).2 same
  simpa [Table.keys] using perm.length_eq

end Recalls

/-- With a loud report the table stays within its limit, or it is left with one entry for each
source that was loud within the interval. -/
theorem length_note (h : Recalls now log m) (hs : (m.note source now).1 = true) :
    (m.note source now).2.logged.length ≤ maxSources ∨
      (m.note source now).2.logged.length =
        (crowd m.interval (log ++ [⟨source, now, true⟩]) now).length := by
  have due : ¬ Report.Silenced m.interval log source now := (h.loud_iff source).1 hs
  rw [note_loud hs]
  dsimp only
  unfold retained
  split
  · rcases Nat.eq_zero_or_pos m.interval with hzero | hpos
    · left
      have gone : (m.logged.filter fun e => m.recent now e.2) = [] := by
        simp [recent, hzero]
      rw [gone]
      exact of_decide_eq_true rfl
    · right
      have other : Table.contains source (m.logged.filter fun e => m.recent now e.2) = false := by
        rw [Table.contains_eq_false, Table.get?_filter h.distinct (m.recent now),
          Option.filter_eq_none_iff]
        intro last found recent
        exact due ((h.recent_iff source).1 ⟨last, found, of_decide_eq_true recent⟩)
      rw [Table.put_of_not_contains other, List.length_append, h.length_recent,
        length_crowd_snoc hpos]
      rfl
  · next room =>
    left
    have := m.logged.length_put_le source now
    omega

theorem after_snoc (m : MalformedLog) (calls : List Call) (call : Call) :
    m.after (calls ++ [call]) = (m.after calls).perform call := by
  rw [after, List.foldl_append]
  rfl

theorem reports_snoc (m : MalformedLog) (calls : List Call) (call : Call) :
    m.reports (calls ++ [call]) = m.reports calls ++ [(m.after calls).report call] := by
  induction calls generalizing m with
  | nil => rfl
  | cons first calls ih =>
    rw [List.cons_append, reports, reports, ih, List.cons_append]
    rfl

/-- How many sources are to be loud within the interval up to the last of these calls. -/
def crowdAfter (interval : Nat) (calls : List Call) (now : Nat) : Nat :=
  (crowd interval (recount interval [] calls) now).length

def Ordered (calls : List Call) : Prop := (calls.map Prod.snd).Pairwise (· ≤ ·)

namespace Ordered

theorem elapse (h : Ordered calls) : Elapse 0 calls :=
  List.pairwise_cons.2 ⟨fun time _ => Nat.zero_le time, h⟩

theorem isPrefix {before : List Call} (h : Ordered calls) (there : before <+: calls) :
    Ordered before :=
  h.sublist (there.map Prod.snd).sublist

/-- The reports before a call, as the log recalls them when it comes. -/
theorem recalls (interval : Nat) {call : Call} (h : Ordered (calls ++ [call])) :
    Recalls call.2 (({ interval } : MalformedLog).reports calls)
      (({ interval } : MalformedLog).after calls) := by
  obtain ⟨before, past⟩ := h.elapse.append
  obtain ⟨last, there, recalls⟩ := (Recalls.new interval).after before
  rw [List.nil_append] at recalls
  exact recalls.later (past last there)

theorem crowdAfter_eq (h : Ordered calls) : crowdAfter interval calls now =
    (crowd interval (({ interval } : MalformedLog).reports calls) now).length := by
  rw [crowdAfter, (Recalls.new interval).reports_eq h.elapse]

theorem crowdAfter_le {call : Call} (h : Ordered (calls ++ [call])) :
    crowdAfter interval (calls ++ [call]) call.2 ≤
      (({ interval } : MalformedLog).after (calls ++ [call])).logged.length := by
  have recalls := (h.recalls interval).perform (Nat.le_refl call.2)
  rw [← reports_snoc, ← after_snoc] at recalls
  have := recalls.length_crowd_le
  rwa [interval_after, ← h.crowdAfter_eq] at this

/-- Since the last loud report, nothing was entered. -/
theorem length_after (interval : Nat) (h : Ordered calls) :
    (({ interval } : MalformedLog).after calls).logged.length ≤ maxSources ∨
      ∃ before call, before ++ [call] <+: calls ∧
        (({ interval } : MalformedLog).after calls).logged.length =
          crowdAfter interval (before ++ [call]) call.2 := by
  induction calls using List.reverseRecOn with
  | nil => exact .inl (Nat.zero_le _)
  | append_singleton calls call ih =>
    have recalls := h.recalls interval
    cases hs : ((({ interval } : MalformedLog).after calls).note call.1 call.2).1 with
    | false =>
      have same : ({ interval } : MalformedLog).after (calls ++ [call]) =
          ({ interval } : MalformedLog).after calls := by
        rw [after_snoc, MalformedLog.perform, note_silent hs]
      rw [same]
      refine (ih (h.isPrefix (List.prefix_append _ _))).imp_right ?_
      rintro ⟨before, last, there, size⟩
      exact ⟨before, last, there.trans (List.prefix_append _ _), size⟩
    | true =>
      have entered := length_note recalls hs
      rw [interval_after] at entered
      refine entered.imp ?_ ?_
      · intro room
        rwa [after_snoc]
      · intro size
        refine ⟨calls, call, List.prefix_refl _, ?_⟩
        rw [after_snoc, h.crowdAfter_eq, reports_snoc, report, hs]
        exact size

/-- The table keeps its limit exactly if no more sources than that are loud within an interval. -/
theorem bounded_iff (h : Ordered calls) :
    (∀ before, before <+: calls →
      (({ interval } : MalformedLog).after before).logged.length ≤ maxSources) ↔
    ∀ before call, before ++ [call] <+: calls →
      crowdAfter interval (before ++ [call]) call.2 ≤ maxSources := by
  constructor
  · intro bounded before call there
    exact (h.isPrefix there).crowdAfter_le.trans (bounded _ there)
  · intro bounded before there
    rcases (h.isPrefix there).length_after interval with small | large
    · exact small
    · obtain ⟨first, call, inside, size⟩ := large
      rw [size]
      exact bounded first call (inside.trans there)

end Ordered

/-- Where a full table has nothing recent, it is left with the new entry. -/
theorem logged_of_stale (full : maxSources ≤ m.logged.length)
    (stale : ∀ e ∈ m.logged, ¬ now - e.2 < m.interval) :
    (m.note source now).2.logged = [(source, now)] := by
  have loud : (m.note source now).1 = true := by
    refine Bool.eq_true_of_not_eq_false fun silent => ?_
    obtain ⟨last, found, close⟩ := silent_iff.1 silent
    exact stale _ (Table.mem_of_get? found) close
  have gone : (m.logged.filter fun e => m.recent now e.2) = [] :=
    List.filter_eq_nil_iff.2 fun e there close => stale e there (of_decide_eq_true close)
  rw [note_loud loud, retained, if_pos full, gone]
  rfl

/-- Sources that are new at the same time are all remembered. -/
theorem logged_of_fresh (hpos : 0 < interval) {sources : List Address} (h : sources.Nodup) :
    (({ interval } : MalformedLog).after (sources.map fun a => (a, now))).logged =
      sources.map fun a => (a, now) := by
  induction sources using List.reverseRecOn with
  | nil => rfl
  | append_singleton sources source ih =>
    obtain ⟨fresh, -, other⟩ := List.nodup_append.1 h
    have table := ih fresh
    have since := interval_after { interval } (sources.map fun a => (a, now))
    rw [List.map_append, List.map_singleton, after_snoc, MalformedLog.perform]
    generalize ({ interval } : MalformedLog).after (sources.map fun a => (a, now)) = m
      at table since
    have unknown : m.logged.get? source = none := by
      apply Table.get?_eq_none
      rw [table, Table.keys, List.map_map]
      simp only [Function.comp_def, List.map_id']
      exact fun there => other source there source (List.mem_singleton_self _) rfl
    have loud : (m.note source now).1 = true := by
      refine Bool.eq_true_of_not_eq_false fun silent => ?_
      obtain ⟨last, found, -⟩ := silent_iff.1 silent
      rw [unknown] at found
      cases found
    have recent : m.logged.filter (fun e => m.recent now e.2) = m.logged := by
      refine List.filter_eq_self.2 fun e there => ?_
      rw [table] at there
      obtain ⟨a, -, rfl⟩ := List.mem_map.1 there
      simp [MalformedLog.recent, since, hpos]
    rw [note_loud loud, retained, recent, ite_self,
      Table.put_of_not_contains (Table.contains_eq_false.2 unknown), table]

end MalformedLog

def Happening.complaint : Happening → List MalformedLog.Call
  | arrive source raw now =>
    match Packet.decode raw with
    | .error _ => [(source, now)]
    | .ok _ => []
  | _ => []

theorem Endpoint.step_malformed (e : Endpoint) (id : CircuitId) (event : Event) :
    (e.step id event).2.2.malformed = e.malformed := by
  unfold step
  split <;> rfl

theorem Endpoint.unregister_malformed (e : Endpoint) (id : CircuitId) :
    (e.unregister id).malformed = e.malformed := by
  obtain ⟨registered, left, -⟩ := e.unregister_eq id
  rw [left]

namespace Reception

open MalformedLog (Call Ordered crowdAfter maxSources)

def complaints (happenings : List Happening) : List Call :=
  happenings.flatMap Happening.complaint

def remembered (r : Reception) : Nat := r.endpoint.malformed.logged.length

variable {config : Config} {happenings : List Happening}

theorem malformed_arrive (source : Address) (raw : Bytes) (now : Nat) (r : Reception) :
    (r.arrive source raw now).endpoint.malformed =
      r.endpoint.malformed.after (Happening.arrive source raw now).complaint := by
  simp only [arrive, Happening.complaint]
  cases Packet.decode raw with
  | error e => rfl
  | ok p =>
    dsimp only
    split
    · rfl
    · split <;> rfl

theorem malformed_proceed (i now : Nat) (r : Reception) :
    (r.proceed i now).endpoint.malformed = r.endpoint.malformed := by
  unfold proceed
  split
  · split
    · split <;> rfl
    · exact r.endpoint.step_malformed _ _
    · exact r.endpoint.step_malformed _ _
    · rfl
  · rfl

/-- Only malformed datagrams are noted in the log. -/
theorem malformed_next (r : Reception) (h : Happening) :
    (r.next h).endpoint.malformed = r.endpoint.malformed.after h.complaint := by
  cases h with
  | arrive source raw now => exact r.malformed_arrive source raw now
  | proceed i now => exact r.malformed_proceed i now
  | step id e own =>
    rw [next]
    split
    · exact r.endpoint.step_malformed id e
    · rfl
  | look id =>
    rw [next, look]
    split
    · split <;> rfl
    · rfl
  | remove id =>
    rw [next, remove]
    split
    · exact r.endpoint.unregister_malformed id
    · rfl
  | drain => rfl
  | setConduct conduct => rfl

theorem malformed_follow (r : Reception) (happenings : List Happening) :
    (r.follow happenings).endpoint.malformed =
      r.endpoint.malformed.after (complaints happenings) := by
  induction happenings generalizing r with
  | nil => rfl
  | cons h happenings ih =>
    have rest : (r.follow (h :: happenings)).endpoint.malformed =
        (r.next h).endpoint.malformed.after (complaints happenings) := ih (r.next h)
    rw [rest, malformed_next, complaints, complaints, List.flatMap_cons, MalformedLog.after,
      MalformedLog.after, MalformedLog.after, List.foldl_append]

theorem remembered_follow (config : Config) (happenings : List Happening) :
    ((ofConfig config).follow happenings).remembered =
      (({ interval := config.malformedLogInterval } : MalformedLog).after
        (complaints happenings)).logged.length :=
  congrArg (fun m => m.logged.length) (malformed_follow (ofConfig config) happenings)

theorem complaints_isPrefix {before : List Happening} (h : before <+: happenings) :
    complaints before <+: complaints happenings := by
  obtain ⟨later, rfl⟩ := h
  exact ⟨complaints later, List.flatMap_append.symm⟩

theorem complaint_cases (h : Happening) : h.complaint = [] ∨ ∃ call, h.complaint = [call] := by
  cases h with
  | arrive source raw now =>
    rw [Happening.complaint]
    split
    · exact .inr ⟨_, rfl⟩
    · exact .inl rfl
  | _ => exact .inl rfl

/-- The first malformed datagrams of a run come in its first part. -/
theorem exists_isPrefix {calls : List Call} (h : calls <+: complaints happenings) :
    ∃ before, before <+: happenings ∧ complaints before = calls := by
  induction happenings generalizing calls with
  | nil => exact ⟨[], List.prefix_refl _, (List.prefix_nil.1 h).symm⟩
  | cons first happenings ih =>
    rw [complaints, List.flatMap_cons] at h
    rcases complaint_cases first with none | ⟨call, one⟩
    · rw [none, List.nil_append] at h
      obtain ⟨before, there, rfl⟩ := ih h
      refine ⟨first :: before, (List.prefix_cons_inj _).2 there, ?_⟩
      rw [complaints, List.flatMap_cons, none]
      rfl
    · rw [one, List.singleton_append, List.prefix_cons_iff] at h
      rcases h with rfl | ⟨rest, rfl, there⟩
      · exact ⟨[], List.nil_prefix, rfl⟩
      · obtain ⟨before, inside, rfl⟩ := ih there
        refine ⟨first :: before, (List.prefix_cons_inj _).2 inside, ?_⟩
        rw [complaints, List.flatMap_cons, one]
        rfl

/-- How many sources are remembered in the course of a run. Beyond the limit there are only those
that were loud within one interval. -/
structure SourcesCounted (config : Config) (happenings : List Happening) : Prop where
  distinct : ((ofConfig config).follow happenings).endpoint.malformed.logged.keys.Nodup
  size : ((ofConfig config).follow happenings).remembered ≤ maxSources ∨
    ∃ before call, before ++ [call] <+: complaints happenings ∧
      ((ofConfig config).follow happenings).remembered =
        crowdAfter config.malformedLogInterval (before ++ [call]) call.2
  bounded_iff : (∀ before, before <+: happenings →
      ((ofConfig config).follow before).remembered ≤ maxSources) ↔
    ∀ before call, before ++ [call] <+: complaints happenings →
      crowdAfter config.malformedLogInterval (before ++ [call]) call.2 ≤ maxSources

/-- The limit holds throughout a run exactly if the malformed datagrams that are reported loudly
within one interval never have more sources. -/
theorem sources_are_counted (config : Config) (h : Ordered (complaints happenings)) :
    SourcesCounted config happenings := by
  constructor
  · obtain ⟨last, -, recalls⟩ :=
      (MalformedLog.Recalls.new config.malformedLogInterval).after h.elapse
    have table := malformed_follow (ofConfig config) happenings
    rw [table]
    exact recalls.distinct
  · rw [remembered_follow]
    exact h.length_after _
  · rw [← h.bounded_iff]
    constructor
    · intro bounded calls there
      obtain ⟨before, first, rfl⟩ := exists_isPrefix there
      rw [← remembered_follow]
      exact bounded before first
    · intro bounded before first
      rw [remembered_follow]
      exact bounded _ (complaints_isPrefix first)

def hosts (count : Nat) : List Address :=
  (List.range count).map fun i => .v4 ⟨UInt32.ofNat (0x0A000000 + i)⟩ 9

theorem hosts_nodup {count : Nat} (h : count ≤ 0x1000000) : (hosts count).Nodup := by
  refine List.pairwise_map.2 (List.nodup_range.imp_of_mem ?_)
  intro i j hi hj other same
  have values : UInt32.ofNat (0x0A000000 + i) = UInt32.ofNat (0x0A000000 + j) := by
    injection same with ip
    injection ip
  have numbers := congrArg UInt32.toNat values
  rw [List.mem_range] at hi hj
  simp only [UInt32.toNat_ofNat'] at numbers
  omega

def salvo (sources : List Address) (now : Nat) : List Happening :=
  sources.map fun source => .arrive source [] now

theorem complaints_salvo (sources : List Address) (now : Nat) :
    complaints (salvo sources now) = sources.map fun source => (source, now) := by
  induction sources with
  | nil => rfl
  | cons source sources ih => exact congrArg ((source, now) :: ·) ih

theorem remembered_salvo (hpos : 0 < config.malformedLogInterval) {sources : List Address}
    (h : sources.Nodup) (now : Nat) :
    ((ofConfig config).follow (salvo sources now)).remembered = sources.length := by
  rw [remembered_follow, complaints_salvo, MalformedLog.logged_of_fresh hpos h, List.length_map]

def relief : List Happening :=
  salvo (hosts 1024) 0 ++ salvo [.v6 ⟨1⟩ 9 0] (Time.ofMilliseconds 10000)

theorem sources_are_counted_relief : Ordered (complaints relief) ∧ SourcesCounted {} relief ∧
    ((ofConfig {}).follow relief).remembered = 1 := by
  have calls : complaints relief = ((hosts 1024).map fun source => (source, 0)) ++
      [(.v6 ⟨1⟩ 9 0, Config.malformedLogInterval {})] := by
    rw [relief, complaints, List.flatMap_append, ← complaints, ← complaints, complaints_salvo,
      complaints_salvo, List.map_singleton]
  have ordered : Ordered (complaints relief) := by
    rw [calls, Ordered, List.map_append, List.map_map]
    refine List.pairwise_append.2 ⟨?_, List.pairwise_singleton _ _, ?_⟩
    · exact List.pairwise_map.2 (List.pairwise_of_forall fun _ _ => Nat.le_refl 0)
    · intro t ht u _
      obtain ⟨source, -, rfl⟩ := List.mem_map.1 ht
      exact Nat.zero_le u
  refine ⟨ordered, sources_are_counted {} ordered, ?_⟩
  have table : (MalformedLog.after { interval := Config.malformedLogInterval {} }
      ((hosts 1024).map fun a => (a, 0))).logged = (hosts 1024).map fun a => (a, 0) :=
    MalformedLog.logged_of_fresh (by decide) (hosts_nodup (by decide))
  rw [remembered_follow, calls, MalformedLog.after_snoc, MalformedLog.perform,
    MalformedLog.logged_of_stale]
  · rfl
  · rw [table, List.length_map, hosts, List.length_map, List.length_range]
    exact Nat.le_refl _
  · intro e there
    rw [table] at there
    obtain ⟨source, -, rfl⟩ := List.mem_map.1 there
    rw [MalformedLog.interval_after]
    exact Nat.lt_irrefl _

/-- One source too many is remembered, though all datagrams come within an interval. -/
theorem salvo_exceeds_limit :
    Ordered (complaints (salvo (hosts 1025) 0)) ∧
    ¬ ((ofConfig {}).follow (salvo (hosts 1025) 0)).remembered ≤ maxSources := by
  constructor
  · rw [complaints_salvo, Ordered, List.map_map]
    exact List.pairwise_map.2 (List.pairwise_of_forall fun _ _ => Nat.le_refl 0)
  · rw [remembered_salvo (by decide) (hosts_nodup (by decide)), hosts, List.length_map,
      List.length_range]
    decide

end Reception
end ViewerCircuit
