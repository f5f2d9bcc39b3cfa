import ViewerCircuit.Proofs.CourseRun
import ViewerCircuit.Proofs.Vitals

/-!
# Liveness of the viewer

The probes of a circuit count how often in a row they find a silent viewer, whatever happens between
them. The viewer is given up at the first probe at which the count exceeds the limit.
-/
namespace ViewerCircuit

inductive Beat where
  | heard
  | probed
  deriving DecidableEq, Repr

namespace Beat

/-- Nothing was heard since the last probe. The viewer was `silent` before the first beat. -/
def quiet : (silent : Bool) → List Beat → Bool
  | silent, [] => silent
  | _, heard :: beats => quiet false beats
  | _, probed :: beats => quiet true beats

/-- For each probe, whether nothing was heard since the one before it. -/
def silences : (silent : Bool) → List Beat → List Bool
  | _, [] => []
  | _, heard :: beats => silences false beats
  | silent, probed :: beats => silent :: silences true beats

/-- How many probes in a row, the last one included, found a silent viewer. -/
def silentProbes (beats : List Beat) : Nat := ((silences true beats).reverse.takeWhile id).length

variable {silent : Bool} {beats : List Beat}

@[simp] theorem quiet_heard : quiet silent (beats ++ [heard]) = false := by
  induction beats generalizing silent with
  | nil => rfl
  | cons b beats ih => cases b <;> exact ih

@[simp] theorem quiet_probed : quiet silent (beats ++ [probed]) = true := by
  induction beats generalizing silent with
  | nil => rfl
  | cons b beats ih => cases b <;> exact ih

theorem silences_probed :
    silences silent (beats ++ [probed]) = silences silent beats ++ [quiet silent beats] := by
  induction beats generalizing silent with
  | nil => rfl
  | cons b beats ih =>
    cases b with
    | heard => exact ih
    | probed => exact congrArg (silent :: ·) ih

theorem silentProbes_probed : silentProbes (beats ++ [probed]) =
    if quiet true beats then silentProbes beats + 1 else 0 := by
  unfold silentProbes
  rw [silences_probed, List.reverse_append]
  cases h : quiet true beats <;> simp

/-- The count of a viewer that was never heard is that of its probes. -/
theorem silentProbes_of_silent (h : ∀ b ∈ beats, b = probed) :
    quiet true beats = true ∧ silentProbes beats = beats.length := by
  induction beats using List.reverseRecOn with
  | nil => exact ⟨rfl, rfl⟩
  | append_singleton beats b ih =>
    obtain ⟨hquiet, hcount⟩ := ih fun b hb => h b (List.mem_append_left _ hb)
    obtain rfl := h b (List.mem_append_right _ (List.mem_singleton_self b))
    refine ⟨quiet_probed, ?_⟩
    rw [silentProbes_probed, hquiet, hcount]
    simp

end Beat

open Beat (quiet silentProbes)

namespace Site

/-- The probes that a move took, and the packets that it processed. -/
def beat (s : Site) (m : Move) : List Beat :=
  ((s.took m).filter Event.isProbe).map (fun _ => .probed) ++
    ((s.told m).filter Effect.isProcessed).map fun _ => .heard

def beats (s : Site) (moves : List Move) : List Beat := trace beat s moves

end Site

def Vitals.probe (v : Vitals) : Vitals :=
  { v with heard := false, failures := if v.heard then 0 else v.failures + 1 }

namespace Site

variable {s u : Site}

def counted (s : Site) : Site :=
  s.update fun c => { c with probeFailures := c.probeFailures + 1 }

theorem probe_of_heard (hh : s.circuit.heard = true) :
    s.probe = s.update fun c => { c with heard := false, probeFailures := 0 } := by
  simp [probe, hh]

theorem probe_of_silent (hh : s.circuit.heard = false) :
    s.probe = if probeLimit s.circuit < s.circuit.probeFailures + 1
      then s.counted.close .timedOut else s.counted.startPing := by
  simp [probe, hh]
  rfl

theorem probe_vitals (hs : s.pool.Sound) : s.probe.vitals = s.vitals.probe := by
  cases h : s.circuit.heard with
  | true => simp [probe_of_heard h, vitals, Vitals.probe, update, h, history]
  | false =>
    have silent : s.counted.vitals = s.vitals.probe := by
      simp [counted, vitals, Vitals.probe, update, h, history]
    rw [probe_of_silent h]
    split
    · exact (vitals_aside.close _ _).trans silent
    · exact (vitals_aside.startPing s.counted hs).trans silent

theorem told_processed (hs : s.pool.Sound) (m : Move) : (s.move m).vitals.processed =
    s.vitals.processed ++ (s.told m).filter Effect.isProcessed := by
  unfold vitals
  rw [move_history hs m, List.filter_append]

/-- A move that processes no packet. -/
theorem told_none (hs : s.pool.Sound) {m : Move}
    (h : (s.move m).vitals.processed = s.vitals.processed) :
    (s.told m).filter Effect.isProcessed = [] :=
  List.append_cancel_left (((told_processed hs m).symm.trans h).trans (List.append_nil _).symm)

theorem beat_probe (hs : s.pool.Sound) {i : AttendantId} (enabled : s.circuit.Enabled (.probe i))
    (conduct : Conduct) :
    s.beat (.step conduct (.probe i)) = [.probed] ∧
      s.move (.step conduct (.probe i)) = s.probe := by
  have moved : s.move (.step conduct (.probe i)) = s.probe := by
    simp [move, next, enabled, perform]
  refine ⟨?_, moved⟩
  have taken : s.took (.step conduct (.probe i)) = [.probe i] := by simp [took, enabled]
  rw [beat, told_none hs (by rw [moved, probe_vitals hs]; rfl), taken]
  rfl

/-- A move is one beat at most. -/
theorem move_beats (hs : s.pool.Sound) (m : Move) :
    s.beat m = [] ∧ (s.move m).vitals = s.vitals ∨
    s.beat m = [.heard] ∧ (∃ e, (s.move m).vitals = s.vitals.hear e) ∨
    s.beat m = [.probed] ∧ s.move m = s.probe := by
  cases m with
  | draw | takeBack => exact .inl ⟨by rw [beat, told_none hs rfl]; rfl, rfl⟩
  | step conduct e =>
    by_cases enabled : s.circuit.Enabled e
    · cases he : e.isProbe with
      | true =>
        obtain ⟨i, rfl⟩ : ∃ i, e = .probe i := by
          cases e <;> first | exact ⟨_, rfl⟩ | cases he
        exact .inr (.inr (beat_probe hs enabled conduct))
      | false =>
        have unprobed : (s.took (.step conduct e)).filter Event.isProbe = [] := by
          simp [took, enabled, he]
        rcases next_vitals conduct he hs with same | ⟨p, now, heard⟩
        · refine .inl ⟨?_, same⟩
          have kept : (s.move (.step conduct e)).vitals = s.vitals := same
          rw [beat, unprobed, told_none hs (congrArg Vitals.processed kept)]
          rfl
        · refine .inr (.inl ⟨?_, _, heard⟩)
          have one : (s.told (.step conduct e)).filter Effect.isProcessed = [.processed p now] :=
            List.append_cancel_left
              ((told_processed hs _).symm.trans (congrArg Vitals.processed heard))
          rw [beat, unprobed, one]
          rfl
    · have stays : s.move (.step conduct e) = s := by simp [move, next, enabled]
      refine .inl ⟨?_, by rw [stays]⟩
      rw [beat, told_none hs (by rw [stays])]
      simp [took, enabled]

/-- A circuit that is not closed queues one ping, which names the lowest number in flight, and does
nothing else. -/
theorem startPing_queues (hs : s.pool.Sound) (hp : s.circuit.phase ≠ .closed) :
    ∃ p o, (Packet.decode o.bytes).map Packet.message = .ok (.startPingCheck
        ⟨s.circuit.nextPingId, s.circuit.ackState.inFlight.oldest⟩) ∧
      o.kind = .startPingCheck ∧
      s.startPing.circuit.queue = s.circuit.queue.enqueue o ∧
      s.startPing.history = s.history ++ [.recycled p, .queued o] ∧
      s.startPing.circuit.phase = s.circuit.phase ∧
      s.startPing.circuit.closeReason = s.circuit.closeReason := by
  obtain ⟨d, hd⟩ : ∃ d, Outbound.startPing s.circuit.nextPingId
    s.circuit.ackState.inFlight.oldest = d := ⟨_, rfl⟩
  obtain ⟨numbered, hn⟩ : ∃ numbered, { d.packet with
    sequence := s.circuit.sequences.next.1 } = numbered := ⟨_, rfl⟩
  have hmessage : numbered.message = .startPingCheck
      ⟨s.circuit.nextPingId, s.circuit.ackState.inFlight.oldest⟩ := by
    rw [← hn, ← hd]
    rfl
  have hkind : numbered.kind = .startPingCheck := congrArg Message.kind hmessage
  have hfits : numbered.Fits := by
    rw [← hn, ← hd]
    exact ⟨Nat.zero_le _, Nat.zero_le _, trivial⟩
  obtain ⟨bytes, he⟩ := Packet.encode_fits hfits
  obtain ⟨pool, -, said⟩ := say_one (s := s.update fun c => { c with
    nextPingId := s.circuit.nextPingId + 1 }) hs d
  have asked : s.startPing = _ := (congrArg (fun d => (Site.say [d] _).2) hd).trans
    (said.trans (send_written d.category hp hn he))
  refine ⟨numbered, .ofPacket numbered bytes d.category, ?_, hkind, ?_, ?_, ?_, ?_⟩
  · have read := congrArg (Except.map Packet.message) (Packet.decode_of_encode hfits he)
    rw [hmessage] at read
    exact read
  all_goals rw [asked]
  · rfl
  · exact history_queueing _ _ _ _
  · rfl
  · rfl

/-- What becomes of the site `s` at a probe that makes it `silent` probes in a row that found a
silent viewer. -/
structure Probed (silent : Nat) (s u : Site) : Prop where
  timesOut : (probeLimit s.circuit).toNat < silent →
    u.circuit.phase = .closing ∧ u.circuit.closeReason = some .timedOut
  stays : silent ≤ (probeLimit s.circuit).toNat →
    u.circuit.phase = s.circuit.phase ∧ u.circuit.closeReason = s.circuit.closeReason
  rests : silent = 0 → u.circuit.queue = s.circuit.queue ∧ u.history = s.history
  pings : 1 ≤ silent → silent ≤ (probeLimit s.circuit).toNat → ∃ p o, o.kind = .startPingCheck ∧
    u.circuit.queue = s.circuit.queue.enqueue o ∧ u.history = s.history ++ [.recycled p, .queued o]
  counts : silent ≤ (probeLimit s.circuit).toNat → u.circuit.probeFailures.toNat = silent

/-- What an open circuit knows after the beats. No limit so far was above the bound. -/
structure Pulse (config : Config) (beats : List Beat) (bound : Nat) (s : Site) : Prop where
  config_eq : s.circuit.config = config
  heard_eq : s.circuit.heard = !quiet true beats
  failures_eq : quiet true beats = true → s.circuit.probeFailures.toNat = silentProbes beats
  failures_le : s.circuit.probeFailures.toNat ≤ bound

variable {config : Config} {beats : List Beat} {bound : Nat}

/-- A probe ends an open circuit exactly if too many in a row found a silent viewer. -/
theorem Probed.ends_iff {silent : Nat} (h : Probed silent s u)
    (hopen : s.circuit.phase.isEnding = false) :
    u.circuit.phase.isEnding = true ↔ (probeLimit s.circuit).toNat < silent := by
  constructor
  · intro hends
    by_contra hwithin
    rw [(h.stays (Nat.le_of_not_lt hwithin)).1, hopen] at hends
    cases hends
  · intro hbeyond
    rw [(h.timesOut hbeyond).1]
    rfl

/-- A viewer that was never heard was not probed more often than the bound allows. -/
theorem Pulse.length_le (h : Pulse config beats bound s) (hsilent : ∀ b ∈ beats, b = .probed) :
    beats.length ≤ bound := by
  obtain ⟨hquiet, hlength⟩ := Beat.silentProbes_of_silent hsilent
  rw [← hlength, ← h.failures_eq hquiet]
  exact h.failures_le

theorem Pulse.same (h : Pulse config beats bound s) (hv : u.vitals = s.vitals) :
    Pulse config beats bound u := by
  have hc : u.circuit.config = s.circuit.config := congrArg Vitals.config hv
  have hh : u.circuit.heard = s.circuit.heard := congrArg Vitals.heard hv
  have hf : u.circuit.probeFailures = s.circuit.probeFailures := congrArg Vitals.failures hv
  obtain ⟨hconfig, hheard, hcount, hbound⟩ := h
  rw [← hc] at hconfig
  rw [← hh] at hheard
  rw [← hf] at hcount hbound
  exact ⟨hconfig, hheard, hcount, hbound⟩

theorem Pulse.hear {e : Effect} (h : Pulse config beats bound s)
    (hv : u.vitals = s.vitals.hear e) : Pulse config (beats ++ [.heard]) bound u := by
  have hc : u.circuit.config = s.circuit.config := congrArg Vitals.config hv
  have hh : u.circuit.heard = true := congrArg Vitals.heard hv
  have hf : u.circuit.probeFailures = 0 := congrArg Vitals.failures hv
  refine ⟨hc.trans h.config_eq, ?_, ?_, ?_⟩
  · rw [Beat.quiet_heard, hh]
    rfl
  · rw [Beat.quiet_heard]
    exact Bool.noConfusion
  · rw [hf]
    exact Nat.zero_le _

/-- A viewer that was heard since the last probe is left alone. -/
theorem probed_heard (hh : s.circuit.heard = true) : Probed 0 s s.probe := by
  rw [probe_of_heard hh]
  exact ⟨fun h => absurd h (Nat.not_lt_zero _), fun _ => ⟨rfl, rfl⟩, fun _ => ⟨rfl, rfl⟩,
    fun h => absurd h (Nat.not_succ_le_zero _), fun _ => rfl⟩

/-- A silent viewer is given up beyond the limit. -/
theorem probed_beyond {silent : Nat} (hopen : s.circuit.phase.isEnding = false)
    (hl : (probeLimit s.circuit).toNat < silent) :
    Probed silent s (s.counted.close .timedOut) := by
  have hphase : s.counted.circuit.phase = s.circuit.phase := rfl
  refine ⟨fun _ => ?_, fun h => absurd hl (by omega), fun h => absurd hl (by omega),
    fun _ h => absurd hl (by omega), fun h => absurd hl (by omega)⟩
  rw [close_circuit, hphase, hopen]
  exact ⟨rfl, rfl⟩

/-- A silent viewer is pinged up to the limit. -/
theorem probed_within {silent : Nat} (hs : s.pool.Sound) (hp : s.circuit.phase ≠ .closed)
    (hl : silent ≤ (probeLimit s.circuit).toNat) (hpos : 0 < silent)
    (hf : (s.circuit.probeFailures + 1).toNat = silent) :
    Probed silent s s.counted.startPing := by
  obtain ⟨p, o, -, hkind, asked, told, kept, reason⟩ := startPing_queues (s := s.counted) hs hp
  have vitals := vitals_aside.startPing s.counted hs
  have failures : s.counted.startPing.circuit.probeFailures = s.circuit.probeFailures + 1 :=
    congrArg Vitals.failures vitals
  refine ⟨fun h => absurd hl (by omega), fun _ => ⟨kept, reason⟩, fun h => absurd hpos (by omega),
    fun _ _ => ⟨p, o, hkind, asked, told⟩, fun _ => ?_⟩
  rw [failures, hf]

theorem probed_silent (hs : s.pool.Sound) (hh : s.circuit.heard = false)
    (hopen : s.circuit.phase.isEnding = false)
    (hf : (s.circuit.probeFailures + 1).toNat = s.circuit.probeFailures.toNat + 1) :
    Probed (s.circuit.probeFailures.toNat + 1) s s.probe := by
  rw [probe_of_silent hh, ← hf]
  split
  · next hlimit => exact probed_beyond hopen (UInt32.lt_iff_toNat_lt.1 hlimit)
  · next hlimit =>
    have hp : s.circuit.phase ≠ .closed := by
      intro h
      rw [h] at hopen
      cases hopen
    exact probed_within hs hp (Nat.le_of_not_lt (mt UInt32.lt_iff_toNat_lt.2 hlimit)) (by omega) rfl

theorem Pulse.probed (h : Pulse config beats bound s) (hs : s.pool.Sound)
    (hopen : s.circuit.phase.isEnding = false) (hb : bound < 0xFFFFFFFF) :
    Probed (silentProbes (beats ++ [.probed])) s s.probe := by
  rw [Beat.silentProbes_probed]
  cases hquiet : quiet true beats with
  | false =>
    have heard : s.circuit.heard = true := by rw [h.heard_eq, hquiet]; rfl
    exact probed_heard heard
  | true =>
    have heard : s.circuit.heard = false := by rw [h.heard_eq, hquiet]; rfl
    have hle := h.failures_le
    have fits : (s.circuit.probeFailures + 1).toNat = s.circuit.probeFailures.toNat + 1 := by
      rw [UInt32.toNat_add]
      exact Nat.mod_eq_of_lt (show s.circuit.probeFailures.toNat + 1 < 2 ^ 32 by omega)
    rw [if_pos rfl, ← h.failures_eq hquiet]
    exact probed_silent hs heard hopen fits

/-- A circuit that is open after a probe has counted it, and the count is within the limit. -/
theorem Pulse.probe (h : Pulse config beats bound s) (hs : s.pool.Sound)
    (hopen : s.circuit.phase.isEnding = false) (hb : bound < 0xFFFFFFFF)
    (hl : (probeLimit s.circuit).toNat ≤ bound) (hstill : s.probe.circuit.phase.isEnding = false) :
    Pulse config (beats ++ [.probed]) bound s.probe := by
  have probed := h.probed hs hopen hb
  have vitals := probe_vitals hs
  have within : silentProbes (beats ++ [.probed]) ≤ (probeLimit s.circuit).toNat := by
    by_contra hbeyond
    have hends := (probed.ends_iff hopen).2 (Nat.lt_of_not_le hbeyond)
    rw [hstill] at hends
    cases hends
  have counted := probed.counts within
  refine ⟨?_, ?_, fun _ => counted, counted ▸ within.trans hl⟩
  · rw [← h.config_eq]
    exact congrArg Vitals.config vitals
  · rw [Beat.quiet_probed]
    exact congrArg Vitals.heard vitals

theorem open_before (hs : s.pool.Sound) {m : Move}
    (h : (s.move m).circuit.phase.isEnding = false) : s.circuit.phase.isEnding = false := by
  have hrank := move_rank_le hs m
  unfold Phase.isEnding at h ⊢
  simp only [decide_eq_false_iff_not] at h ⊢
  omega

section

variable (config : Config) (viewer : Viewer) (remote : Address) (since : Nat)

theorem follow_config (moves : List Move) :
    ((opened config viewer remote since).follow moves).circuit.config = config := by
  induction moves using List.reverseRecOn with
  | nil => rfl
  | append_singleton moves m ih =>
    have sound := follow_sound (opened_sound config viewer remote since) moves
    rw [follow_snoc]
    rcases move_beats sound m with ⟨-, same⟩ | ⟨-, e, heard⟩ | ⟨-, probed⟩
    · exact (congrArg Vitals.config same).trans ih
    · exact (congrArg Vitals.config heard).trans ih
    · rw [probed]
      exact (congrArg Vitals.config (probe_vitals sound)).trans ih

/-- While the circuit is open, it counts the silent probes. -/
theorem follow_pulse {moves : List Move} (hb : bound < 0xFFFFFFFF)
    (hl : ∀ before, before <+: moves →
      (probeLimit ((opened config viewer remote since).follow before).circuit).toNat ≤ bound)
    (hopen : ((opened config viewer remote since).follow moves).circuit.phase.isEnding = false) :
    Pulse config ((opened config viewer remote since).beats moves) bound
      ((opened config viewer remote since).follow moves) := by
  induction moves using List.reverseRecOn with
  | nil => exact ⟨rfl, rfl, fun _ => rfl, Nat.zero_le _⟩
  | append_singleton moves m ih =>
    have sound := follow_sound (opened_sound config viewer remote since) moves
    have within := hl moves (List.prefix_append _ _)
    have earlier := ih fun before hp => hl before (hp.trans (List.prefix_append _ _))
    generalize opened config viewer remote since = s at sound within earlier hopen ⊢
    rw [follow_snoc] at hopen ⊢
    have before := open_before sound hopen
    have pulse := earlier before
    have hbeats : s.beats (moves ++ [m]) = s.beats moves ++ (s.follow moves).beat m :=
      trace_snoc _ _ _ _
    rw [hbeats]
    rcases move_beats sound m with ⟨hbeat, same⟩ | ⟨hbeat, e, heard⟩ | ⟨hbeat, probed⟩ <;>
      rw [hbeat]
    · rw [List.append_nil]
      exact pulse.same same
    · exact pulse.hear heard
    · rw [probed] at hopen ⊢
      exact pulse.probe sound before hb within hopen

/-- What the probe `m` does after the moves. A viewer that was neither heard nor blocked is given up
at one probe more than may fail. -/
structure ProbeExact (s : Site) (moves : List Move) (m : Move) : Prop where
  limit : probeLimit (s.follow moves).circuit = if (s.follow moves).circuit.blocked
    then config.maxProbeFailuresBlocked else config.maxProbeFailures
  probed : Probed (silentProbes (s.beats (moves ++ [m]))) (s.follow moves)
    (s.follow (moves ++ [m]))
  silent : (∀ b ∈ s.beats (moves ++ [m]), b = .probed) →
    (∀ before, before <+: moves → (s.follow before).circuit.blocked = false) →
      ((s.follow (moves ++ [m])).circuit.phase.isEnding = true ↔
        (s.beats (moves ++ [m])).length = config.maxProbeFailures.toNat + 1)

theorem follow_limit (moves : List Move) :
    probeLimit ((opened config viewer remote since).follow moves).circuit =
      if ((opened config viewer remote since).follow moves).circuit.blocked
        then config.maxProbeFailuresBlocked else config.maxProbeFailures := by
  unfold probeLimit
  rw [follow_config]

/-- Whatever happens to an open circuit, each of its probes counts the silent ones in a row, and
closes the circuit exactly if they are more than its limit. -/
theorem follow_probes (hl : config.maxProbeFailures < 0xFFFFFFFF)
    (hb : config.maxProbeFailuresBlocked < 0xFFFFFFFF) {moves : List Move}
    (hopen : ((opened config viewer remote since).follow moves).circuit.phase.isEnding = false)
    {i : AttendantId}
    (hi : ((opened config viewer remote since).follow moves).circuit.Enabled (.probe i))
    (conduct : Conduct) :
    ProbeExact config (opened config viewer remote since) moves (.step conduct (.probe i)) := by
  obtain ⟨m, hm⟩ : ∃ m, Move.step conduct (.probe i) = m := ⟨_, rfl⟩
  have limits := follow_limit config viewer remote since
  have pulse : ∀ bound, bound < 0xFFFFFFFF → (∀ before, before <+: moves →
      (probeLimit ((opened config viewer remote since).follow before).circuit).toNat ≤ bound) →
      Pulse config ((opened config viewer remote since).beats moves) bound
        ((opened config viewer remote since).follow moves) :=
    fun _ hb hl => follow_pulse config viewer remote since hb hl hopen
  have sound := follow_sound (opened_sound config viewer remote since) moves
  obtain ⟨hbeat, moved⟩ := beat_probe sound hi conduct
  rw [hm] at hbeat moved ⊢
  generalize opened config viewer remote since = s at limits pulse sound hbeat moved hopen ⊢
  have hbeats : s.beats (moves ++ [m]) = s.beats moves ++ [.probed] := by
    rw [beats, trace_snoc, hbeat]
    rfl
  have hnext : s.follow (moves ++ [m]) = (s.follow moves).probe := by rw [follow_snoc, moved]
  have hmax := UInt32.lt_iff_toNat_lt.1 hl
  have hmaxBlocked := UInt32.lt_iff_toNat_lt.1 hb
  have probed : Probed (silentProbes (s.beats (moves ++ [m]))) (s.follow moves)
      (s.follow (moves ++ [m])) := by
    rw [hbeats, hnext]
    have small : max config.maxProbeFailures.toNat config.maxProbeFailuresBlocked.toNat <
      0xFFFFFFFF := max_lt hmax hmaxBlocked
    refine (pulse _ small ?_).probed sound hopen small
    intro before _
    rw [limits]
    split
    · exact le_max_right _ _
    · exact le_max_left _ _
  refine ⟨limits moves, probed, ?_⟩
  intro hsilent hnever
  have counted := pulse config.maxProbeFailures.toNat hmax fun before hp => by
    rw [limits, hnever before hp]
    exact Nat.le_refl _
  have hearlier := counted.length_le fun b hmem =>
    hsilent b (hbeats ▸ List.mem_append_left _ hmem)
  have hlimit : (probeLimit (s.follow moves).circuit).toNat = config.maxProbeFailures.toNat := by
    rw [limits, hnever moves List.prefix_rfl]
    rfl
  have hcount : (s.beats (moves ++ [m])).length = (s.beats moves).length + 1 := by
    rw [hbeats, List.length_append]
    rfl
  rw [probed.ends_iff hopen, hlimit, (Beat.silentProbes_of_silent hsilent).2]
  omega

end

def silentMoves : List Move :=
  [.step {} .start, .step {} (.authenticated 0 (.authorized none)), .step {} (.joined 0),
   .step {} (.probe 0), .step {} (.receive (.ofMessage (.completePingCheck {}))),
   .step {} (.serve 0 1 true), .step {} (.probe 0), .step {} (.probe 0), .step {} (.probe 0)]

def impatient : Config := { sample.circuit.config with maxProbeFailures := 2 }

def hasty : Site := opened impatient ⟨.zero, .zero, 1⟩ (.v4 .unspecified 1) 0

theorem silent_viewer_given_up :
    impatient.maxProbeFailures < 0xFFFFFFFF ∧ impatient.maxProbeFailuresBlocked < 0xFFFFFFFF ∧
    (hasty.follow silentMoves).circuit.phase.isEnding = false ∧
    (hasty.follow silentMoves).circuit.Enabled (.probe 0) ∧
    ProbeExact impatient hasty silentMoves (.step {} (.probe 0)) ∧
    silentProbes (hasty.beats silentMoves) = 2 ∧
    silentProbes (hasty.beats (silentMoves ++ [.step {} (.probe 0)])) = 3 ∧
    (hasty.follow (silentMoves ++ [.step {} (.probe 0)])).circuit.closeReason = some .timedOut := by
  have hl : impatient.maxProbeFailures < 0xFFFFFFFF := by decide
  have hb : impatient.maxProbeFailuresBlocked < 0xFFFFFFFF := by decide
  have hopen : (hasty.follow silentMoves).circuit.phase.isEnding = false := by decide +kernel
  have hi : (hasty.follow silentMoves).circuit.Enabled (.probe 0) := by decide +kernel
  refine ⟨hl, hb, hopen, hi, follow_probes _ _ _ _ hl hb hopen hi {}, ?_, ?_, ?_⟩
  all_goals decide +kernel

end Site
end ViewerCircuit
