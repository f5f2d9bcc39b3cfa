import ViewerCircuit.Proofs.AckBookkeeping
import ViewerCircuit.Proofs.Duplicates
import ViewerCircuit.Proofs.Orderly
import ViewerCircuit.Proofs.StepTraffic

/-!
# Inbound packets

Inbound packets are processed in the order in which they were accepted. Each is acknowledged, and
dispatched unless a packet with its number was dispatched within the window before it.
-/
namespace ViewerCircuit

namespace Effect

def accepted? : Effect → Option Packet
  | accepted p => some p
  | _ => none

def processed? : Effect → Option (Packet × Nat)
  | processed p now => some (p, now)
  | _ => none

def fate? : Effect → Option Fate
  | dispatched p now => some ⟨p, now, true⟩
  | dropped p now => some ⟨p, now, false⟩
  | _ => none

def sparesInbound (e : Effect) : Prop :=
  e.accepted? = none ∧ e.processed? = none ∧ e.fate? = none

theorem spares_of_note {e : Effect} (h : e.isNote) : e.sparesInbound := by
  cases e <;> first | exact ⟨rfl, rfl, rfl⟩ | cases h

end Effect

namespace Traffic

def accepted (t : Traffic) : List Packet := t.history.filterMap Effect.accepted?

def processed (t : Traffic) : List (Packet × Nat) := t.history.filterMap Effect.processed?

def fates (t : Traffic) : List Fate := t.history.filterMap Effect.fate?

structure Inbound (window clock : Nat) (t : Traffic) : Prop where
  orderly : t.Orderly
  window_eq : t.duplicates.window = window
  in_order : t.processed.map Prod.fst ++ t.incoming <+: t.accepted
  none_lost : t.closed = false → t.processed.map Prod.fst ++ t.incoming = t.accepted
  judged : t.fates.map (fun f => (f.packet, f.time)) = t.processed
  fair : Fate.Fair window t.fates
  remembers : t.duplicates.Remembers clock t.fates
  counted : t.packetsIn = t.duplicatesDropped + t.fates.countP (·.dispatched)

variable {plain : Prop} {window now : Nat} {t u : Traffic}

/-- Whatever spares inbound packets and leaves their part of the traffic alone is no matter. -/
theorem Inbound.spared (ht : t.Inbound window now) (hu : u.Orderly) {l : List Effect}
    (hh : u.history = t.history ++ l) (hl : ∀ e ∈ l, e.sparesInbound)
    (hi : u.incoming = t.incoming) (hc : u.closed = false → t.closed = false)
    (hd : u.duplicates = t.duplicates) (hin : u.packetsIn = t.packetsIn)
    (hdrop : u.duplicatesDropped = t.duplicatesDropped) : u.Inbound window now := by
  have hacc : u.accepted = t.accepted := by
    have : l.filterMap Effect.accepted? = [] :=
      List.filterMap_eq_nil_iff.2 fun e he => (hl e he).1
    rw [accepted, hh, List.filterMap_append, this, List.append_nil, accepted]
  have hproc : u.processed = t.processed := by
    have : l.filterMap Effect.processed? = [] :=
      List.filterMap_eq_nil_iff.2 fun e he => (hl e he).2.1
    rw [processed, hh, List.filterMap_append, this, List.append_nil, processed]
  have hfate : u.fates = t.fates := by
    have : l.filterMap Effect.fate? = [] :=
      List.filterMap_eq_nil_iff.2 fun e he => (hl e he).2.2
    rw [fates, hh, List.filterMap_append, this, List.append_nil, fates]
  refine ⟨hu, ?_, ?_, ?_, ?_, ?_, ?_, ?_⟩
  · rw [hd]
    exact ht.window_eq
  · rw [hproc, hi, hacc]
    exact ht.in_order
  · rw [hproc, hi, hacc]
    exact fun h => ht.none_lost (hc h)
  · rw [hfate, hproc]
    exact ht.judged
  · rw [hfate]
    exact ht.fair
  · rw [hfate, hd]
    exact ht.remembers
  · rw [hfate, hin, hdrop]
    exact ht.counted

theorem Inbound.receive {p : Packet} (ht : t.Inbound window now)
    (hp : t.phase.isEnding = false) :
    ({ t with incoming := t.incoming ++ [p] }.log (.accepted p)).Inbound window now := by
  have hopen : t.closed = false := ht.orderly.closed_eq.trans hp
  have hacc : ({ t with incoming := t.incoming ++ [p] }.log (.accepted p)).accepted =
      t.accepted ++ [p] := by simp [accepted, log, Effect.accepted?]
  have hproc : ({ t with incoming := t.incoming ++ [p] }.log (.accepted p)).processed =
      t.processed := by simp [processed, log, Effect.processed?]
  have hfate : ({ t with incoming := t.incoming ++ [p] }.log (.accepted p)).fates = t.fates := by
    simp [fates, log, Effect.fate?]
  have hall : t.processed.map Prod.fst ++ (t.incoming ++ [p]) = t.accepted ++ [p] := by
    rw [← List.append_assoc, ht.none_lost hopen]
  refine ⟨⟨ht.orderly.closed_eq, ht.orderly.closed_of_leaving⟩, ht.window_eq, ?_, ?_, ?_, ?_, ?_,
    ?_⟩
  · rw [hproc, hacc]
    exact hall ▸ List.prefix_rfl
  · rw [hproc, hacc]
    exact fun _ => hall
  · rw [hfate, hproc]
    exact ht.judged
  · rw [hfate]
    exact ht.fair
  · rw [hfate]
    exact ht.remembers
  · rw [hfate]
    exact ht.counted

theorem Inbound.process {p : Packet} {rest : List Packet} (ht : t.Inbound window now)
    (hc : t.closed = false) (hi : t.incoming = p :: rest) :
    ((({ t with incoming := rest }).acknowledge now p).decide now p).Inbound window now := by
  obtain ⟨seen, hseen⟩ : ∃ seen, (t.duplicates.seen p.sequence p.kind now).1 = seen := ⟨_, rfl⟩
  obtain ⟨owes, howes⟩ : ∃ owes, (t.ackState.arrive p).1 = owes := ⟨_, rfl⟩
  obtain ⟨u, hu⟩ : ∃ u, (({ t with incoming := rest }).acknowledge now p).decide now p = u :=
    ⟨_, rfl⟩
  have hh : u.history = t.history ++ (.processed p now ::
      (if owes then [.owes p.sequence] else []) ++
        [if seen then .dropped p now else .dispatched p now]) := by
    rw [← hu, ← hseen, ← howes]
    exact history_process now p { t with incoming := rest }
  have hacc : u.accepted = t.accepted := by
    rw [accepted, hh]
    cases seen <;> cases owes <;> simp [accepted, Effect.accepted?]
  have hproc : u.processed = t.processed ++ [(p, now)] := by
    rw [processed, hh]
    cases seen <;> cases owes <;> simp [processed, Effect.processed?]
  have hfate : u.fates = t.fates ++ [⟨p, now, !seen⟩] := by
    rw [fates, hh]
    cases seen <;> cases owes <;> simp [fates, List.filterMap_cons, Effect.fate?]
  have hall : u.processed.map Prod.fst ++ u.incoming = u.accepted := by
    rw [hproc, hacc, ← ht.none_lost hc, hi, ← hu]
    simp [decide, acknowledge]
  have hmemory : u.duplicates = (t.duplicates.seen p.sequence p.kind now).2 := by
    rw [← hu]
    rfl
  have hjudged : ⟨p, now, !seen⟩ =
      Fate.mk p now (!(t.duplicates.seen p.sequence p.kind now).1) := by
    rw [hseen]
  rw [hu]
  refine ⟨?_, ?_, ?_, fun _ => hall, ?_, ?_, ?_, ?_⟩
  · rw [← hu]
    exact ⟨ht.orderly.closed_eq, ht.orderly.closed_of_leaving⟩
  · rw [hmemory, Duplicates.window_seen]
    exact ht.window_eq
  · exact hall ▸ List.prefix_rfl
  · rw [hfate, hproc, List.map_append, ht.judged]
    rfl
  · rw [hfate]
    refine ht.fair.append ?_
    rw [← ht.window_eq, ← ht.remembers.seen_iff p (!seen), hseen]
    cases seen <;> simp
  · rw [hfate, hmemory, hjudged]
    exact ht.remembers.see p
  · rw [hfate, List.countP_append]
    have hin : u.packetsIn = t.packetsIn + 1 := by rw [← hu]; rfl
    have hdrop : u.duplicatesDropped = t.duplicatesDropped + if seen then 1 else 0 := by
      rw [← hu, ← hseen]
      rfl
    have := ht.counted
    cases seen <;> simp [hin, hdrop] <;> omega

theorem Step.inbound (h : Step plain now t u) (ht : t.Inbound window now) :
    u.Inbound window now := by
  have hu : u.Orderly := h.orderly ht.orderly
  cases h with
  | note he =>
    refine ht.spared hu (l := [_]) rfl ?_ rfl id rfl rfl rfl
    simpa using Effect.spares_of_note he
  | queue | turnAway | queueAcks | requeue | release =>
    refine ht.spared hu (l := [_]) rfl ?_ rfl id rfl rfl rfl
    simp [Effect.sparesInbound, Effect.accepted?, Effect.processed?, Effect.fate?]
  | flush =>
    refine ht.spared hu (l := [_]) rfl ?_ rfl id rfl rfl rfl
    simp [Effect.sparesInbound, Effect.accepted?, Effect.processed?, Effect.fate?]
  | close =>
    refine ht.spared hu (l := [_]) rfl ?_ rfl (by simp [log]) rfl rfl rfl
    simp [Effect.sparesInbound, Effect.accepted?, Effect.processed?, Effect.fate?]
  | receive hp => exact ht.receive hp
  | process hs hc hi => exact ht.process hc hi
  | sweep =>
    exact ⟨hu, ht.window_eq, ht.in_order, ht.none_lost, ht.judged, ht.fair, ht.remembers.sweep,
      ht.counted⟩
  | collect hs =>
    have hc : t.closed = true := ht.orderly.closed_of_stage hs rfl
    refine ⟨hu, ht.window_eq, ?_, ?_, ht.judged, ht.fair, ht.remembers, ht.counted⟩
    · show t.processed.map Prod.fst ++ [] <+: t.accepted
      exact (List.prefix_append_right_inj _).2 (List.nil_prefix) |>.trans ht.in_order
    · intro h
      exact absurd (show t.closed = false from h) (by simp [hc])
  | refuse =>
    exact ht.spared hu (l := []) (by simp [attend]) (by simp) rfl (by simp [attend]) rfl rfl rfl
  | _ => exact ht.spared hu (l := []) (List.append_nil _).symm (by simp) rfl id rfl rfl rfl

theorem Inbound.started (ht : t.Inbound window now) : t.started.Inbound window now :=
  ⟨ht.orderly.started, ht.window_eq, ht.in_order, ht.none_lost, ht.judged, ht.fair, ht.remembers,
    ht.counted⟩

theorem Inbound.later {later : Nat} (ht : t.Inbound window now) (hn : now ≤ later) :
    t.Inbound window later :=
  ⟨ht.orderly, ht.window_eq, ht.in_order, ht.none_lost, ht.judged, ht.fair, ht.remembers.later hn,
    ht.counted⟩

theorem Reachable.inbound {start : Traffic} {starts clock : Nat}
    (h : Reachable plain True start starts clock t) (hs : start.Inbound window 0) :
    t.Inbound window clock := by
  induction h with
  | refl => exact hs
  | started _ ih => exact ih.started
  | wait _ hn ih => exact ih.later (hn trivial)
  | step _ step ih => exact step.inbound ih

end Traffic

namespace Site

theorem Takes.ackState {s : Site} {i : AttendantId} {p : Packet} {rest : List Packet}
    (h : s.Takes i p rest) (hs : s.pool.Sound) (conduct : Conduct) (now : Nat)
    (linkUp : Bool) :
    (s.move (.step conduct (.serve i now linkUp))).circuit.ackState =
      (s.circuit.ackState.arrive p).2 := by
  have sound : (s.popped rest).pool.Sound := hs
  rw [move_takes h, process_ackState sound]
  rfl

end Site
end ViewerCircuit
