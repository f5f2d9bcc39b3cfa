import ViewerCircuit.Proofs.AckBookkeeping
import ViewerCircuit.Proofs.Inbound

/-!
# Repeated packets

A packet that comes again while its number is remembered changes nothing that the first one did,
whatever kind it has and whoever handles it. It is only counted. A number is remembered from its
dispatch on; what is dropped within the window does not prolong it.
-/
namespace ViewerCircuit

def Effect.isEvent : Effect → Bool
  | eventPublished _ _ => true
  | _ => false

namespace OwedAcks

variable {o : OwedAcks} {sequence : UInt32}

theorem accept_of_known (h : o.members.contains sequence = true) :
    o.accept sequence = (false, o) := by
  rw [accept, if_pos h]

theorem accept_of_full (h : o.limit ≤ o.count) : o.accept sequence = (false, o) := by
  unfold accept
  rw [if_pos h, ite_self]

/-- A number that was offered before is not taken again, whether it was taken or not. -/
theorem accept_again (o : OwedAcks) (sequence : UInt32) :
    (o.accept sequence).2.accept sequence = (false, (o.accept sequence).2) := by
  by_cases hm : o.members.contains sequence = true
  · rw [accept_of_known hm, accept_of_known hm]
  · by_cases hf : o.limit ≤ o.count
    · rw [accept_of_full hf, accept_of_full hf]
    · refine accept_of_known ?_
      rw [accept, if_neg hm, if_neg hf]
      simp

end OwedAcks

namespace AckState

variable {a : AckState}

theorem acked_of_not {sequences : List UInt32}
    (h : ∀ id ∈ sequences, a.inFlight.contains id = false) : a.acked sequences = a := by
  induction sequences with
  | nil => rfl
  | cons first sequences ih =>
    rw [acked_cons, InFlight.remove_of_not (h first List.mem_cons_self)]
    exact ih fun id hid => h id (List.mem_cons_of_mem _ hid)

theorem arrive_again (a : AckState) (p : Packet) :
    (a.arrive p).2.arrive p = (false, (a.arrive p).2) := by
  have settled : (a.arrive p).2.acked p.acked = (a.arrive p).2 := by
    refine acked_of_not ?_
    intro id hid
    rw [arrive_inFlight]
    exact contains_acked hid
  have owed : p.flags.reliable = true →
      (a.arrive p).2.owed.accept p.sequence = (false, (a.arrive p).2.owed) := by
    intro hr
    rw [arrive_owed, if_pos hr]
    exact OwedAcks.accept_again a.owed p.sequence
  generalize (a.arrive p).2 = b at settled owed ⊢
  unfold arrive
  rw [settled]
  dsimp only
  split
  · next hr => rw [owed hr]
  · rfl

end AckState

namespace Duplicates

variable {d : Duplicates} {sequence : UInt32} {kind : MessageKind} {now : Nat}

theorem seen_eq (h : (d.seen sequence kind now).1 = true) :
    d.seen sequence kind now = (true, d) :=
  Prod.ext h (seen_kept h)

/-- A number is known for a window after it was recorded. -/
theorem seen_again {first second : Nat} (hw : second ≤ first + d.window)
    (hs : (d.seen sequence kind first).1 = true → (d.seen sequence kind second).1 = true) :
    (d.seen sequence kind first).2.seen sequence kind second =
      (true, (d.seen sequence kind first).2) := by
  cases h : (d.seen sequence kind first).1 with
  | true =>
    rw [seen_kept h]
    exact seen_eq (hs h)
  | false =>
    refine seen_eq (known_iff.2 ⟨(first, kind), ?_, ?_⟩)
    · rw [seen_recorded h, Table.get?_put_self]
    · rw [window_seen]
      dsimp only
      omega

end Duplicates

def Conduct.Blocks (conduct : Conduct) : Prop :=
  ∃ handler occasion, .setBlocked true ∈ (conduct.respond handler occasion).actions

theorem Conduct.gives_blocks {pauses : Prop} (conduct : Conduct) :
    conduct.Gives (fun _ => True) (pauses ∨ conduct.Blocks) := by
  intro handler occasion action ha
  cases action with
  | send => exact .inr trivial
  | tell notice => cases notice <;> trivial
  | setBlocked blocked =>
    cases blocked with
    | true => exact .inr ⟨handler, occasion, ha⟩
    | false => trivial
  | _ => trivial

theorem Traffic.Step.window_kept {plain : Prop} {now : Nat} {t u : Traffic}
    (h : Traffic.Step plain now t u) : u.duplicates.window = t.duplicates.window := by
  cases h with
  | process => exact Duplicates.window_seen _ _
  | _ => rfl

theorem Traffic.Reachable.window_kept {plain timed : Prop} {start t : Traffic} {starts clock : Nat}
    (h : Traffic.Reachable plain timed start starts clock t) :
    t.duplicates.window = start.duplicates.window := by
  induction h with
  | refl => rfl
  | started _ ih => exact ih
  | wait _ _ ih => exact ih
  | step _ step ih => exact step.window_kept.trans ih

namespace Site

variable {s : Site} {p : Packet}

def Knows (s : Site) (p : Packet) (now : Nat) : Prop :=
  (s.circuit.duplicates.seen p.sequence p.kind now).1 = true

instance (s : Site) (p : Packet) (now : Nat) : Decidable (s.Knows p now) :=
  inferInstanceAs (Decidable (_ = true))

/-- What the first processing of a packet leaves behind, whatever its handlers did. -/
theorem process_leaves (hs : s.pool.Sound) (conduct : Conduct) (now : Nat) (p : Packet) :
    (s.process conduct now p).circuit.ackState = (s.circuit.ackState.arrive p).2 ∧
    (s.process conduct now p).circuit.duplicates =
      (s.circuit.duplicates.seen p.sequence p.kind now).2 ∧
    (s.process conduct now p).circuit.heard = true ∧
    (s.process conduct now p).circuit.probeFailures = 0 ∧
    ((s.process conduct now p).circuit.blocked = true →
      p.kind = .agentPause ∨ conduct.Blocks) := by
  have frame := process_frame hs conduct now p
  refine ⟨process_ackState hs conduct now p, congrArg Circuit.duplicates frame,
    congrArg Circuit.heard frame, congrArg Circuit.probeFailures frame, ?_⟩
  obtain ⟨u, hpool, hcircuit, -, does⟩ := process_does conduct.gives_blocks .inl now s
  intro hb
  have blocked := (does.framed (hpool ▸ hs)).blocked hb
  rw [hcircuit] at blocked
  exact blocked.resolve_left Bool.noConfusion

/-- A packet that is known in every way is counted and dropped. -/
theorem process_known (now : Nat) (conduct : Conduct)
    (ha : s.circuit.ackState.arrive p = (false, s.circuit.ackState))
    (hd : s.circuit.duplicates.seen p.sequence p.kind now = (true, s.circuit.duplicates)) :
    (s.process conduct now p).circuit = { s.circuit with
      counters := { s.circuit.counters with
        packetsIn := s.circuit.counters.packetsIn + 1
        duplicatesDropped := s.circuit.counters.duplicatesDropped + 1 }
      heard := true
      probeFailures := 0
      blocked := false } ∧
    (s.process conduct now p).history =
      s.history ++ [.processed p now, .dropped p now, .recycled p] := by
  have acked : s.ackStep now p = (s.emit (.processed p now)).update fun c => { c with
      counters := { c.counters with packetsIn := c.counters.packetsIn + 1 }
      heard := true
      probeFailures := 0
      blocked := false } := by
    simp [ackStep, acknowledge, emit, update, ha]
  unfold process settle
  rw [acked]
  dsimp only [emit, update]
  rw [hd]
  exact ⟨rfl, by simp [history, recycle]⟩

/-- What a site is like when a packet was processed `once` or `twice`, at last at the time `now`. A
handler that blocked the circuit is not called again, and any packet unblocks it. -/
structure Repeated (conduct : Conduct) (p : Packet) (now : Nat) (once twice : Site) : Prop where
  circuit : { twice.circuit with blocked := once.circuit.blocked } = { once.circuit with
    counters := { once.circuit.counters with
      packetsIn := once.circuit.counters.packetsIn + 1
      duplicatesDropped := once.circuit.counters.duplicatesDropped + 1 } }
  blocked : p.kind ≠ .agentPause → ¬conduct.Blocks → twice.circuit.blocked = once.circuit.blocked
  unblocked : p.kind ≠ .agentPause → twice.circuit.blocked = false
  history : twice.history = once.history ++ [.processed p now, .dropped p now, .recycled p]

theorem process_repeated (hs : s.pool.Sound) (conduct : Conduct) {first second : Nat}
    (hw : second ≤ first + s.circuit.duplicates.window)
    (hd : s.Knows p first → s.Knows p second) :
    Repeated conduct p second (s.process conduct first p)
      ((s.process conduct first p).process conduct second p) := by
  obtain ⟨acks, numbers, heard, failures, paused⟩ := process_leaves hs conduct first p
  obtain ⟨once, honce⟩ : ∃ once, s.process conduct first p = once := ⟨_, rfl⟩
  rw [honce] at acks numbers heard failures paused ⊢
  have known := process_known (s := once) (p := p) second conduct
    (by rw [acks]; exact AckState.arrive_again _ p)
    (by rw [numbers]; exact Duplicates.seen_again hw hd)
  have unblocked : (once.process conduct second p).circuit.blocked = false := by rw [known.1]
  refine ⟨?_, ?_, fun _ => unblocked, known.2⟩
  · rw [known.1, ← heard, ← failures]
  · intro hk hb
    rw [unblocked]
    exact (Bool.eq_false_iff.2 fun h => (paused h).elim hk hb).symm

/-- In every state of every run, a packet that comes again within the window changes nothing
that it did before, provided that its number, if it is known the first time, is known the second
time too. -/
theorem follow_hides_repetition (config : Config) (viewer : Viewer) (remote : Address) (since : Nat)
    (moves : List Move) (conduct : Conduct) (p : Packet) {first second : Nat}
    (hw : second ≤ first + config.dupeWindow)
    (hd : ((opened config viewer remote since).follow moves).Knows p first →
      ((opened config viewer remote since).follow moves).Knows p second) :
    Repeated conduct p second
      (((opened config viewer remote since).follow moves).process conduct first p)
      ((((opened config viewer remote since).follow moves).process conduct first p).process conduct
        second p) := by
  obtain ⟨last, h⟩ := follow_traffic config viewer remote since moves
  refine process_repeated (follow_sound (PacketPool.empty_sound _ _) moves) conduct ?_ hd
  have window : ((opened config viewer remote since).follow moves).circuit.duplicates.window =
    config.dupeWindow := h.window_kept
  rw [window]
  exact hw

def served : Site := sample.follow [.step {} .start,
  .step {} (.authenticated 0 (.authorized none)), .step {} (.joined 0),
  .step {} (.subscribe .chat ⟨"listener"⟩)]

def numbered (m : Message) : Packet := { Packet.reliable m with sequence := 7 }

def chat : Packet := numbered (.chatFromViewer { message := "hello" })

def pause : Packet := numbered (.agentPause {})

theorem chat_heard_once :
    31 * Time.second ≤ 1 * Time.second + ({} : Config).dupeWindow ∧
    (served.Knows chat (1 * Time.second) → served.Knows chat (31 * Time.second)) ∧
    Repeated {} chat (31 * Time.second) (served.process {} (1 * Time.second) chat)
      ((served.process {} (1 * Time.second) chat).process {} (31 * Time.second) chat) ∧
    ((served.process {} (1 * Time.second) chat).process {} (31 * Time.second) chat).history.countP
      Effect.isEvent = 1 := by
  have hw : 31 * Time.second ≤ 1 * Time.second + ({} : Config).dupeWindow := by decide
  have hd : served.Knows chat (1 * Time.second) → served.Knows chat (31 * Time.second) := by
    decide +kernel
  exact ⟨hw, hd, follow_hides_repetition _ _ _ _ _ {} chat hw hd, by decide +kernel⟩

def blocking : Conduct := { respond := fun _ _ => { actions := [.setBlocked true] } }

/-- The second pause unblocks the circuit that the first one blocked, and so does what was said
again where a listener blocked the circuit. And what was said first is heard again after its window,
although it was repeated within. -/
theorem repetition_noticed :
    served.circuit.phase = .active ∧
    (served.process {} 0 pause).circuit.blocked = true ∧
    ((served.process {} 0 pause).process {} 0 pause).circuit.blocked = false ∧
    (served.process blocking 0 chat).circuit.blocked = true ∧
    ((served.process blocking 0 chat).process blocking 0 chat).circuit.blocked = false ∧
    40 * Time.second ≤ 20 * Time.second + ({} : Config).dupeWindow ∧
    ((served.process {} 0 chat).process {} (20 * Time.second) chat).history.countP
      Effect.isEvent = 1 ∧
    (((served.process {} 0 chat).process {} (20 * Time.second) chat).process {}
      (40 * Time.second) chat).history.countP Effect.isEvent = 2 := by
  refine ⟨?_, ?_, ?_, ?_, ?_, ?_, ?_, ?_⟩
  all_goals decide +kernel

end Site
end ViewerCircuit
