import Mathlib.Data.List.Induction
import Mathlib.Data.List.Range
import ViewerCircuit.Proofs.StepTraffic

/-!
# Sequence numbers

Every packet that is accepted for sending takes the next number, whoever sends it and whether it can
be written or not. Nothing else touches the numbers, and nothing ever changes whose circuit it is.
-/
namespace ViewerCircuit

def Effect.number? : Effect → Option UInt32
  | queued o => some o.sequence
  | unwritable p _ => some p.sequence
  | _ => none

/-- The packets that were accepted, in their order. -/
def acceptedIn (history : List Effect) : List Effect :=
  history.filter fun e => e.number?.isSome

theorem map_acceptedIn (history : List Effect) :
    (acceptedIn history).map Effect.number? = (history.filterMap Effect.number?).map some := by
  induction history with
  | nil => rfl
  | cons e history ih =>
    unfold acceptedIn at ih ⊢
    cases he : e.number? with
    | none => simp [he, ih]
    | some n => simp [he, ih]

/-- The packet was accepted under the number: it is queued as it was written, or cannot be
written. -/
def Effect.Accepts (p : Packet) (category : Category) (n : UInt32) (e : Effect) : Prop :=
  (∃ bytes, { p with sequence := n }.encode = .ok bytes ∧
    Datagram.sequence? bytes = some n ∧
    e = .queued (.ofPacket { p with sequence := n } bytes category)) ∨
  ∃ error, { p with sequence := n }.encode = .error error ∧
    e = .unwritable { p with sequence := n } error

namespace Numbering

theorem take_add (m n : Nat) (s : Numbering) :
    s.take (m + n) = ((s.take m).1 ++ ((s.take m).2.take n).1, ((s.take m).2.take n).2) := by
  induction m generalizing s with
  | zero => simp [take]
  | succ m ih => simp [Nat.succ_add, take, ih]

section

/-- The number of the packet at the place `k`, counted from zero. -/
def nth (max : UInt32) (k : Nat) : UInt32 := UInt32.ofNat (k % max.toNat + 1)

def after (max : UInt32) (count : Nat) : Numbering where
  last := if count = 0 then 0 else nth max (count - 1)
  max

variable {max : UInt32} (hm : 0 < max) (k : Nat)

include hm

/-- No number is above the limit, so none overflows. -/
theorem toNat_nth : (nth max k).toNat = k % max.toNat + 1 := by
  have hpos : 0 < max.toNat := UInt32.lt_iff_toNat_lt.1 hm
  have hk : k % max.toNat < max.toNat := Nat.mod_lt _ hpos
  have hmax := max.toNat_lt
  rw [nth, UInt32.toNat_ofNat', Nat.mod_eq_of_lt]
  omega

/-- Equal numbers are whole cycles apart. -/
theorem mod_eq_of_nth_eq {i j : Nat} (h : nth max i = nth max j) :
    i % max.toNat = j % max.toNat := by
  have := congrArg UInt32.toNat h
  rw [toNat_nth hm, toNat_nth hm] at this
  exact Nat.succ.inj this

theorem next_after : (after max k).next = (nth max k, after max (k + 1)) := by
  have hsucc : (after max k).successor = nth max k := by
    apply UInt32.toNat_inj.1
    rw [toNat_nth hm, successor, after]
    cases k with
    | zero =>
      have hsmall : ¬ max ≤ 0 := UInt32.not_le.2 hm
      simp [hsmall]
    | succ k =>
      have hlast := toNat_nth hm k
      have hpos : 0 < max.toNat := UInt32.lt_iff_toNat_lt.1 hm
      have hk : k % max.toNat < max.toNat := Nat.mod_lt _ hpos
      have hmax := max.toNat_lt
      have hdiv := Nat.mod_add_div k max.toNat
      simp only [Nat.add_one_ne_zero, if_false, Nat.add_sub_cancel]
      by_cases hwrap : max ≤ nth max k
      · have hfull : k + 1 = max.toNat * (k / max.toNat + 1) := by
          have := UInt32.le_iff_toNat_le.1 hwrap
          rw [Nat.mul_add_one]
          omega
        rw [if_pos hwrap, hfull, Nat.mul_mod_right]
        rfl
      · have hroom : k % max.toNat + 1 < max.toNat := by
          have := UInt32.lt_iff_toNat_lt.1 (UInt32.not_le.1 hwrap)
          omega
        have hsum : k + 1 = max.toNat * (k / max.toNat) + (k % max.toNat + 1) := by omega
        rw [if_neg hwrap, UInt32.toNat_add, hlast, hsum, Nat.mul_add_mod, Nat.mod_eq_of_lt hroom,
          Nat.mod_eq_of_lt]
        · rfl
        · simp only [UInt32.reduceToNat]
          omega
  rw [next, hsucc]
  rfl

theorem take_after (count : Nat) :
    (after max k).take count = ((List.range' k count).map (nth max), after max (k + count)) := by
  induction count generalizing k with
  | zero => rfl
  | succ count ih =>
    rw [take, next_after hm]
    simp only [ih, List.range'_succ, List.map_cons]
    rw [Nat.add_right_comm, Nat.add_assoc]

end

end Numbering

structure Papers where
  config : Config
  viewer : Viewer
  remote : Address
  sequences : Numbering
  numbers : List UInt32

def Papers.counted (count : Nat) (p : Papers) : Papers :=
  { p with
    sequences := (p.sequences.take count).2
    numbers := p.numbers ++ (p.sequences.take count).1 }

theorem Papers.counted_counted (m n : Nat) (p : Papers) :
    (p.counted m).counted n = p.counted (m + n) := by
  simp [counted, Numbering.take_add]

namespace Site

def papers (s : Site) : Papers where
  config := s.circuit.config
  viewer := s.circuit.viewer
  remote := s.circuit.remote
  sequences := s.circuit.sequences
  numbers := s.history.filterMap Effect.number?

def Counts (s u : Site) : Prop := ∃ count, u.papers = s.papers.counted count

variable {s u v : Site} {e : Effect}

theorem Counts.of_eq (h : u.papers = s.papers) : Counts s u :=
  ⟨0, by simp [h, Papers.counted, Numbering.take]⟩

theorem Counts.refl (s : Site) : Counts s s := .of_eq rfl

theorem Counts.trans (h : Counts s u) (k : Counts u v) : Counts s v := by
  obtain ⟨m, hm⟩ := h
  obtain ⟨n, hn⟩ := k
  exact ⟨m + n, by rw [hn, hm, Papers.counted_counted]⟩

theorem papers_emit (he : e.number? = none) (s : Site) : (s.emit e).papers = s.papers := by
  simp [papers, emit, history, he]

theorem papers_recycle (p : Packet) (s : Site) : (s.recycle p).papers = s.papers := by
  simp [papers, recycle, history, Effect.number?]

/-- A packet gets the next number, unless the circuit is closed. -/
theorem papers_send (p : Packet) (category : Category) (s : Site) :
    (s.send p category).2.papers =
      s.papers.counted (if s.circuit.phase = .closed then 0 else 1) := by
  unfold send
  split
  · simp [papers, emit, recycle, history, Effect.number?, Papers.counted, Numbering.take]
  · dsimp only
    split
    · simp [papers, emit, update, history, Effect.number?, Papers.counted, Numbering.take,
        Numbering.next]
    · simp [papers, emit, recycle, update, history, Effect.number?, Papers.counted, Numbering.take,
        Numbering.next]
      rfl

/-- A circuit that is not closed accepts every packet, with the next number. -/
theorem send_accepts (p : Packet) (category : Category) (hp : s.circuit.phase ≠ .closed) :
    ∃ e : Effect, e.Accepts p category s.circuit.sequences.next.1 ∧
      acceptedIn (s.send p category).2.history = acceptedIn s.history ++ [e] := by
  unfold send
  rw [if_neg hp]
  dsimp only
  obtain ⟨numbered, hn⟩ :
      ∃ numbered, { p with sequence := s.circuit.sequences.next.1 } = numbered := ⟨_, rfl⟩
  cases he : numbered.encode with
  | error error =>
    refine ⟨.unwritable numbered error, .inr ⟨error, ?_, ?_⟩, ?_⟩
    · rw [hn, he]
    · rw [hn]
    · rw [hn, he]
      simp [emit, update, history, acceptedIn, Effect.number?]
  | ok bytes =>
    refine ⟨.queued (.ofPacket numbered bytes category), .inl ⟨bytes, ?_, ?_, ?_⟩, ?_⟩
    · rw [hn, he]
    · rw [Packet.sequence_of_encode he, ← hn]
    · rw [hn]
    · rw [hn, he]
      simp [emit, update, recycle, history, acceptedIn, Effect.number?]

theorem send_closed {p : Packet} {category : Category} (hp : s.circuit.phase = .closed) :
    acceptedIn (s.send p category).2.history = acceptedIn s.history := by
  rw [send_turned category p hp]
  simp [acceptedIn, Effect.number?]

theorem send_counts (p : Packet) (category : Category) (s : Site) :
    Counts s (s.send p category).2 :=
  ⟨_, papers_send p category s⟩

theorem sendAll_counts (ps : List (Packet × Category)) (s : Site) :
    Counts s (sendAll ps s).2 := by
  induction ps generalizing s with
  | nil => exact .refl s
  | cons e ps ih =>
    have first := send_counts e.1 e.2 s
    unfold sendAll
    split
    · next u hu =>
      rw [hu] at first
      exact first.trans (ih u)
    · next u hu =>
      rw [hu] at first
      exact first

theorem inform_counts (notice : Notice) (s : Site) : Counts s (s.inform notice) :=
  sendAll_counts _ { s with pool := _ }

theorem papers_close (reason : CloseReason) (s : Site) : (s.close reason).papers = s.papers := by
  have hh : (s.close reason).history = s.history ++ [.closeCalled reason] := history_emit _ _
  simp [papers, close_circuit, hh, Effect.number?]

theorem Deed.counts {given : Packet → Prop} {pauses ends : Prop} (h : Deed given pauses ends s u) :
    Counts s u := by
  cases h with
  | @remark e he =>
    refine .of_eq (papers_emit ?_ s)
    cases e <;> first | rfl | cases he
  | recycle => exact .of_eq (papers_recycle _ s)
  | send => exact send_counts _ _ s
  | close => exact .of_eq (papers_close _ s)
  | _ => exact .of_eq rfl

theorem Does.counts (h : Does (fun _ => True) True True s u) (hs : s.pool.Sound) : Counts s u :=
  h.invariant (motive := Counts s) hs (.refl s) fun _ _ deed ih => ih.trans deed.counts

theorem sendAckChunks_counts (chunks : Nat) (s : Site) : Counts s (sendAckChunks chunks s) := by
  induction chunks generalizing s with
  | zero => exact .refl s
  | succ chunks ih =>
    unfold sendAckChunks
    dsimp only
    split
    · exact .refl s
    · have taken : Counts s s.takeAcks.2 := .of_eq rfl
      exact taken.trans ((inform_counts _ _).trans (ih _))

theorem papers_requeueAll (due : List Retransmission) (s : Site) :
    (due.foldl (fun s r => s.requeue r) s).papers = s.papers := by
  induction due generalizing s with
  | nil => rfl
  | cons r due ih => exact (ih _).trans (papers_emit (e := .requeued _) rfl _)

theorem ackTick_counts (now : Nat) (s : Site) : Counts s (s.ackTick now) := by
  have copied := papers_requeueAll (s.sendOwedAcks.circuit.ackState.inFlight.retransmit now).1
    (s.sendOwedAcks.update fun c =>
      { c with ackState.inFlight := (c.ackState.inFlight.retransmit now).2 })
  exact (sendAckChunks_counts _ s).trans (.of_eq copied)

theorem papers_transmit (now : Nat) (linkUp : Bool) (o : Outgoing) (s : Site) :
    (s.transmit now linkUp o).2.papers = s.papers := by
  unfold transmit
  cases linkUp
  · exact papers_emit rfl _
  · exact papers_emit rfl _

theorem papers_withRemaining (i : AttendantId) (joined : Bool) (remaining : List Outgoing)
    (s : Site) : (s.update (·.withRemaining i joined remaining)).papers = s.papers := by
  unfold Circuit.withRemaining
  dsimp only
  split <;> rfl

theorem papers_onVerdict (i : AttendantId) (verdict : Verdict) (s : Site) :
    (s.onVerdict i verdict).papers = s.papers := by
  cases verdict with
  | authorized login =>
    unfold onVerdict
    dsimp only
    split
    · rfl
    · exact papers_emit rfl _
  | _ => rfl

theorem process_counts (conduct : Conduct) (now : Nat) (p : Packet) (hs : s.pool.Sound) :
    Counts s (s.process conduct now p) := by
  obtain ⟨u, hu, hcircuit, hhistory, does⟩ :=
    process_does conduct.gives_any (fun _ => trivial) now s
  have same : u.papers = s.papers := by
    unfold papers
    rw [hcircuit, hhistory, List.filterMap_append]
    split <;> split <;> simp [Effect.number?]
  exact (Counts.of_eq same).trans (does.counts (hu ▸ hs))

theorem serve_counts (conduct : Conduct) (i : AttendantId) (now : Nat) (linkUp : Bool)
    (hs : s.pool.Sound) : Counts s (s.serve conduct i now linkUp) := by
  rcases serve_cases conduct i now linkUp s with ⟨-, hserve⟩ | ⟨-, ⟨p, rest, -, hserve⟩ |
    ⟨queue, -, -, ⟨c, o, rest, sent, -, -, rfl, hserve⟩ | ⟨-, hserve⟩⟩⟩
  · rw [hserve]
    exact .of_eq rfl
  · rw [hserve]
    exact process_counts (s := s.update fun c => { c with
      queue := { s.circuit.queue with incoming := rest } }) conduct now p hs
  · have sent := papers_transmit now linkUp o (s.update fun c => { c with queue })
    rw [hserve]
    split
    · exact .of_eq sent
    · exact .of_eq ((papers_close _ _).trans sent)
  · rw [hserve]
    exact .of_eq rfl

/-- Every step gives numbers to the packets that it sends; the rest of the papers stays. -/
theorem next_counts (conduct : Conduct) (e : Event) (hs : s.pool.Sound) :
    Counts s (s.next conduct e).2 := by
  have performed : Performed (fun _ => True) True True conduct s e _ :=
    next_performed conduct.gives_any e.gives_any s
  generalize (s.next conduct e).2 = u at performed ⊢
  cases performed with
  | verdict => exact .of_eq (papers_onVerdict _ _ s)
  | serve => exact serve_counts conduct _ _ _ hs
  | finish =>
    exact (sendAckChunks_counts _ s).trans (.of_eq (papers_withRemaining _ _ _
      (s.sendOwedAcks.update fun c => { c with
        queue := s.sendOwedAcks.circuit.queue.flush.2 })))
  | flush => exact .of_eq ((papers_withRemaining _ _ _ _).trans (papers_transmit _ _ _ s))
  | @leave i joined =>
    cases joined with
    | true => exact .of_eq (papers_emit (e := .sceneRemove) rfl _)
    | false => exact .of_eq rfl
  | ackTick => exact ackTick_counts _ s
  | silent does =>
    have counted : Counts s
        (s.update fun c => { c with probeFailures := c.probeFailures + 1 }) := .of_eq rfl
    exact counted.trans (does.counts hs)
  | turnAway => exact .of_eq (papers_recycle _ s)
  | accept => exact .of_eq (papers_emit (e := .accepted _) rfl _)
  | call does => exact does.counts hs
  | idle | start | joined | heard | stopAckTimer | stopProbeTimer | settings => exact .of_eq rfl

theorem move_counts (m : Move) (hs : s.pool.Sound) : Counts s (s.move m) := by
  cases m with
  | step conduct e => exact next_counts conduct e hs
  | _ => exact .of_eq rfl

theorem follow_counts (moves : List Move) (hs : s.pool.Sound) : Counts s (s.follow moves) := by
  induction moves using List.reverseRecOn with
  | nil => exact .refl s
  | append_singleton moves m ih =>
    rw [follow_snoc]
    exact ih.trans (move_counts m (follow_sound hs moves))

theorem opened_numbering (config : Config) (viewer : Viewer) (remote : Address) (since : Nat) :
    (opened config viewer remote since).papers.sequences = .after config.maxSequence 0 := rfl

/-- The numbers of a run follow each other up to the limit, and then from one again. -/
theorem follow_numbered (config : Config) (viewer : Viewer) (remote : Address) (since : Nat)
    (moves : List Move) (hm : 0 < config.maxSequence) {s : Site}
    (hs : (opened config viewer remote since).follow moves = s) :
    s.circuit.config = config ∧
      s.circuit.sequences = .after config.maxSequence (acceptedIn s.history).length ∧
      ∀ {k e}, (acceptedIn s.history)[k]? = some e →
        e.number? = some (Numbering.nth config.maxSequence k) := by
  obtain ⟨count, hcount⟩ := follow_counts (s := opened config viewer remote since) moves
    (PacketPool.empty_sound _ _)
  rw [hs] at hcount
  have hnumbers : s.history.filterMap Effect.number? =
      (List.range count).map (Numbering.nth config.maxSequence) := by
    have := congrArg Papers.numbers hcount
    rw [Papers.counted, opened_numbering, Numbering.take_after hm] at this
    rw [List.range_eq_range']
    exact this
  have hall := map_acceptedIn s.history
  have hlength : (acceptedIn s.history).length = count := by
    have := congrArg List.length hall
    rw [hnumbers] at this
    simpa using this
  refine ⟨congrArg Papers.config hcount, ?_, ?_⟩
  · have := congrArg Papers.sequences hcount
    rw [Papers.counted, opened_numbering, Numbering.take_after hm, Nat.zero_add] at this
    rw [hlength]
    exact this
  · intro k e he
    have hk : k < count := by
      rw [← hlength]
      exact (List.getElem?_eq_some_iff.1 he).1
    have := congrArg (fun l => l[k]?) hall
    rw [hnumbers] at this
    simpa [he, hk] using this

end Site
end ViewerCircuit
