import ViewerCircuit.Proofs.Liveness
import ViewerCircuit.Proofs.NumberReuse
import ViewerCircuit.Proofs.Outbound

/-!
# The oldest unacked packet

A ping names the lowest number that awaits an ack. The age of a packet is its place among all that
were accepted, so the ping names the oldest one as long as the numbers did not start again at one
between the packets that wait.
-/
namespace ViewerCircuit

namespace Numbering

variable {i j cycle : Nat}

theorem le_of_same_cycle (h : i / cycle = j / cycle) (hm : i % cycle ≤ j % cycle) : i ≤ j := by
  rw [← Nat.div_add_mod i cycle, ← Nat.div_add_mod j cycle, h]
  exact Nat.add_le_add_left hm _

theorem same_cycle_of_le (hle : i ≤ j) (hlt : j < i + cycle) (hm : i % cycle ≤ j % cycle) :
    i / cycle = j / cycle := by
  have hi := Nat.div_add_mod i cycle
  have hj := Nat.div_add_mod j cycle
  refine Nat.le_antisymm (Nat.div_le_div_right hle) (Nat.le_of_not_lt fun hless => ?_)
  -- Otherwise `j` is in a later cycle and not lower in it, so at least a cycle behind `i`.
  have hcycle := Nat.mul_le_mul_left cycle hless
  rw [Nat.mul_succ] at hcycle
  omega

end Numbering

/-- Somebody has the viewer pinged: a caller, or a probe that finds it silent. -/
def Move.Pings : Move → Prop
  | .step _ .startPing => True
  | .step _ (.probe _) => True
  | _ => False

namespace Site

def unacked (s : Site) : List UInt32 := s.circuit.ackState.inFlight.kept.keys

/-- A packet with this number was accepted at the place `k`. It was sent, and no ack for it was
processed since. -/
def AwaitsFrom (s : Site) (id : UInt32) (k : Nat) : Prop :=
  ∃ o, (acceptedIn s.history)[k]? = some (.queued o) ∧ o.sequence = id ∧
    ∃ before destination datagram linkUp later,
      s.history = before ++ .transmitted destination datagram o linkUp :: later ∧
      o.delivery = .reliable ∧ ∀ e ∈ later, e.acks o.sequence = false

def Places (s : Site) (place : UInt32 → Nat) : Prop := ∀ id ∈ s.unacked, s.AwaitsFrom id (place id)

/-- What the number `n` says about the packets that await an ack, when `cycle` numbers are given in
turn. It is the oldest one, if all have their numbers from one cycle. It is not, if the numbers
started again between packets that were accepted less than a cycle apart. -/
structure Names (s : Site) (cycle : Nat) (n : UInt32) : Prop where
  zero_iff : n = 0 ↔ s.unacked = []
  recorded : n ≠ 0 → n ∈ s.unacked
  lowest : ∀ id ∈ s.unacked, n ≤ id
  placed : ∃ place, s.Places place
  oldest : ∀ place, s.Places place →
    (∀ id ∈ s.unacked, ∀ other ∈ s.unacked, place id / cycle = place other / cycle) →
    ∀ id ∈ s.unacked, place n ≤ place id
  early : (acceptedIn s.history).length ≤ cycle → ∀ place, s.Places place →
    ∀ id ∈ s.unacked, place n ≤ place id
  wrapped : ∀ place, s.Places place →
    (∀ id ∈ s.unacked, ∀ other ∈ s.unacked, place id < place other + cycle) →
    (∀ id ∈ s.unacked, place n ≤ place id) →
    ∀ id ∈ s.unacked, ∀ other ∈ s.unacked, place id / cycle = place other / cycle

variable {s : Site} {m : Move} {id : UInt32} {k cycle : Nat}

theorem AwaitsFrom.lt_length (h : s.AwaitsFrom id k) : k < (acceptedIn s.history).length := by
  obtain ⟨o, ho, -⟩ := h
  exact (List.getElem?_eq_some_iff.1 ho).1

section Lowest

variable {n : UInt32} {place : UInt32 → Nat}

/-- If a number tells its place within the cycle, the lowest one has the first of these places. -/
theorem Places.mod_le (places : s.Places place)
    (number : ∀ id k, s.AwaitsFrom id k → id.toNat = k % cycle + 1) (hn : n ∈ s.unacked)
    (hid : id ∈ s.unacked) (hle : n ≤ id) : place n % cycle ≤ place id % cycle := by
  have hnumbers := UInt32.le_iff_toNat_le.1 hle
  rw [number n _ (places n hn), number id _ (places id hid)] at hnumbers
  exact Nat.le_of_succ_le_succ hnumbers

theorem Places.div_eq_of_length_le (places : s.Places place)
    (hfew : (acceptedIn s.history).length ≤ cycle) :
    ∀ id ∈ s.unacked, ∀ other ∈ s.unacked, place id / cycle = place other / cycle := by
  intro id hid other hother
  rw [Nat.div_eq_of_lt ((places id hid).lt_length.trans_le hfew),
    Nat.div_eq_of_lt ((places other hother).lt_length.trans_le hfew)]

theorem names_oldest (number : ∀ id k, s.AwaitsFrom id k → id.toNat = k % cycle + 1)
    (placed : ∀ id ∈ s.unacked, ∃ k, s.AwaitsFrom id k) :
    s.Names cycle s.circuit.ackState.inFlight.oldest := by
  obtain ⟨n, hn⟩ : ∃ n, s.circuit.ackState.inFlight.oldest = n := ⟨_, rfl⟩
  by_cases hnone : s.unacked = []
  · -- Nothing waits, so all that is said about what waits is void.
    have hzero : n = 0 := hn ▸ InFlight.oldest_of_none hnone
    rw [hn]
    constructor <;> simp [hnone, hzero, Places]
  · obtain ⟨hmem, hle⟩ : n ∈ s.unacked ∧ ∀ id ∈ s.unacked, n ≤ id := by
      rw [← hn]
      exact InFlight.oldest_le hnone
    have lower : ∀ place, s.Places place → ∀ id ∈ s.unacked,
        place n % cycle ≤ place id % cycle :=
      fun place places id hid => places.mod_le number hmem hid (hle id hid)
    have oldest : ∀ place, s.Places place →
        (∀ id ∈ s.unacked, ∀ other ∈ s.unacked, place id / cycle = place other / cycle) →
        ∀ id ∈ s.unacked, place n ≤ place id := fun place places same id hid =>
      Numbering.le_of_same_cycle (same n hmem id hid) (lower place places id hid)
    have nonzero : n ≠ 0 := by
      intro hzero
      obtain ⟨k, hk⟩ := placed n hmem
      have hpos := number n k hk
      rw [hzero] at hpos
      cases hpos
    rw [hn]
    refine ⟨iff_of_false nonzero hnone, fun _ => hmem, hle, ?_, oldest, ?_, ?_⟩
    · choose! place places using placed
      exact ⟨place, places⟩
    · intro hfew place places
      exact oldest place places (places.div_eq_of_length_le hfew)
    · intro place places near first id hid other hother
      have same : ∀ id ∈ s.unacked, place n / cycle = place id / cycle := fun id hid =>
        Numbering.same_cycle_of_le (first id hid) (near id hid n hmem) (lower place places id hid)
      exact (same id hid).symm.trans (same other hother)

end Lowest

def PingNames (n : UInt32) (o : Outgoing) : Prop :=
  ∃ pingId, (Packet.decode o.bytes).map Packet.message = .ok (.startPingCheck ⟨pingId, n⟩)

theorem startPing_history (hs : s.pool.Sound) : ∃ l, s.startPing.history = s.history ++ l ∧
    (∀ o, .queued o ∈ l → PingNames s.circuit.ackState.inFlight.oldest o) ∧
    (s.circuit.phase ≠ .closed → ∃ o, .queued o ∈ l) := by
  by_cases hp : s.circuit.phase = .closed
  · obtain ⟨pool, -, said⟩ := say_one (s := s.update fun c => { c with
      nextPingId := s.circuit.nextPingId + 1 }) hs
        (Outbound.startPing s.circuit.nextPingId s.circuit.ackState.inFlight.oldest)
    have told := (congrArg history said).trans (send_turned _ _ hp)
    exact ⟨_, told, by simp, fun hopen => absurd hp hopen⟩
  · obtain ⟨p, o, names, -, -, told, -⟩ := startPing_queues hs hp
    refine ⟨_, told, fun q hq => ?_, fun _ => ⟨o, by simp⟩⟩
    obtain rfl : q = o := by simpa using hq
    exact ⟨_, names⟩

theorem move_startPing (conduct : Conduct) (s : Site) :
    s.move (.step conduct .startPing) = s.startPing := by
  simp [move, next, Circuit.Enabled, perform]

theorem ping_told (hs : s.pool.Sound) (hm : m.Pings) {o : Outgoing} (ho : .queued o ∈ s.told m) :
    PingNames s.circuit.ackState.inFlight.oldest o := by
  have quiet : ∀ {u : Site}, s.move m = u → u.history = s.history → False := by
    intro u hu same
    rw [told_of_moved hu (same.trans (List.append_nil _).symm)] at ho
    cases ho
  cases m with
  | draw | takeBack => cases hm
  | step conduct e =>
    cases e with
    | startPing =>
      obtain ⟨l, told, named, -⟩ := startPing_history hs
      rw [told_of_moved (move_startPing conduct s) told] at ho
      exact named o ho
    | probe i =>
      by_cases enabled : s.circuit.Enabled (.probe i)
      · have moved := (beat_probe hs enabled conduct).2
        cases heard : s.circuit.heard with
        | true =>
          rw [probe_of_heard heard] at moved
          exact (quiet moved rfl).elim
        | false =>
          rw [probe_of_silent heard] at moved
          split at moved
          · rw [told_of_moved moved (history_emit _ _)] at ho
            simp at ho
          · obtain ⟨l, told, named, -⟩ := startPing_history (s := s.counted) hs
            rw [told_of_moved moved told] at ho
            exact named o ho
      · have stays : s.move (.step conduct (.probe i)) = s := by simp [move, next, enabled]
        exact (quiet stays rfl).elim
    | _ => cases hm

theorem dispatching_ackState {now : Nat} {p : Packet} {rest : List Packet} {w : Site}
    (hs : s.pool.Sound)
    (does : Does (fun _ => True) True False ((s.popped rest).offered now p) w) :
    w.pool.Sound ∧ w.circuit.ackState = (s.circuit.ackState.arrive p).2 := by
  obtain ⟨hpool, hcircuit, -⟩ := ackStep_spec now p (s.popped rest)
  have sound : ((s.popped rest).offered now p).pool.Sound := hpool ▸ hs
  have kept := congrArg Circuit.ackState (does.framed sound).circuit
  have acked := congrArg Circuit.ackState hcircuit
  exact ⟨(does sound).1, kept.trans acked⟩

/-- What is promised of the pings that are asked for at the site. A handler may ask as well,
whatever handlers did before, and its ping names what awaits an ack behind the packet that it was
called for. -/
structure Pinging (s : Site) (cycle : Nat) : Prop where
  named : ∀ m : Move, m.Pings → ∀ o, .queued o ∈ s.told m → ∃ n, PingNames n o ∧ s.Names cycle n
  asked : s.circuit.phase ≠ .closed →
    ∀ conduct, ∃ o, .queued o ∈ s.told (.step conduct .startPing)
  handled : ∀ conduct i now linkUp p rest w, s.Takes i p rest →
    Does (fun _ => True) True False ((s.popped rest).offered now p) w →
    ∃ l, (w.act now .startPing).2.history = w.history ++ l ∧
      ∀ o, .queued o ∈ l → ∃ n, PingNames n o ∧
        (s.move (.step conduct (.serve i now linkUp))).Names cycle n

section

variable (config : Config) (viewer : Viewer) (remote : Address) (since : Nat)

theorem follow_names (moves : List Move) (hmax : 0 < config.maxSequence) :
    ((opened config viewer remote since).follow moves).Names config.maxSequence.toNat
      ((opened config viewer remote since).follow moves).circuit.ackState.inFlight.oldest := by
  obtain ⟨s, hs⟩ : ∃ s, (opened config viewer remote since).follow moves = s := ⟨_, rfl⟩
  obtain ⟨-, -, numbered⟩ := follow_numbered config viewer remote since moves hmax hs
  rw [hs]
  refine names_oldest ?_ ?_
  · rintro id k ⟨o, ho, rfl, -⟩
    have hnth : o.sequence = _ := Option.some.inj (numbered ho)
    rw [hnth, Numbering.toNat_nth hmax]
  · intro id hid
    obtain ⟨q, hsame, fewer, unacked⟩ := sent_of_record hs hid
    have queued : .queued q ∈ s.history := List.count_pos_iff.1 (by omega)
    obtain ⟨k, hk⟩ := List.mem_iff_getElem?.1 (mem_acceptedIn.2 queued)
    exact ⟨k, q, hk, hsame, unacked⟩

/-- In every run, each ping that is asked for names the lowest number that awaits an ack, which is
the oldest one unless the numbers started again at one between them. -/
theorem follow_pings (moves : List Move) (hmax : 0 < config.maxSequence) :
    ((opened config viewer remote since).follow moves).Pinging config.maxSequence.toNat := by
  have names := follow_names config viewer remote since moves hmax
  have later := fun m => follow_names config viewer remote since (moves ++ [m]) hmax
  simp only [follow_snoc] at later
  have sound : ((opened config viewer remote since).follow moves).pool.Sound :=
    follow_sound (PacketPool.empty_sound _ _) moves
  generalize (opened config viewer remote since).follow moves = s at names later sound ⊢
  refine ⟨fun m hm o ho => ⟨_, ping_told sound hm ho, names⟩, ?_, ?_⟩
  · intro hopen conduct
    obtain ⟨l, told, -, asked⟩ := startPing_history sound
    obtain ⟨o, ho⟩ := asked hopen
    exact ⟨o, by rw [told_of_moved (move_startPing conduct s) told]; exact ho⟩
  · intro conduct i now linkUp p rest w takes does
    obtain ⟨wsound, same⟩ := dispatching_ackState sound does
    obtain ⟨l, told, named, -⟩ := startPing_history wsound
    refine ⟨l, told, fun o ho => ⟨_, named o ho, ?_⟩⟩
    have acked : ((s.popped rest).process conduct now p).circuit.ackState = w.circuit.ackState :=
      (process_ackState (s := s.popped rest) sound conduct now p).trans same.symm
    have served := later (.step conduct (.serve i now linkUp))
    rw [move_takes takes, acked] at served
    rw [move_takes takes]
    exact served

end

def alternating : Config := { sample.circuit.config with maxSequence := 2 }

/-- Three alerts are sent, and the first is acked before the third takes its number. -/
def wrappingMoves : List Move :=
  [.step {} .start, .step {} (.authenticated 0 (.authorized none)), .step {} (.joined 0),
   .step {} (.tell (.alert "a")), .step {} (.serve 0 (1 * Time.second) true),
   .step {} (.tell (.alert "b")), .step {} (.serve 0 (1 * Time.second) true),
   .step {} (.receive (.ofMessage (.packetAck { ids := [1] }))),
   .step {} (.serve 0 (1 * Time.second) true),
   .step {} (.tell (.alert "c")), .step {} (.serve 0 (1 * Time.second) true)]

def wrapping : Site :=
  (opened alternating ⟨.zero, .zero, 1⟩ (.v4 .unspecified 1) 0).follow wrappingMoves

theorem wrapping_pings : 0 < alternating.maxSequence ∧ wrapping.Pinging 2 := by
  have hmax : 0 < alternating.maxSequence := by decide
  exact ⟨hmax, follow_pings alternating _ _ _ wrappingMoves hmax⟩

/-- The records are those of the second alert and the third, but the ping names the third. -/
theorem wrapping_ping_names_younger : alternating.Valid ∧
    wrapping.circuit.ackState.inFlight.kept.map (fun e => (e.1, e.2.bytes)) =
      (((acceptedIn wrapping.history).drop 1).filterMap Effect.queued?).map
        (fun o => (o.sequence, o.bytes)) ∧
    wrapping.unacked = [2, 1] ∧
    ((wrapping.told (.step {} .startPing)).filterMap Effect.queued?).map
      (fun o => ((Packet.decode o.bytes).map Packet.message).toOption) =
        [some (.startPingCheck ⟨0, 1⟩)] := by
  refine ⟨?_, by decide +kernel⟩
  unfold Config.Valid
  decide +kernel

end Site
end ViewerCircuit
