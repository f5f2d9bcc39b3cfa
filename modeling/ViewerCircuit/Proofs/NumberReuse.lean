import Mathlib.Data.List.NodupEquivFin
import ViewerCircuit.Proofs.InFlightMoves
import ViewerCircuit.Proofs.ResendCopies
import ViewerCircuit.Proofs.SequenceNumbers

/-!
# Numbers in use again

The numbers start again at one, so a packet may go on the wire while another one with its number is
still unacked, and then no record is made for it. The other packet is a whole number of cycles away.
It need not be the older one: the categories have budgets of their own, and a packet may be
overtaken by one that was accepted later.
-/
namespace ViewerCircuit

variable {id : UInt32} {history : List Effect} {o q : Outgoing}

/-- A number that awaits an ack belongs to a packet that was sent, and that no ack was for since. -/
theorem sent_of_awaitsAck (h : awaitsAck id history = true) :
    ∃ before destination datagram q linkUp later,
      history = before ++ .transmitted destination datagram q linkUp :: later ∧
      q.delivery = .reliable ∧ q.sequence = id ∧ ∀ e ∈ later, e.acks id = false := by
  induction history using List.reverseRecOn with
  | nil => cases h
  | append_singleton history e ih =>
    rw [awaitsAck_snoc] at h
    split at h
    · next ht =>
      cases e with
      | transmitted destination datagram q linkUp =>
        obtain ⟨hd, hs⟩ : q.delivery = .reliable ∧ q.sequence = id := by
          simpa [Effect.tracks] using ht
        exact ⟨history, destination, datagram, q, linkUp, [], rfl, hd, hs, by simp⟩
      | _ => cases ht
    · split at h
      · cases h
      · next ha =>
        obtain ⟨before, destination, datagram, q, linkUp, later, rfl, hd, hs, hl⟩ := ih h
        refine ⟨before, destination, datagram, q, linkUp, later ++ [e], by simp, hd, hs, ?_⟩
        intro f hf
        rcases List.mem_append.1 hf with hf | hf
        · exact hl f hf
        · rw [List.mem_singleton.1 hf]
          simpa using ha

theorem mem_acceptedIn : .queued o ∈ acceptedIn history ↔ .queued o ∈ history := by
  simp [acceptedIn, Effect.number?]

/-- Two packets that were queued stand at two places, also if they are equal. -/
theorem places_of_queued (ho : .queued o ∈ history) (hq : .queued q ∈ history)
    (hne : o = q → 2 ≤ history.count (.queued o)) :
    ∃ i j : Nat, i ≠ j ∧ (acceptedIn history)[i]? = some (.queued o) ∧
      (acceptedIn history)[j]? = some (.queued q) := by
  obtain ⟨i, hi⟩ := List.mem_iff_getElem?.1 (mem_acceptedIn.2 ho)
  by_cases heq : o = q
  · have htwice : 2 ≤ (acceptedIn history).count (.queued o) := by
      rw [acceptedIn, List.count_filter (by rfl)]
      exact hne heq
    obtain ⟨a, b, hab, ha, hb⟩ := List.duplicate_iff_exists_distinct_get.1
      (List.duplicate_iff_two_le_count.2 htwice)
    refine ⟨a, b, Nat.ne_of_lt hab, ?_, ?_⟩
    · exact List.getElem?_eq_some_iff.2 ⟨a.isLt, ha.symm⟩
    · rw [← heq]
      exact List.getElem?_eq_some_iff.2 ⟨b.isLt, hb.symm⟩
  · obtain ⟨j, hj⟩ := List.mem_iff_getElem?.1 (mem_acceptedIn.2 hq)
    refine ⟨i, j, ?_, hi, hj⟩
    rintro rfl
    exact heq (Effect.queued.inj (Option.some.inj (hi.symm.trans hj)))

namespace Site

variable {s : Site} {m : Move}

theorem follow_requeued {s : Site} {moves : List Move} (hs : s.pool.Sound)
    (h : ∀ o, .requeued o ∈ s.history → o.delivery = .resend) :
    ∀ o, .requeued o ∈ (s.follow moves).history → o.delivery = .resend := by
  induction moves using List.reverseRecOn with
  | nil => exact h
  | append_singleton moves m ih =>
    intro o ho
    obtain ⟨hh, turn⟩ := move_turns (m := m) (fun h : False => h.elim) (follow_sound hs moves)
    rw [follow_snoc, hh] at ho
    rcases List.mem_append.1 ho with ho | ho
    · exact ih o ho
    · obtain ⟨-, r, -, rfl⟩ := turn.copied ho
      rfl

/-- A packet that was accepted at the place `i` meets the record of another one, accepted at the
place `j`, that has its number: some cycles lie between them. The other one was sent, and is not
acked. -/
structure Meets (s : Site) (cycle : Nat) (o : Outgoing) (i : Nat) (q : Outgoing) (j : Nat) :
    Prop where
  this : (acceptedIn s.history)[i]? = some (.queued o)
  other : (acceptedIn s.history)[j]? = some (.queued q)
  same : q.sequence = o.sequence
  apart : ∃ cycles, 0 < cycles ∧ (i = j + cycles * cycle ∨ j = i + cycles * cycle)
  unacked : ∃ before destination datagram linkUp later,
    s.history = before ++ .transmitted destination datagram q linkUp :: later ∧
      q.delivery = .reliable ∧ ∀ e ∈ later, e.acks q.sequence = false

theorem apart_of_mod_eq {i j cycle : Nat} (hne : i ≠ j) (h : i % cycle = j % cycle) :
    ∃ cycles, 0 < cycles ∧ (i = j + cycles * cycle ∨ j = i + cycles * cycle) := by
  have hi := Nat.mod_add_div i cycle
  have hj := Nat.mod_add_div j cycle
  rcases Nat.lt_trichotomy (i / cycle) (j / cycle) with hlt | heq | hlt
  · refine ⟨j / cycle - i / cycle, by omega, .inr ?_⟩
    rw [Nat.sub_mul, Nat.mul_comm, Nat.mul_comm (i / cycle)]
    have := Nat.mul_le_mul_left cycle (Nat.le_of_lt hlt)
    omega
  · rw [h, heq] at hi
    omega
  · refine ⟨i / cycle - j / cycle, by omega, .inl ?_⟩
    rw [Nat.sub_mul, Nat.mul_comm, Nat.mul_comm (j / cycle)]
    have := Nat.mul_le_mul_left cycle (Nat.le_of_lt hlt)
    omega

theorem count_enqueuedIn (h : .requeued o ∉ history) :
    (enqueuedIn history).count o = history.count (.queued o) := by
  rw [enqueuedIn, List.count_filterMap]
  apply List.countP_congr
  intro e he
  cases e with
  | queued p => simp [Effect.enqueued?]
  | requeued p =>
    have hp : p ≠ o := by
      rintro rfl
      exact h he
    simp [Effect.enqueued?, hp]
  | _ => simp [Effect.enqueued?]

section

variable {config : Config} {viewer : Viewer} {remote : Address} {since : Nat} {moves : List Move}
  {destination : Address} {datagram : Bytes} {linkUp : Bool}

theorem requeued_of_run (hs : (opened config viewer remote since).follow moves = s) :
    ∀ o, .requeued o ∈ s.history → o.delivery = .resend :=
  hs ▸ follow_requeued (PacketPool.empty_sound _ _) fun _ ho => (List.not_mem_nil ho).elim

/-- A record is that of a packet that was queued and sent, and that no ack was for since. Not all
packets that were queued like it are held still. -/
theorem sent_of_record (hs : (opened config viewer remote since).follow moves = s)
    (hid : id ∈ s.circuit.ackState.inFlight.kept.keys) :
    ∃ q, q.sequence = id ∧ s.traffic.held.count q < s.history.count (.queued q) ∧
      ∃ before destination datagram linkUp later,
        s.history = before ++ .transmitted destination datagram q linkUp :: later ∧
        q.delivery = .reliable ∧ ∀ e ∈ later, e.acks q.sequence = false := by
  have balanced : s.traffic.Balanced := hs ▸ follow_balanced config viewer remote since moves
  obtain ⟨last, reached⟩ := run_reachable False False config viewer remote since
    (fun h => (h.elim : ∀ m ∈ moves, m.LeavesAcks)) (fun h => h.elim)
  have copying : s.traffic.Copying :=
    hs ▸ reached.copying (opened_copying config viewer remote since)
  obtain ⟨record, hrecord, rfl⟩ := List.mem_map.1 hid
  obtain ⟨before, destination, datagram, q, linkUp, later, hh, hq, hsame, hlater⟩ :=
    sent_of_awaitsAck (copying.inFlight record hrecord)
  have first : .requeued q ∉ s.history := by
    intro hr
    rw [requeued_of_run hs q hr] at hq
    cases hq
  have sent : 0 < (sentIn s.history).count q := by
    apply List.count_pos_iff.2
    exact List.mem_filterMap.2 ⟨_, hh ▸ List.mem_append_right before List.mem_cons_self, rfl⟩
  have enqueued : (sentIn s.history).count q + s.traffic.held.count q ≤
      s.history.count (.queued q) := by
    rw [← count_enqueuedIn first]
    exact balanced q
  exact ⟨q, hsame, by omega, before, destination, datagram, linkUp, later, hh, hq, hsame ▸ hlater⟩

/-- If there is a record already, it is that of another packet, or of the same packet queued once
more. -/
theorem other_of_record (hs : (opened config viewer remote since).follow moves = s)
    (ht : .transmitted destination datagram o linkUp ∈ s.told m) (hd : o.delivery = .reliable)
    (hc : s.circuit.ackState.inFlight.contains o.sequence = true) :
    ∃ q, .queued o ∈ s.history ∧ .queued q ∈ s.history ∧ q.sequence = o.sequence ∧
      (o = q → 2 ≤ s.history.count (.queued o)) ∧
      ∃ before destination datagram linkUp later,
        s.history = before ++ .transmitted destination datagram q linkUp :: later ∧
        q.delivery = .reliable ∧ ∀ e ∈ later, e.acks q.sequence = false := by
  have hpool : s.pool.Sound := hs ▸ follow_sound (PacketPool.empty_sound _ _) moves
  have balanced : s.traffic.Balanced := hs ▸ follow_balanced config viewer remote since moves
  obtain ⟨-, turn⟩ := move_turns (m := m) (fun h : False => h.elim) hpool
  obtain ⟨held, -⟩ := turn.sent ht
  have queued : .queued o ∈ s.history := by
    refine (balanced.enqueued_of_held held).resolve_right fun hr => ?_
    rw [requeued_of_run hs o hr] at hd
    cases hd
  obtain ⟨record, hrecord⟩ := Option.isSome_iff_exists.1 hc
  obtain ⟨q, hsame, fewer, unacked⟩ :=
    sent_of_record hs (List.mem_map_of_mem (Table.mem_of_get? hrecord))
  refine ⟨q, queued, List.count_pos_iff.1 (by omega), hsame, fun heq => ?_, unacked⟩
  -- one of the two is on its way still, and the other one was sent
  have hheld : 0 < s.traffic.held.count q := List.count_pos_iff.2 (heq ▸ held)
  rw [heq]
  omega

/-- No record is made for a packet only if it meets the record of another one. -/
theorem meets_of_refused (hm : 0 < config.maxSequence)
    (hs : (opened config viewer remote since).follow moves = s)
    (ht : .transmitted destination datagram o linkUp ∈ s.told m) (hd : o.delivery = .reliable)
    (hc : s.circuit.ackState.inFlight.contains o.sequence = true) :
    ∃ i q j, s.Meets config.maxSequence.toNat o i q j := by
  obtain ⟨q, queued, other, hsame, twice, unacked⟩ := other_of_record hs ht hd hc
  obtain ⟨-, numbered⟩ : _ ∧ _ := (follow_numbered config viewer remote since moves hm hs).2
  obtain ⟨i, j, hij, hi, hj⟩ := places_of_queued queued other twice
  have hni : o.sequence = _ := Option.some.inj (numbered hi)
  have hnj : q.sequence = _ := Option.some.inj (numbered hj)
  have hmod := Numbering.mod_eq_of_nth_eq hm (hni.symm.trans (hsame.symm.trans hnj))
  exact ⟨i, q, j, hi, hj, hsame, apart_of_mod_eq hij hmod, unacked⟩

/-- What is promised of the numbers after a run, and of the packets that the next move sends. Every
packet has the number of its place, so numbers differ within each cycle. A reliable packet that is
sent gets a record of its own, unless it meets that of another packet; and it meets none in the
first cycle. -/
structure Numbered (s : Site) (cycle : Nat) (m : Move) : Prop where
  number : ∀ k e, (acceptedIn s.history)[k]? = some e →
    ∃ n, e.number? = some n ∧ n.toNat = k % cycle + 1 ∧ n.toNat ≤ cycle
  distinct : ∀ i j e f, i < j → j < i + cycle → (acceptedIn s.history)[i]? = some e →
    (acceptedIn s.history)[j]? = some f → e.number? ≠ f.number?
  next : s.circuit.phase ≠ .closed → ∀ p category, ∃ e n, Effect.Accepts p category n e ∧
    n.toNat = (acceptedIn s.history).length % cycle + 1 ∧
    acceptedIn (s.send p category).2.history = acceptedIn s.history ++ [e]
  closed : s.circuit.phase = .closed → ∀ p category,
    acceptedIn (s.send p category).2.history = acceptedIn s.history
  sent : ∀ destination datagram o linkUp,
    .transmitted destination datagram o linkUp ∈ s.told m → o.delivery = .reliable →
    ∃ now made inFlight,
      s.circuit.ackState.inFlight.track o.sequence o.kind o.bytes o.category now =
        (made, inFlight) ∧
      (s.move m).circuit.ackState.inFlight = inFlight ∧
      (made = true → inFlight.kept.get? o.sequence = some ⟨o.kind, o.bytes, o.category, now, 0⟩) ∧
      (made = false → ∃ i q j, s.Meets cycle o i q j) ∧
      ((acceptedIn s.history).length ≤ cycle → made = true)

theorem Meets.length {i j cycle : Nat} (h : s.Meets cycle o i q j) :
    cycle < (acceptedIn s.history).length := by
  have hi := (List.getElem?_eq_some_iff.1 h.this).1
  have hj := (List.getElem?_eq_some_iff.1 h.other).1
  obtain ⟨cycles, hpos, hapart⟩ := h.apart
  have hcycle : cycle ≤ cycles * cycle := Nat.le_mul_of_pos_left cycle hpos
  omega

/-- A reliable packet that is sent is recorded under its number, or meets a record there. -/
theorem sent_recorded (hm : 0 < config.maxSequence)
    (hs : (opened config viewer remote since).follow moves = s)
    (ht : .transmitted destination datagram o linkUp ∈ s.told m) (hd : o.delivery = .reliable) :
    ∃ now made inFlight,
      s.circuit.ackState.inFlight.track o.sequence o.kind o.bytes o.category now =
        (made, inFlight) ∧
      (s.move m).circuit.ackState.inFlight = inFlight ∧
      (made = true → inFlight.kept.get? o.sequence = some ⟨o.kind, o.bytes, o.category, now, 0⟩) ∧
      (made = false → ∃ i q j, s.Meets config.maxSequence.toNat o i q j) := by
  have hpool : s.pool.Sound := hs ▸ follow_sound (PacketPool.empty_sound _ _) moves
  obtain ⟨-, turn⟩ := move_turns (m := m) (fun h : False => h.elim) hpool
  obtain ⟨-, now, room, -, hstate⟩ := turn.sent ht
  obtain ⟨⟨made, inFlight⟩, htrack⟩ : ∃ tracked,
    s.circuit.ackState.inFlight.track o.sequence o.kind o.bytes o.category now = tracked :=
    ⟨_, rfl⟩
  have hdepart : (s.move m).circuit.ackState = (s.circuit.ackState.depart now room o).2 := hstate
  refine ⟨now, made, inFlight, htrack, ?_, ?_, ?_⟩
  · rw [hdepart]
    simp [AckState.depart, hd, htrack]
  · rintro rfl
    have := InFlight.track_made (congrArg Prod.fst htrack)
    rwa [htrack] at this
  · rintro rfl
    exact meets_of_refused hm hs ht hd (InFlight.track_refused.1 (congrArg Prod.fst htrack))

/-- In every run, whatever is sent by whom and in which order it goes on the wire, numbers go round
and a packet is sent without a record only if another one with its number is still unacked. -/
theorem follow_numbers (config : Config) (viewer : Viewer) (remote : Address) (since : Nat)
    (moves : List Move) (m : Move) (hm : 0 < config.maxSequence) :
    ((opened config viewer remote since).follow moves).Numbered config.maxSequence.toNat m := by
  obtain ⟨s, hs⟩ : ∃ s, (opened config viewer remote since).follow moves = s := ⟨_, rfl⟩
  obtain ⟨-, hsequences, numbered⟩ := follow_numbered config viewer remote since moves hm hs
  have hpos : 0 < config.maxSequence.toNat := UInt32.lt_iff_toNat_lt.1 hm
  rw [hs]
  constructor
  case number =>
    intro k e he
    refine ⟨_, numbered he, Numbering.toNat_nth hm k, ?_⟩
    rw [Numbering.toNat_nth hm]
    exact Nat.mod_lt k hpos
  case distinct =>
    intro i j e f hij hj he hf heq
    rw [numbered he, numbered hf] at heq
    have hmod := Numbering.mod_eq_of_nth_eq hm (Option.some.inj heq)
    obtain ⟨cycles, hc, hapart⟩ := apart_of_mod_eq (Nat.ne_of_lt hij) hmod
    have := Nat.le_mul_of_pos_left config.maxSequence.toNat hc
    omega
  case next =>
    intro hp p category
    obtain ⟨e, accepts, hh⟩ := send_accepts p category hp
    rw [hsequences, Numbering.next_after hm] at accepts
    exact ⟨e, _, accepts, Numbering.toNat_nth hm _, hh⟩
  case closed =>
    intro hp p category
    exact send_closed hp
  case sent =>
    intro destination datagram o linkUp ht hd
    obtain ⟨now, made, inFlight, htrack, hstate, hrecord, meets⟩ := sent_recorded hm hs ht hd
    refine ⟨now, made, inFlight, htrack, hstate, hrecord, meets, fun hshort => ?_⟩
    cases hmade : made with
    | true => rfl
    | false =>
      obtain ⟨i, q, j, met⟩ := meets hmade
      have := met.length
      omega

end

/-- Every packet has the number one, and tasks have next to no budget. -/
def narrowTask : Config where
  maxSequence := 1
  throttle := {
    initialRates := ⟨#v[12500, 12500, 5000, 5000, 1, 100000, 50000, 50000]⟩
    multiplier := 1
    minRate := 1000
    maxRate := 1000000
    burst := Time.ofMilliseconds 250 }

/-- An alert waits for its budget. One with another budget is queued later and sent first. -/
def overtakingMoves : List Move :=
  [.step {} .start, .step {} (.authenticated 0 (.authorized none)), .step {} (.joined 0),
   .step {} (.send (.reliable (.alertMessage { message := "a" })) .task),
   .step {} (.send (.reliable (.alertMessage { message := "bb" })) .unknown),
   .step {} (.serve 0 (1 * Time.second) true)]

def overtaken : Site :=
  (opened narrowTask ⟨.zero, .zero, 1⟩ (.v4 .unspecified 1) 0).follow overtakingMoves

theorem overtaken_numbers : 0 < narrowTask.maxSequence ∧
    overtaken.Numbered 1 (.step {} (.serve 0 (30 * Time.second) true)) := by
  have hm : 0 < narrowTask.maxSequence := by decide
  exact ⟨hm, follow_numbers narrowTask _ _ _ overtakingMoves _ hm⟩

/-- The packet that was accepted first is refused a record, so the packet that it meets is not an
older one. -/
theorem overtaken_without_record : ∃ o destination datagram,
    .transmitted destination datagram o true ∈
      overtaken.told (.step {} (.serve 0 (30 * Time.second) true)) ∧
    o.delivery = .reliable ∧
    (overtaken.circuit.ackState.inFlight.track o.sequence o.kind o.bytes o.category
      (30 * Time.second)).1 = false ∧
    (acceptedIn overtaken.history)[0]? = some (.queued o) ∧
    .queued o ∉ (acceptedIn overtaken.history).drop 1 :=
  ⟨{ bytes := [0x40, 0, 0, 0, 1, 0, 0xFF, 0xFF, 0, 0x86, 2, 0x61, 0]
     kind := .alertMessage
     sequence := 1
     delivery := .reliable
     category := .task }, .v4 .unspecified 1,
    [0x40, 0, 0, 0, 1, 0, 0xFF, 0xFF, 0, 0x86, 2, 0x61, 0], by decide +kernel⟩

end Site
end ViewerCircuit
