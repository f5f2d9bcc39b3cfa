import Mathlib.Data.List.Induction
import Mathlib.Data.List.Perm.Subperm
import ViewerCircuit.Proofs.HeldPackets

/-!
# Copies of unacked packets

A packet in flight was sent under its number, and no ack for the number was processed since. So an
ack ends the making of copies until the number is sent again in a new packet. The copies that are
queued by then stay queued, and are sent all the same.
-/
namespace ViewerCircuit

open scoped List

namespace Effect

/-- A reliable packet goes on the wire under this number, and is in flight from then on. -/
def tracks (id : UInt32) : Effect → Bool
  | transmitted _ _ o _ => o.delivery = .reliable ∧ o.sequence = id
  | _ => false

def acks (id : UInt32) : Effect → Bool
  | processed p _ => id ∈ p.acked
  | _ => false

end Effect

variable {history l : List Effect} {id : UInt32}

/-- The number was sent, and not acked since. -/
def awaitsAck (id : UInt32) (history : List Effect) : Bool :=
  history.foldl (fun waits e => if e.tracks id then true else if e.acks id then false else waits)
    false

def resentIn (id : UInt32) (history : List Effect) : List Outgoing :=
  (sentIn history).filter fun o => o.delivery = .resend ∧ o.sequence = id

def copiesIn (id : UInt32) (history : List Effect) : List Outgoing :=
  (enqueuedIn history).filter fun o => o.delivery = .resend ∧ o.sequence = id

theorem awaitsAck_snoc (id : UInt32) (history : List Effect) (e : Effect) :
    awaitsAck id (history ++ [e]) =
      if e.tracks id then true else if e.acks id then false else awaitsAck id history := by
  simp [awaitsAck]

theorem awaitsAck_append (h : awaitsAck id history = true) (hl : ∀ e ∈ l, e.acks id = false) :
    awaitsAck id (history ++ l) = true := by
  induction l generalizing history with
  | nil => simpa using h
  | cons e l ih =>
    have first : awaitsAck id (history ++ [e]) = true := by
      rw [awaitsAck_snoc, hl e List.mem_cons_self]
      simp [h]
    rw [List.append_cons]
    exact ih first fun d hd => hl d (List.mem_cons_of_mem e hd)

/-- After an ack, the number is not awaited before it is sent again. -/
theorem awaitsAck_of_acked {before after : List Effect} {e : Effect} (he : e.acks id = true)
    (ht : ∀ d ∈ after, d.tracks id = false) : awaitsAck id (before ++ e :: after) = false := by
  have htracks : e.tracks id = false := by
    cases e with
    | processed => rfl
    | _ => cases he
  have hacked : awaitsAck id (before ++ [e]) = false := by
    rw [awaitsAck_snoc, htracks, he]
    rfl
  have later : ∀ (after history : List Effect), awaitsAck id history = false →
      (∀ d ∈ after, d.tracks id = false) → awaitsAck id (history ++ after) = false := by
    intro after
    induction after with
    | nil => simp
    | cons d after ih =>
      intro history h ht
      rw [List.append_cons]
      refine ih _ ?_ fun d hd => ht d (List.mem_cons_of_mem _ hd)
      rw [awaitsAck_snoc, ht d List.mem_cons_self]
      simp [h]
  rw [List.append_cons]
  exact later after _ hacked ht

/-- An effect that is not among the last ones happened before them. -/
theorem prefix_of_append {before : List Effect} {e : Effect} (h : before ++ [e] <+: history ++ l)
    (he : e ∉ l) : before ++ [e] <+: history := by
  induction l using List.reverseRecOn with
  | nil => simpa using h
  | append_singleton l d ih =>
    rw [← List.append_assoc] at h
    rcases List.prefix_concat_iff.1 h with heq | h
    · have hlast : e = d := by simpa using congrArg List.getLast? heq
      exact absurd (by simp [hlast]) he
    · exact ih h fun hm => he (List.mem_append_left _ hm)

namespace Traffic

variable {plain : Prop} {now : Nat} {t u : Traffic}

structure Copying (t : Traffic) : Prop where
  inFlight : ∀ e ∈ t.ackState.inFlight.kept, awaitsAck e.1 t.history = true
  copied : ∀ {before o}, before ++ [.requeued o] <+: t.history →
    awaitsAck o.sequence before = true
  first : ∀ o, .queued o ∈ t.history → o.delivery ≠ .resend

theorem Copying.step (ht : t.Copying) (hh : u.history = t.history ++ l)
    (hl : ∀ e ∈ l, e.enqueued? = none)
    (hk : ∀ e ∈ u.ackState.inFlight.kept, awaitsAck e.1 (t.history ++ l) = true) : u.Copying := by
  refine ⟨hh ▸ hk, ?_, ?_⟩
  · intro before o hp
    rw [hh] at hp
    exact ht.copied (prefix_of_append hp fun hm => by cases hl _ hm)
  · intro o ho
    rw [hh] at ho
    rcases List.mem_append.1 ho with ho | ho
    · exact ht.first o ho
    · cases hl _ ho

theorem Copying.kept (ht : t.Copying) (hh : u.history = t.history ++ l)
    (hl : ∀ e ∈ l, e.enqueued? = none ∧ ∀ id, e.acks id = false)
    (hk : ∀ e ∈ u.ackState.inFlight.kept, ∃ d ∈ t.ackState.inFlight.kept, d.1 = e.1) :
    u.Copying := by
  refine ht.step hh (fun e he => (hl e he).1) fun e he => ?_
  obtain ⟨d, hd, hsame⟩ := hk e he
  rw [← hsame]
  exact awaitsAck_append (ht.inFlight d hd) fun f hf => (hl f hf).2 d.1

theorem Copying.queued {o : Outgoing} (ht : t.Copying) (hd : o.delivery ≠ .resend)
    (hh : u.history = t.history ++ [.queued o])
    (hk : u.ackState.inFlight = t.ackState.inFlight) : u.Copying := by
  refine ⟨fun e he => ?_, fun {before p} hp => ?_, fun p hp => ?_⟩
  · rw [hh]
    exact awaitsAck_append (ht.inFlight e (hk ▸ he)) (by simp [Effect.acks])
  · rw [hh] at hp
    exact ht.copied (prefix_of_append hp (by simp))
  · rw [hh] at hp
    rcases List.mem_append.1 hp with hp | hp
    · exact ht.first p hp
    · obtain rfl : p = o := by simpa using hp
      exact hd

theorem Copying.requeued {o : Outgoing} (ht : t.Copying)
    (hk : ∃ e ∈ t.ackState.inFlight.kept, e.1 = o.sequence) :
    ((t.push o).log (.requeued o)).Copying := by
  obtain ⟨e, he, hseq⟩ := hk
  refine ⟨fun d hd => ?_, fun {before p} hp => ?_, fun p hp => ?_⟩
  · exact awaitsAck_append (ht.inFlight d hd) (by simp [Effect.acks])
  · rcases List.prefix_concat_iff.1 hp with heq | hp
    · obtain ⟨rfl, hlast⟩ := List.append_inj' heq rfl
      obtain rfl : p = o := by simpa using hlast
      exact hseq ▸ ht.inFlight e he
    · exact ht.copied hp
  · rcases List.mem_append.1 hp with hp | hp
    · exact ht.first p hp
    · simp at hp

theorem Copying.transmitted {o : Outgoing} {room : Nat} {destination : Address} {datagram : Bytes}
    {linkUp : Bool} (ht : t.Copying)
    (hh : u.history = t.history ++ [.transmitted destination datagram o linkUp])
    (hk : u.ackState = (t.ackState.depart now room o).2) : u.Copying := by
  refine ht.step hh (by simp [Effect.enqueued?]) fun e he => ?_
  rw [hk] at he
  rcases AckState.kept_of_depart he with he | ⟨hd, -, rfl⟩
  · exact awaitsAck_append (ht.inFlight e he) (by simp [Effect.acks])
  · rw [awaitsAck_snoc]
    simp [Effect.tracks, hd]

theorem Step.copying (h : Step plain now t u) (ht : t.Copying) : u.Copying := by
  have unchanged : t.history = t.history ++ [] := (List.append_nil _).symm
  have same : ∀ e ∈ t.ackState.inFlight.kept, ∃ d ∈ t.ackState.inFlight.kept, d.1 = e.1 :=
    fun e he => ⟨e, he, rfl⟩
  cases h with
  | note he =>
    refine ht.kept (l := [_]) rfl ?_ same
    rename_i e
    cases e <;> simp_all [Effect.isNote, Effect.enqueued?, Effect.acks]
  | queue hp hd ho => exact ht.queued hd rfl rfl
  | queueAcks hp hd => exact ht.queued (by simp [hd]) rfl rfl
  | requeue hd hk =>
    obtain ⟨e, he, hseq, -⟩ := hk
    exact ht.requeued ⟨e, he, hseq⟩
  | turnAway | receive | close =>
    exact ht.kept (l := [_]) rfl (by simp [Effect.enqueued?, Effect.acks]) same
  | refresh =>
    refine ht.kept unchanged (by simp) fun e he => ?_
    obtain ⟨d, hd, rfl⟩ := List.mem_map.1 he
    exact ⟨d, hd, rfl⟩
  | @process i p rest hs hc hi =>
    obtain ⟨l, hh, hown⟩ := history_process_spec now p { t with incoming := rest }
    refine ht.step hh (fun e he => ?_) fun e he => ?_
    · rcases hown e he with rfl | rfl | rfl | rfl <;> rfl
    · rw [show (decide _ _ _).ackState = (t.ackState.arrive p).2 from rfl,
        AckState.arrive_inFlight] at he
      -- What is left in flight was not acked by this packet.
      obtain ⟨he, hacked⟩ := AckState.kept_of_acked he
      refine awaitsAck_append (ht.inFlight e he) fun d hd => ?_
      rcases hown d hd with rfl | rfl | rfl | rfl
      · simpa [Effect.acks] using hacked
      all_goals rfl
  | release => exact ht.transmitted rfl rfl
  | flush => exact ht.transmitted rfl rfl
  | _ => exact ht.kept unchanged (by simp) same

theorem Reachable.copying {timed : Prop} {start : Traffic} {starts clock : Nat}
    (h : Reachable plain timed start starts clock t) (hs : start.Copying) : t.Copying := by
  induction h with
  | refl => exact hs
  | started _ ih => exact ⟨ih.inFlight, ih.copied, ih.first⟩
  | wait _ _ ih => exact ih
  | step _ step ih => exact step.copying ih

theorem Balanced.sent_subperm (ht : t.Balanced) : sentIn t.history <+~ enqueuedIn t.history := by
  refine List.subperm_ext_iff.2 fun o _ => ?_
  have := ht o
  omega

/-- An ack ends the making of copies, until the number is sent again. -/
theorem Copying.stopped (ht : t.Copying) {before after : List Effect} {e : Effect}
    (hh : t.history = before ++ e :: after) (he : e.acks id = true)
    (hnew : ∀ d ∈ after, d.tracks id = false) : copiesIn id after = [] := by
  refine List.filter_eq_nil_iff.2 fun o ho => ?_
  obtain ⟨d, hd, henq⟩ := List.mem_filterMap.1 ho
  obtain ⟨early, late, rfl⟩ := List.append_of_mem hd
  cases d with
  | queued p =>
    obtain rfl := Option.some.inj henq
    have hfirst := ht.first p (hh ▸ by simp)
    simp [hfirst]
  | requeued p =>
    obtain rfl := Option.some.inj henq
    have hprefix : (before ++ e :: early) ++ [.requeued p] <+: t.history := ⟨late, by simp [hh]⟩
    have hcopied := ht.copied hprefix
    by_cases hid : p.sequence = id
    · rw [hid, awaitsAck_of_acked he fun d hd => hnew d (List.mem_append_left _ hd)] at hcopied
      cases hcopied
    · simp [hid]
  | _ => cases henq

end Traffic

namespace Site

/-- After an ack, no copy is queued before the number is sent again. So all retransmissions until
then are copies that were queued before the ack, each sent once at most. -/
structure CopiesKept (s : Site) : Prop where
  stopped : ∀ {before p now after id}, s.history = before ++ .processed p now :: after →
    id ∈ p.acked → (∀ e ∈ after, e.tracks id = false) → copiesIn id after = []
  covered : ∀ {before p now after id}, s.history = before ++ .processed p now :: after →
    id ∈ p.acked → (∀ e ∈ after, e.tracks id = false) → resentIn id s.history <+~ copiesIn id before

theorem opened_copying (config : Config) (viewer : Viewer) (remote : Address) (since : Nat) :
    (opened config viewer remote since).traffic.Copying :=
  ⟨fun _ he => (List.not_mem_nil he).elim, fun h => by simp [traffic, opened] at h,
    fun _ ho => (List.not_mem_nil ho).elim⟩

/-- In every run, with any number of attendants, only copies that wait already are sent after an
ack. -/
theorem follow_keeps_copies (config : Config) (viewer : Viewer) (remote : Address) (since : Nat)
    (moves : List Move) : ((opened config viewer remote since).follow moves).CopiesKept := by
  obtain ⟨last, h⟩ := run_reachable False False config viewer remote since
    (fun h => (h.elim : ∀ m ∈ moves, m.LeavesAcks)) (fun h => h.elim)
  have copying := h.copying (opened_copying config viewer remote since)
  have balanced := follow_balanced config viewer remote since moves
  obtain ⟨s, hs⟩ : ∃ s, (opened config viewer remote since).follow moves = s := ⟨_, rfl⟩
  rw [hs] at copying balanced ⊢
  have stopped : ∀ {before p now after id}, s.history = before ++ .processed p now :: after →
      id ∈ p.acked → (∀ e ∈ after, e.tracks id = false) → copiesIn id after = [] := by
    intro before p now after id hh hid hnew
    exact copying.stopped hh (by simpa [Effect.acks] using hid) hnew
  refine ⟨stopped, ?_⟩
  intro before p now after id hh hid hnew
  have hcopies : copiesIn id s.history = copiesIn id before := by
    rw [hh, copiesIn, enqueuedIn, List.filterMap_append, List.filter_append,
      List.filterMap_cons_none rfl, ← enqueuedIn, ← enqueuedIn, ← copiesIn, ← copiesIn,
      stopped hh hid hnew, List.append_nil]
  rw [← hcopies]
  exact balanced.sent_subperm.filter _

/-- The alert is sent, and a copy of it is queued. Then its ack is processed, and after that the
copy is sent. -/
def lateAckMoves : List Move :=
  [.step {} .start, .step {} (.authenticated 0 (.authorized none)), .step {} (.joined 0),
   .step {} (.tell (.alert "a")), .step {} (.serve 0 (1 * Time.second) true),
   .step {} (.ackTick 0 (6 * Time.second)),
   .step {} (.receive (.ofMessage (.packetAck { ids := [1] }))),
   .step {} (.serve 0 (6 * Time.second) true), .step {} (.serve 0 (6 * Time.second) true)]

/-- An ack that is processed does not keep the copies of its packet from being sent. -/
theorem acked_alert_resent : ∃ before p now after,
    (sample.follow lateAckMoves).history = before ++ .processed p now :: after ∧ 1 ∈ p.acked ∧
      (∀ o ∈ after.filterMap Effect.queued?, o.sequence ≠ 1) ∧ (resentIn 1 after).length = 1 :=
  ⟨(sample.follow lateAckMoves).history.take 6, .ofMessage (.packetAck { ids := [1] }),
    6 * Time.second, (sample.follow lateAckMoves).history.drop 7, by decide +kernel⟩

end Site
end ViewerCircuit
