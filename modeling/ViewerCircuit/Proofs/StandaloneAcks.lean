import ViewerCircuit.Proofs.AckBookkeeping
import ViewerCircuit.Proofs.Liveness
import ViewerCircuit.Proofs.Outbound

/-!
# Standalone acks

Acks that went along with no packet leave in packets of their own, the oldest first, until none
waits any more. Such a packet is as long as its acks make it, however long a packet may be.
-/
namespace ViewerCircuit.Site

variable {s u v : Site} {limit chunks : Nat}

theorem takeAcks_waiting (s : Site) :
    s.takeAcks.1 ++ s.takeAcks.2.circuit.ackState.owed.waiting =
      s.circuit.ackState.owed.waiting :=
  List.take_append_drop acksPerPacket _

/-- The loop ends because nothing is left, not because it was told how often to run. -/
theorem sendAckChunks_ends {chunks others : Nat} (h : s.circuit.ackState.owed.count ≤ chunks)
    (k : s.circuit.ackState.owed.count ≤ others) :
    sendAckChunks chunks s = sendAckChunks others s := by
  induction chunks generalizing s others with
  | zero =>
    have hnone := List.length_eq_zero_iff.1 (Nat.le_zero.1 h)
    rw [sendAckChunks_of_none _ hnone, sendAckChunks_of_none _ hnone]
  | succ chunks ih =>
    by_cases hnone : s.circuit.ackState.owed.waiting = []
    · rw [sendAckChunks_of_none _ hnone, sendAckChunks_of_none _ hnone]
    · have fewer := count_takeAcks hnone
      cases others with
      | zero => omega
      | succ others =>
        rw [sendAckChunks_of_some _ hnone, sendAckChunks_of_some _ hnone]
        exact ih (by omega) (by omega)

structure QueuesAcks (sent : List Outgoing) (s u : Site) : Prop where
  waiting : u.circuit.ackState.owed.waiting = []
  members : u.circuit.ackState.owed.members = []
  queued : u.circuit.queue = sent.foldl Queue.enqueue s.circuit.queue
  told : u.history.filterMap Effect.queued? = s.history.filterMap Effect.queued? ++ sent
  in_order : sent.flatMap Outgoing.standaloneAcks = s.circuit.ackState.owed.waiting
  each : ∀ o ∈ sent, o.BringsAcks o.standaloneAcks ∧ 1 ≤ o.standaloneAcks.length ∧
    o.standaloneAcks.length ≤ 255
  fit_iff : ∀ size, (∀ o ∈ sent, o.bytes.length ≤ size) ↔
    s.circuit.ackState.owed.waiting = [] ∨
      standaloneLength (min s.circuit.ackState.owed.count 255) ≤ size

theorem QueuesAcks.none (ho : s.circuit.ackState.owed.Consistent limit)
    (h : s.circuit.ackState.owed.waiting = []) : QueuesAcks [] s s := by
  refine ⟨h, ?_, rfl, (List.append_nil _).symm, h.symm, by simp, by simp [h]⟩
  refine List.eq_nil_iff_forall_not_mem.2 fun id hid => ?_
  rw [ho.mem_iff, h] at hid
  cases hid

theorem QueuesAcks.more {o : Outgoing} {sent : List Outgoing} (rest : QueuesAcks sent u v)
    (h : s.circuit.ackState.owed.waiting ≠ []) (brings : o.BringsAcks s.takeAcks.1)
    (left : u.circuit.ackState.owed = s.takeAcks.2.circuit.ackState.owed)
    (queued : u.circuit.queue = s.circuit.queue.enqueue o)
    (told : u.history.filterMap Effect.queued? = s.history.filterMap Effect.queued? ++ [o]) :
    QueuesAcks (o :: sent) s v := by
  have first : o.standaloneAcks = s.takeAcks.1 := brings.holds
  have taken : s.takeAcks.1.length = min s.circuit.ackState.owed.count 255 :=
    (List.length_take ..).trans (Nat.min_comm _ _)
  have hpos : 0 < s.circuit.ackState.owed.count := List.length_pos_iff.2 h
  refine ⟨rest.waiting, rest.members, ?_, ?_, ?_, ?_, ?_⟩
  · rw [rest.queued, queued, List.foldl_cons]
  · rw [rest.told, told, List.append_assoc, List.singleton_append]
  · rw [List.flatMap_cons, rest.in_order, first, left]
    exact takeAcks_waiting s
  · rintro p hp
    rcases List.mem_cons.1 hp with rfl | hp
    · rw [first, taken]
      exact ⟨brings, by omega, Nat.min_le_right _ _⟩
    · exact rest.each p hp
  · intro size
    have fewer : u.circuit.ackState.owed.count ≤ s.circuit.ackState.owed.count := by
      rw [left]
      exact (List.length_drop ..).trans_le (Nat.sub_le _ _)
    -- No later packet takes more acks than this one, so this one decides.
    rw [List.forall_mem_cons, rest.fit_iff, brings.length, taken, or_iff_right h,
      and_iff_left_iff_imp]
    intro hfits
    refine .inr (le_trans ?_ hfits)
    unfold standaloneLength ackLength
    omega

theorem sendAckChunks_queues (hs : s.pool.Sound) (hp : s.circuit.phase ≠ .closed)
    (ho : s.circuit.ackState.owed.Consistent limit) (hn : s.circuit.ackState.owed.count ≤ chunks) :
    ∃ sent, QueuesAcks sent s (sendAckChunks chunks s) := by
  induction chunks generalizing s with
  | zero => exact ⟨[], .none ho (List.length_eq_zero_iff.1 (Nat.le_zero.1 hn))⟩
  | succ chunks ih =>
    by_cases hnone : s.circuit.ackState.owed.waiting = []
    · rw [sendAckChunks_of_none _ hnone]
      exact ⟨[], .none ho hnone⟩
    · -- The packet that is made leaves the ack state alone, so what remains to be sent is the
      -- backlog without the acks that were taken, which is consistent if the backlog was.
      have fewer := count_takeAcks hnone
      obtain ⟨pool, numbered, bytes, hpool, brings, informed⟩ :=
        inform_acks (s := s.takeAcks.2) hs hp (length_takeAcks s)
      rw [sendAckChunks_of_some _ hnone]
      rw [informed] at fewer ⊢
      obtain ⟨sent, rest⟩ := ih (s := ({ s.takeAcks.2 with pool } : Site).queueing _ _ _)
        (PacketPool.takeBack_sound hpool _) hp (ho.take acksPerPacket)
        (Nat.le_of_lt_succ (fewer.trans_le hn))
      refine ⟨_, rest.more hnone brings rfl rfl ?_⟩
      rw [history_queueing, List.filterMap_append]
      rfl

/-- On a circuit that is not closed, all owed acks are queued in packets of their own. -/
theorem sendOwedAcks_queues (hs : s.pool.Sound) (hp : s.circuit.phase ≠ .closed)
    (ho : s.circuit.ackState.owed.Reached s.circuit.config) :
    (∀ chunks, s.circuit.ackState.owed.count ≤ chunks → sendAckChunks chunks s = s.sendOwedAcks) ∧
      ∃ sent, QueuesAcks sent s s.sendOwedAcks :=
  ⟨fun _ h => sendAckChunks_ends h (Nat.le_refl _),
    sendAckChunks_queues hs hp ho.consistent (Nat.le_refl _)⟩

def backlogMoves : List Move :=
  [.step {} .start, .step {} (.authenticated 0 (.authorized none)), .step {} (.joined 0)] ++
    (List.range 23).flatMap fun i =>
      [.step {} (.receive { Packet.reliable (.completePingCheck { pingId := 1 }) with
          sequence := UInt32.ofNat (i + 1) }),
       .step {} (.serve 0 i true)]

def backlog : Site :=
  (opened narrow ⟨.zero, .zero, 1⟩ (.v4 .unspecified 1) 0).follow backlogMoves

theorem backlog_config : backlog.circuit.config = narrow := by
  rw [backlog, follow_config]

theorem sendOwedAcks_queues_backlog : backlog.pool.Sound ∧ backlog.circuit.phase ≠ .closed ∧
    backlog.circuit.ackState.owed.Reached backlog.circuit.config ∧
    (∀ chunks, backlog.circuit.ackState.owed.count ≤ chunks →
      sendAckChunks chunks backlog = backlog.sendOwedAcks) ∧
    ∃ sent, QueuesAcks sent backlog backlog.sendOwedAcks := by
  have hs : backlog.pool.Sound := follow_sound (PacketPool.empty_sound _ _) backlogMoves
  have hp : backlog.circuit.phase ≠ .closed := by decide +kernel
  have ho : backlog.circuit.ackState.owed.Reached backlog.circuit.config := by
    rw [backlog_config, backlog]
    exact follow_owed narrow _ _ _ _
  exact ⟨hs, hp, ho, sendOwedAcks_queues hs hp ho⟩

/-- Nothing limits the length of a packet that is made for acks. -/
theorem backlog_exceeds_limit : backlog.circuit.config.Valid ∧ backlog.circuit.phase ≠ .closed ∧
    backlog.circuit.config.maxPacketSize = 100 ∧
    (backlog.sendOwedAcks.history.filterMap Effect.queued?).map
      (fun o => (o.kind, o.bytes.length)) = [(.packetAck, 103)] := by
  rw [backlog_config]
  exact ⟨narrow_valid, by decide +kernel, rfl, by decide +kernel⟩

end ViewerCircuit.Site
