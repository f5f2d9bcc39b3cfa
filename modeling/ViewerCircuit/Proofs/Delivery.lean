import ViewerCircuit.Proofs.Outbound

/-!
# Delivery of outbound packets

What a run does to the packets that callers send: as long as nobody wants the circuit closed, every
packet is queued; packets leave in the order of their calls; and what was queued before somebody
wanted the circuit closed is on the wire when the circuit is closed.
-/
namespace ViewerCircuit

namespace Traffic

variable {plain : Prop} {now : Nat} {t u : Traffic}

theorem Outbound.in_order (ht : t.Outbound) (c : Category) :
    firstSentIn c t.history <+: queuedIn c t.history := by
  cases hf : t.leftover? with
  | none =>
    rw [← ht.waiting hf c]
    exact List.prefix_append _ _
  | some remaining => exact (List.prefix_append _ _).trans (ht.owed remaining hf c).in_order

/-- When the circuit is closed, its attendant holds nothing any more. -/
theorem Lifecycle.leftover_of_closed (ht : t.Lifecycle) (hp : t.phase = .closed) :
    t.leftover? = some [] := by
  cases hat : t.attendants with
  | nil => exact absurd hp (ht.unstarted hat).2
  | cons a rest =>
    have hended := ht.ended hp a (hat ▸ List.mem_cons_self)
    simp [leftover?, hat, hended, Stage.leftover?]

theorem Outbound.complete (ht : t.Outbound) (hlife : t.Lifecycle) (hp : t.phase = .closed)
    (h : t.Promised) (c : Category) :
    queuedIn c (ViewerCircuit.early t.history) <+: firstSentIn c t.history := by
  have hall := (ht.owed [] (hlife.leftover_of_closed hp) c).complete h
  rwa [show firstsIn c [] = [] from rfl, List.append_nil] at hall

structure Welcoming (t : Traffic) : Prop where
  while_open : t.phase ≠ .closed → ∀ p, Effect.turnedAway p ∉ t.history
  early : t.authorized = true → ∀ p, Effect.turnedAway p ∉ early t.history

theorem mem_early_append {e : Effect} {history l : List Effect}
    (h : e ∈ ViewerCircuit.early (history ++ l)) : e ∈ ViewerCircuit.early history ∨ e ∈ l := by
  unfold ViewerCircuit.early at h ⊢
  rw [List.takeWhile_append] at h
  split at h
  · next hall =>
    rw [(List.takeWhile_prefix _).eq_of_length hall]
    exact (List.mem_append.1 h).imp_right fun h => (List.takeWhile_prefix _).subset h
  · exact .inl h

theorem Welcoming.spared (ht : t.Welcoming) {l : List Effect} (hh : u.history = t.history ++ l)
    (hl : ∀ e ∈ l, e.turnedAway? = none) (hp : u.phase ≠ .closed → t.phase ≠ .closed)
    (ha : u.authorized = true → t.authorized = true ∨ t.phase ≠ .closed) : u.Welcoming := by
  have none : ∀ p, Effect.turnedAway p ∉ l := by
    intro p hm
    simpa [Effect.turnedAway?] using hl _ hm
  constructor
  · intro h p hm
    rw [hh] at hm
    rcases List.mem_append.1 hm with hm | hm
    · exact ht.while_open (hp h) p hm
    · exact none p hm
  · intro h p hm
    rw [hh] at hm
    rcases mem_early_append hm with hm | hm
    · rcases ha h with h | h
      · exact ht.early h p hm
      · exact ht.while_open h p ((early_isPrefix _).subset hm)
    · exact none p hm

/-- An authorized circuit is closed only after somebody wanted it. -/
theorem Lifecycle.called_of_closed (ht : t.Lifecycle) (hp : t.phase = .closed)
    (ha : t.authorized = true) : t.CloseCalled :=
  ht.called_of_leftover (ht.leftover_of_closed hp) ha

theorem Step.welcoming (h : Step plain now t u) (ht : t.Welcoming) (hlife : t.Lifecycle)
    (hl : t.attendants.length ≤ 1) : u.Welcoming := by
  have quiet : t.history = t.history ++ [] := (List.append_nil _).symm
  cases h with
  | turnAway hp =>
    refine ⟨fun h => absurd hp h, fun h => ?_⟩
    show ∀ p, Effect.turnedAway p ∉ ViewerCircuit.early (t.history ++ [_])
    rw [early_called (hlife.called_of_closed hp h)]
    exact ht.early h
  | note he =>
    refine ht.spared (l := [_]) rfl ?_ id .inl
    rename_i e
    cases e <;> simp_all [Effect.isNote, Effect.turnedAway?]
  | process =>
    obtain ⟨l, hh, hown⟩ := history_process_spec now _ { t with incoming := _ }
    refine ht.spared hh ?_ id .inl
    intro e he
    rcases hown e he with rfl | rfl | rfl | rfl <;> rfl
  | close =>
    refine ht.spared (l := [_]) rfl (by simp [Effect.turnedAway?]) ?_ .inl
    intro h hc
    exact h (by simp [log, hc, Phase.isEnding, Phase.rank])
  | authorize hs | authorizeLate hs =>
    obtain ⟨-, a, hat, hstage⟩ := sole hl hs
    exact ht.spared quiet (by simp) id fun _ => .inr (hlife.alive hat (by simp [hstage])).1
  | refuse => exact ht.spared quiet (by simp) (fun h => absurd rfl h) .inl
  | leave => exact ht.spared quiet (by simp) (fun h => absurd rfl h) .inl
  | join hs =>
    obtain ⟨-, a, hat, hstage⟩ := sole hl hs
    exact ht.spared quiet (by simp) (fun _ => (hlife.alive hat (by simp [hstage])).1) .inl
  | queue | queueAcks | requeue | release | flush | receive =>
    exact ht.spared (l := [_]) rfl (by simp [Effect.turnedAway?]) id .inl
  | _ => exact ht.spared quiet (by simp) id .inl

theorem Outbound.started (ht : t.Outbound) (hat : t.attendants = []) : t.started.Outbound := by
  have hn : t.leftover? = none := by simp [leftover?, hat]
  refine ⟨ht.lanes, fun _ => ht.waiting hn, ?_⟩
  intro remaining hr
  simp [leftover?, Traffic.started, hat, Stage.leftover?] at hr

theorem Reachable.delivers {timed : Prop} {start : Traffic} {starts clock : Nat}
    (h : Reachable plain timed start starts clock t) (hs : start.attendants = [])
    (hl : start.Lifecycle) (ho : start.Outbound) (hw : start.Welcoming) (hn : starts ≤ 1) :
    t.Outbound ∧ t.Welcoming := by
  induction h with
  | refl => exact ⟨ho, hw⟩
  | started h ih =>
    obtain ⟨outbound, welcoming⟩ := ih (by omega)
    have hnone := h.length_attendants hs
    exact ⟨outbound.started (List.length_eq_zero_iff.1 (by omega)),
      welcoming.while_open, welcoming.early⟩
  | wait _ _ ih => exact ih hn
  | step h step ih =>
    obtain ⟨outbound, welcoming⟩ := ih hn
    have life := h.lifecycle hs hl hn
    have one := (h.length_attendants hs).trans_le hn
    exact ⟨step.outbound outbound life one, step.welcoming welcoming life one⟩

end Traffic

namespace Site

/-- The packets that callers send: each is queued unless the circuit is closed, which it is not
before somebody wants it; they leave in the order of their calls; and those of before then have left
when the circuit is closed. After a transport fault, what still waits is given up. -/
structure OutboundKept (s : Site) : Prop where
  accepts : s.circuit.phase ≠ .closed → ∀ p category numbered bytes,
    { p with sequence := s.circuit.sequences.next.1 } = numbered → numbered.encode = .ok bytes →
      (s.send p category).2.history.filterMap Effect.queued? =
        s.history.filterMap Effect.queued? ++ [Outgoing.ofPacket numbered bytes category]
  welcome : s.circuit.login.isSome → ∀ p, Effect.turnedAway p ∉ early s.history
  in_order : ∀ c, firstSentIn c s.history <+: queuedIn c s.history
  complete : s.circuit.phase = .closed → s.circuit.login.isSome →
    (∀ e ∈ s.history, e.isFailure = false) → s.circuit.closeReason ≠ some .transportFault →
      ∀ c, queuedIn c (early s.history) <+: firstSentIn c s.history

section

variable (config : Config) (viewer : Viewer) (remote : Address) (since : Nat)

theorem opened_lifecycle : (opened config viewer remote since).traffic.Lifecycle := by
  refine ⟨⟨rfl, fun a ha => ?_⟩, fun _ => ⟨rfl, Phase.noConfusion⟩, fun a ha => ?_, ?_, ?_⟩
  · cases ha
  · cases ha
  · intro _ a ha
    cases ha
  · intro h
    cases h

theorem opened_outbound : (opened config viewer remote since).traffic.Outbound := by
  have hnone : ∀ c, (opened config viewer remote since).traffic.outgoing.get c = [] :=
    fun c => PerCategory.get_all _ c
  constructor
  · intro c o ho
    rw [hnone] at ho
    cases ho
  · intro _ c
    rw [hnone]
    rfl
  · intro remaining hr
    cases hr

theorem send_queues {s : Site} (hp : s.circuit.phase ≠ .closed) (p : Packet) (category : Category)
    (numbered : Packet) (bytes : Bytes)
    (hn : { p with sequence := s.circuit.sequences.next.1 } = numbered)
    (he : numbered.encode = .ok bytes) :
    (s.send p category).2.history.filterMap Effect.queued? =
      s.history.filterMap Effect.queued? ++ [Outgoing.ofPacket numbered bytes category] := by
  obtain ⟨-, ht⟩ := send_of_encode category hp hn he
  have hh : (s.send p category).2.history =
      s.history ++ [.recycled numbered] ++ [.queued (.ofPacket numbered bytes category)] :=
    congrArg Traffic.history ht
  rw [hh]
  simp [List.filterMap_cons, Effect.queued?]

/-- In every run with one attendant, packets are sent in the order of their calls, and closing loses
none that was queued before. -/
theorem follow_keeps_outbound {moves : List Move} (hm : StartedOnce moves) :
    ((opened config viewer remote since).follow moves).OutboundKept := by
  obtain ⟨last, h⟩ := run_reachable False False config viewer remote since
    (fun h => h.elim) (fun h => h.elim)
  have life := h.lifecycle rfl (opened_lifecycle config viewer remote since) hm
  obtain ⟨outbound, welcoming⟩ := h.delivers rfl (opened_lifecycle config viewer remote since)
    (opened_outbound config viewer remote since)
    ⟨fun _ _ => List.not_mem_nil, fun _ _ => List.not_mem_nil⟩ hm
  exact ⟨send_queues, welcoming.early, outbound.in_order, fun hp ha hf hr =>
    outbound.complete life hp ⟨ha, hr, hf⟩⟩

end

def alertMoves (reason : CloseReason) : List Move :=
  [.step {} .start, .step {} (.authenticated 0 (.authorized none)), .step {} (.joined 0),
   .step {} (.tell (.alert "away")), .step {} (.close reason), .step {} (.serve 0 1 true),
   .step {} (.finish 0), .step {} (.flush 0 2 true), .step {} (.stopAckTimer 0),
   .step {} (.stopProbeTimer 0), .step {} (.leave 0)]

theorem alert_leaves_before_kick : StartedOnce (alertMoves .kicked) ∧
    (sample.follow (alertMoves .kicked)).OutboundKept ∧
      (sample.follow (alertMoves .kicked)).circuit.phase = .closed ∧
        (firstSentIn .task (sample.follow (alertMoves .kicked)).history).length = 1 := by
  have hm : StartedOnce (alertMoves .kicked) := by
    unfold StartedOnce
    decide
  exact ⟨hm, follow_keeps_outbound _ _ _ _ hm, by decide +kernel, by decide +kernel⟩

/-- No datagram fails here. The caller who closes names a transport fault all the same, so the alert
is never sent. -/
theorem alert_lost_after_fault : StartedOnce (alertMoves .transportFault) ∧
    (sample.follow (alertMoves .transportFault)).circuit.phase = .closed ∧
    (sample.follow (alertMoves .transportFault)).circuit.login.isSome ∧
    (∀ e ∈ (sample.follow (alertMoves .transportFault)).history, e.isFailure = false) ∧
    (queuedIn .task (early (sample.follow (alertMoves .transportFault)).history)).length = 1 ∧
    firstSentIn .task (sample.follow (alertMoves .transportFault)).history = [] := by
  refine ⟨by unfold StartedOnce; decide, ?_, ?_, ?_, ?_, ?_⟩
  all_goals decide +kernel

end Site
end ViewerCircuit
