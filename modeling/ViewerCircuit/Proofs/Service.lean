import ViewerCircuit.Proofs.StepTraffic

/-!
# Service

The work that a circuit does on packets, one packet at a time: a move processes an inbound packet,
hands an outbound one to the transport, from the queue or from what is flushed, or does nothing of
this kind. Everything else, calls and timers and the life of the attendants, is aside.
-/
namespace ViewerCircuit

def Effect.isService : Effect → Bool
  | transmitted _ _ _ _ => true
  | processed _ _ => true
  | owes _ => true
  | dispatched _ _ => true
  | dropped _ _ => true
  | concluded _ _ => true
  | _ => false

def Event.isProbe : Event → Bool
  | probe _ => true
  | _ => false

structure Service where
  crashAlerted : Bool
  effects : List Effect

namespace Site

def service (s : Site) : Service where
  crashAlerted := s.circuit.crashAlerted
  effects := s.history.filter Effect.isService

def released (now : Nat) (linkUp : Bool) (o : Outgoing) (s : Site) : Site :=
  if linkUp then (s.transmit now linkUp o).2
  else (s.transmit now linkUp o).2.close .transportFault

theorem released_history (now : Nat) (linkUp : Bool) (o : Outgoing) (s : Site) :
    ∃ datagram, (s.released now linkUp o).history = s.history ++
      .transmitted s.circuit.sendAddress datagram o linkUp ::
        if linkUp then [] else [.closeCalled .transportFault] := by
  have sent := transmit_history now linkUp o s
  cases linkUp with
  | true => exact ⟨_, sent⟩
  | false =>
    have closed : (s.released now false o).history = _ := history_close _ _
    rw [sent, List.append_assoc] at closed
    exact ⟨_, closed⟩

theorem flushNext_history (i : AttendantId) (now : Nat) (linkUp joined : Bool) (o : Outgoing)
    (rest : List Outgoing) (s : Site) :
    ∃ datagram, (s.flushNext i now linkUp joined o rest).history = s.history ++
      [.transmitted s.circuit.sendAddress datagram o linkUp] :=
  ⟨_, transmit_history now linkUp o s⟩

/-- The moves that work on a packet, and what they come to. -/
inductive Works (s : Site) : Move → Site → Prop
  | process {conduct i now linkUp p rest} (hs : s.circuit.stage? i = some .serving)
      (hc : s.circuit.queue.closed = false) (hi : s.circuit.queue.incoming = p :: rest) :
    Works s (.step conduct (.serve i now linkUp)) ((s.update fun c =>
      { c with queue := { s.circuit.queue with incoming := rest } }).process conduct now p)
  | release {conduct i now linkUp queue c o rest} (hs : s.circuit.stage? i = some .serving)
      (hc : s.circuit.queue.closed = false)
      (hget : s.circuit.queue.outgoing.get c = o :: rest)
      (hclosed : queue.closed = s.circuit.queue.closed)
      (hincoming : queue.incoming = s.circuit.queue.incoming)
      (hout : queue.outgoing = s.circuit.queue.outgoing.set c rest) :
    Works s (.step conduct (.serve i now linkUp))
      ((s.update fun c => { c with queue }).released now linkUp o)
  | flush {conduct i now linkUp joined o rest}
      (hs : s.circuit.stage? i = some (.flushing joined (o :: rest))) :
    Works s (.step conduct (.flush i now linkUp)) (s.flushNext i now linkUp joined o rest)

/-- The circuits know the same of their viewer. Where a dispatch `ends`, the viewer may have been
told of its failure. -/
structure Alike (ends : Prop) (c d : Circuit) : Prop where
  config : d.config = c.config
  heard : d.heard = c.heard
  failures : d.probeFailures = c.probeFailures
  alerted : d.crashAlerted = c.crashAlerted ∨ ends

theorem Alike.refl {ends : Prop} (c : Circuit) : Alike ends c c := ⟨rfl, rfl, rfl, .inl rfl⟩

/-- The view shows what the circuit knows of its viewer and the packets that are worked on, and
nothing aside. A view that sees no dispatch end does not show how dispatches are concluded. -/
structure Aside {α : Type} (ends : Prop) (f : Site → α) : Prop where
  emit : ∀ {e : Effect}, (e.isService = true → ends ∧ e.isConclusion = true) →
    ∀ s : Site, f (s.emit e) = f s
  kept : ∀ {s u : Site}, u.effects = s.effects → Alike ends s.circuit u.circuit → f u = f s

variable {given : Packet → Prop} {pauses ends : Prop} {s u : Site} {e : Effect}

theorem service_aside : Aside False service where
  emit he s := by
    have unseen := Bool.eq_false_of_not_eq_true fun h => (he h).1
    simp [service, Site.emit, history, unseen]
  kept he h := by simp [service, history, he, h.alerted.resolve_right id]

namespace Aside

variable {α : Type} {f : Site → α}

theorem told (hf : Aside ends f) (he : e.isService = false) (s : Site) : f (s.emit e) = f s :=
  hf.emit (fun h => Bool.noConfusion (he.symm.trans h)) s

theorem recycle (hf : Aside ends f) (p : Packet) (s : Site) : f (s.recycle p) = f s := by
  have pooled : f (s.recycle p) = f (s.emit (.recycled p)) := hf.kept rfl (.refl _)
  exact pooled.trans (hf.told rfl s)

theorem send (hf : Aside ends f) (p : Packet) (category : Category) (s : Site) :
    f (s.send p category).2 = f s := by
  unfold Site.send
  split
  · exact (hf.told rfl _).trans (hf.recycle p s)
  · dsimp only
    split
    · exact (hf.told rfl _).trans (hf.kept (s := s) rfl ⟨rfl, rfl, rfl, .inl rfl⟩)
    · refine (hf.told rfl _).trans ?_
      refine Eq.trans ?_ (hf.recycle { p with sequence := s.circuit.sequences.next.1 } s)
      exact hf.kept rfl ⟨rfl, rfl, rfl, .inl rfl⟩

theorem blind (hf : Aside ends f) : Blind f where
  draw _ s := hf.kept rfl (.refl s.circuit)
  send := hf.send
  requeue _ s := (hf.told rfl _).trans (hf.kept (s := s) rfl ⟨rfl, rfl, rfl, .inl rfl⟩)
  ackState _ _ := hf.kept rfl ⟨rfl, rfl, rfl, .inl rfl⟩
  duplicates _ _ := hf.kept rfl ⟨rfl, rfl, rfl, .inl rfl⟩

theorem close (hf : Aside ends f) (reason : CloseReason) (s : Site) : f (s.close reason) = f s := by
  have alike : Alike ends s.circuit (s.close reason).circuit := by
    rw [close_circuit]
    exact ⟨rfl, rfl, rfl, .inl rfl⟩
  have called : f (s.close reason) = f (s.emit (.closeCalled reason)) := hf.kept rfl alike
  exact called.trans (hf.told rfl s)

theorem deed (hf : Aside ends f) (h : Deed given pauses ends s u) : f u = f s := by
  cases h with
  | @remark e he hc =>
    refine hf.emit ?_ s
    intro hservice
    cases e with
    | concluded => exact ⟨hc rfl, rfl⟩
    | handlerCalled | eventPublished => cases hservice
    | _ => cases he
  | recycle => exact hf.recycle _ s
  | draw => exact hf.kept rfl (.refl s.circuit)
  | send => exact hf.send _ _ s
  | close => exact hf.close _ s
  | reportCrash h => exact hf.kept rfl ⟨rfl, rfl, rfl, .inr h⟩
  | _ => exact hf.kept rfl ⟨rfl, rfl, rfl, .inl rfl⟩

theorem does (hf : Aside ends f) (h : Does (fun _ => True) True ends s u) (hs : s.pool.Sound) :
    f u = f s :=
  h.invariant (motive := fun v => f v = f s) hs rfl fun _ _ deed ih => (hf.deed deed).trans ih

theorem startPing (hf : Aside ends f) (s : Site) (hs : s.pool.Sound) : f s.startPing = f s :=
  hf.does (startPing_does s) hs

theorem withRemaining (hf : Aside ends f) (i : AttendantId) (joined : Bool)
    (remaining : List Outgoing) (s : Site) :
    f (s.update (·.withRemaining i joined remaining)) = f s := by
  have alike : Alike ends s.circuit (s.circuit.withRemaining i joined remaining) := by
    unfold Circuit.withRemaining
    dsimp only
    split <;> exact ⟨rfl, rfl, rfl, .inl rfl⟩
  exact hf.kept rfl alike

theorem onVerdict (hf : Aside ends f) (i : AttendantId) (verdict : Verdict) (s : Site) :
    f (s.onVerdict i verdict) = f s := by
  cases verdict with
  | authorized login =>
    unfold Site.onVerdict
    dsimp only
    split
    · exact hf.kept rfl ⟨rfl, rfl, rfl, .inl rfl⟩
    · exact (hf.told rfl _).trans (hf.kept (s := s) rfl ⟨rfl, rfl, rfl, .inl rfl⟩)
  | rejected | failed => exact hf.kept rfl ⟨rfl, rfl, rfl, .inl rfl⟩

theorem beginFlush (hf : Aside ends f) (i : AttendantId) (joined : Bool) (s : Site) :
    f (s.beginFlush i joined) = f s := by
  have flushed : f (s.sendOwedAcks.update fun c => { c with
      queue := s.sendOwedAcks.circuit.queue.flush.2 }) = f s.sendOwedAcks :=
    hf.kept rfl ⟨rfl, rfl, rfl, .inl rfl⟩
  unfold Site.beginFlush
  exact (hf.withRemaining _ _ _ _).trans (flushed.trans (hf.blind.sendAckChunks _ s))

theorem leave (hf : Aside ends f) (i : AttendantId) (joined : Bool) (s : Site) :
    f (s.leave i joined) = f s := by
  unfold Site.leave
  dsimp only
  split
  · exact (hf.told rfl _).trans (hf.kept (s := s) rfl ⟨rfl, rfl, rfl, .inl rfl⟩)
  · exact hf.kept rfl ⟨rfl, rfl, rfl, .inl rfl⟩

theorem serve (hf : Aside ends f) {i : AttendantId} (conduct : Conduct) (now : Nat)
    (linkUp : Bool) (hs : s.circuit.stage? i = some .serving) :
    f (s.serve conduct i now linkUp) = f s ∨
      Works s (.step conduct (.serve i now linkUp)) (s.serve conduct i now linkUp) := by
  rcases serve_cases conduct i now linkUp s with ⟨-, hserve⟩ | ⟨hopen, ⟨p, rest, hi, hserve⟩ |
    ⟨queue, hclosed, hincoming, ⟨c, o, rest, sent, hget, hout, rfl, hserve⟩ | ⟨-, hserve⟩⟩⟩
  · refine .inl ?_
    rw [hserve]
    exact hf.kept rfl ⟨rfl, rfl, rfl, .inl rfl⟩
  · refine .inr ?_
    rw [hserve]
    exact .process hs hopen hi
  · refine .inr ?_
    rw [hserve]
    exact .release hs hopen hget hclosed hincoming hout
  · refine .inl ?_
    rw [hserve]
    exact hf.kept rfl ⟨rfl, rfl, rfl, .inl rfl⟩

/-- A step other than a probe works on a packet, or is aside. -/
theorem next (hf : Aside ends f) {e : Event} (conduct : Conduct) (he : e.isProbe = false)
    (hs : s.pool.Sound) : f (s.next conduct e).2 = f s ∨
      Works s (.step conduct e) (s.next conduct e).2 := by
  have performed : Performed (fun _ => True) True ends conduct s e _ :=
    next_performed conduct.gives_any e.gives_any s
  generalize (s.next conduct e).2 = u at performed ⊢
  cases performed with
  | verdict => exact .inl (hf.onVerdict _ _ s)
  | serve hs => exact hf.serve conduct _ _ hs
  | finish => exact .inl (hf.beginFlush _ _ s)
  | flush hs => exact .inr (.flush hs)
  | leave => exact .inl (hf.leave _ _ s)
  | ackTick => exact .inl (hf.blind.ackTick _ s)
  | heard | silent => cases he
  | turnAway => exact .inl (hf.recycle _ s)
  | @accept p =>
    exact .inl ((hf.told (e := .accepted p) rfl _).trans
      (hf.kept (s := s) rfl ⟨rfl, rfl, rfl, .inl rfl⟩))
  | call does => exact .inl (hf.does does hs)
  | idle | start | joined | stopAckTimer | stopProbeTimer | settings =>
    exact .inl (hf.kept rfl ⟨rfl, rfl, rfl, .inl rfl⟩)

end Aside

theorem next_works {e : Event} (conduct : Conduct) (hs : s.pool.Sound) :
    (s.next conduct e).2.service = s.service ∨
      Works s (.step conduct e) (s.next conduct e).2 := by
  cases he : e.isProbe with
  | false => exact service_aside.next conduct he hs
  | true =>
    refine .inl ?_
    have performed : Performed (fun _ => True) True False conduct s e _ :=
      next_performed conduct.gives_any e.gives_any s
    generalize (s.next conduct e).2 = u at performed ⊢
    cases performed with
    | silent does =>
      have counted := service_aside.does does hs
      exact counted
    | call does => exact service_aside.does does hs
    | idle | heard | settings => rfl
    | _ => cases he

def heardEffects (now : Nat) (p : Packet) (s : Site) : List Effect :=
  .processed p now :: if (s.circuit.ackState.arrive p).1 then [.owes p.sequence] else []

theorem mem_heardEffects {now : Nat} {p : Packet} (he : e ∈ s.heardEffects now p) :
    e = .processed p now ∨ e = .owes p.sequence := by
  rcases List.mem_cons.1 he with rfl | he
  · exact .inl rfl
  · split at he
    · exact .inr (List.mem_singleton.1 he)
    · cases he

/-- A processed packet is heard and decided about; then the handlers do what they do. -/
theorem process_history (conduct : Conduct) (now : Nat) (p : Packet)
    (hs : s.pool.Sound) : ∃ l, (s.process conduct now p).history = s.history ++
      (s.heardEffects now p ++ (if (s.circuit.duplicates.seen p.sequence p.kind now).1
        then .dropped p now else .dispatched p now) :: l) ∧ ∀ e ∈ l, e.isDeed = true := by
  obtain ⟨u, hu, -, hhistory, does⟩ :=
    process_does conduct.gives_any (fun _ => trivial) now s
  obtain ⟨l, hl, deeds⟩ := (does.framed (hu ▸ hs)).told
  refine ⟨l, ?_, deeds⟩
  rw [hl, hhistory]
  simp [heardEffects]

/-- A move works on one packet at most. -/
theorem move_works (hs : s.pool.Sound) (m : Move) :
    (s.move m).service = s.service ∨ Works s m (s.move m) := by
  cases m with
  | step conduct e => exact next_works conduct hs
  | draw | takeBack => exact .inl rfl

/-- A move that is aside tells nothing of packets that are worked on. -/
theorem told_aside (hs : s.pool.Sound) {m : Move} (h : (s.move m).service = s.service) :
    ∀ e ∈ s.told m, e.isService = false := by
  have heffects : (s.move m).history.filter Effect.isService = s.history.filter Effect.isService :=
    congrArg Service.effects h
  rw [move_history hs m, List.filter_append, List.append_right_eq_self] at heffects
  simpa using heffects

end Site
end ViewerCircuit
