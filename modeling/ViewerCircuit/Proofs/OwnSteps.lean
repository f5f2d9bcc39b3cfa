import ViewerCircuit.Proofs.Lifecycle
import ViewerCircuit.Proofs.StepTraffic

/-!
# What is brought to a circuit

A circuit gets an attendant by being started and an inbound packet by being handed one, and it gets
neither in any other way. Whatever it does of its own takes packets out of the queue at most.
-/
namespace ViewerCircuit

/-- Circuits are started, and packets are handed to them, by calls that bring datagrams only. -/
def Event.IsOwn : Event → Prop
  | start | receive _ => False
  | _ => True

namespace Event

def received? : Event → Option Packet
  | receive p => some p
  | _ => none

theorem IsOwn.isStart {e : Event} (own : e.IsOwn) : e.isStart = false := by
  cases e <;> first | exact own.elim | rfl

theorem IsOwn.received? {e : Event} (own : e.IsOwn) : e.received? = none := by
  cases e <;> first | exact own.elim | rfl

end Event

namespace Circuit

def started (c : Circuit) : Circuit := { c with attendants := c.attendants ++ [{}] }

def handed (p : Packet) (c : Circuit) : Circuit :=
  if c.phase.isEnding then c else { c with queue := c.queue.deliver p }

structure LeftAlone (c d : Circuit) : Prop where
  attendants : d.attendants.length = c.attendants.length
  incoming : d.queue.incoming <:+ c.queue.incoming

theorem LeftAlone.refl (c : Circuit) : c.LeftAlone c := ⟨rfl, List.suffix_rfl⟩

end Circuit

namespace Site

variable {s u : Site} {conduct : Conduct}

theorem next_start (conduct : Conduct) (s : Site) :
    (s.next conduct .start).2.circuit = s.circuit.started := rfl

theorem next_receive (conduct : Conduct) (p : Packet) (s : Site) :
    (s.next conduct (.receive p)).2.circuit = s.circuit.handed p := by
  have received : (s.next conduct (.receive p)).2 = s.receive p := rfl
  rw [received, receive, Circuit.handed]
  split <;> rfl

def incoming (s : Site) : List Packet := s.circuit.queue.incoming

theorem incoming_send (p : Packet) (category : Category) (s : Site) :
    (s.send p category).2.incoming = s.incoming := by
  unfold send
  split
  · rfl
  · dsimp only
    split <;> rfl

theorem incoming_blind : Blind incoming where
  draw _ _ := rfl
  send := incoming_send
  requeue _ _ := rfl
  ackState _ _ := rfl
  duplicates _ _ := rfl

theorem Does.incoming (h : Does (fun _ => True) True True s u) (hs : s.pool.Sound) :
    u.incoming = s.incoming := by
  have kept : ∀ {t w : Traffic}, Relation.ReflTransGen (Traffic.Call fun _ => True) t w →
      w.incoming = t.incoming := by
    intro t w calls
    induction calls with
    | refl => rfl
    | tail _ call ih =>
      cases call <;> exact ih
  exact kept (h.leads hs).2

/-- Only the attendant takes packets out of the queue. -/
theorem process_incoming (hs : s.pool.Sound) (conduct : Conduct) (now : Nat)
    (p : Packet) : (s.process conduct now p).incoming = s.incoming := by
  have pauses : p.kind = .agentPause → True := fun _ => trivial
  obtain ⟨u, hpool, hcircuit, -, does⟩ := process_does conduct.gives_any pauses now s
  rw [does.incoming (hpool ▸ hs), incoming, hcircuit]
  rfl

theorem incoming_close (reason : CloseReason) (s : Site) :
    (s.close reason).incoming = s.incoming := by
  rw [incoming, close_circuit]
  exact Queue.close_incoming _

theorem incoming_transmit (now : Nat) (linkUp : Bool) (o : Outgoing) (s : Site) :
    (s.transmit now linkUp o).2.incoming = s.incoming := by
  cases linkUp <;> rfl

theorem incoming_withRemaining (i : AttendantId) (joined : Bool) (remaining : List Outgoing)
    (s : Site) : (s.update (·.withRemaining i joined remaining)).incoming = s.incoming := by
  unfold Circuit.withRemaining
  dsimp only
  split <;> rfl

theorem incoming_onVerdict (i : AttendantId) (verdict : Verdict) (s : Site) :
    (s.onVerdict i verdict).incoming = s.incoming := by
  cases verdict with
  | authorized login =>
    unfold onVerdict
    dsimp only
    split <;> rfl
  | _ => exact Queue.close_incoming _

theorem serve_incoming (hs : s.pool.Sound) (conduct : Conduct) (i : AttendantId)
    (now : Nat) (linkUp : Bool) : (s.serve conduct i now linkUp).incoming <:+ s.incoming := by
  rcases serve_cases conduct i now linkUp s with ⟨-, hserve⟩ | ⟨-, ⟨p, rest, hi, hserve⟩ |
    ⟨queue, -, hincoming, ⟨c, o, rest, sent, -, -, rfl, hserve⟩ | ⟨-, hserve⟩⟩⟩
  · rw [hserve]
    exact List.suffix_rfl
  · have popped : (s.popped rest).pool.Sound := hs
    rw [hserve]
    refine (process_incoming popped conduct now p).symm ▸ ?_
    exact ⟨[p], hi.symm⟩
  · have sent := incoming_transmit now linkUp o (s.update fun c => { c with queue })
    have same : (s.serve conduct i now linkUp).incoming = s.incoming := by
      rw [hserve]
      split
      · exact sent.trans hincoming
      · exact (incoming_close _ _).trans (sent.trans hincoming)
    exact same ▸ List.suffix_rfl
  · have same : (s.serve conduct i now linkUp).incoming = s.incoming := by
      rw [hserve]
      exact hincoming
    exact same ▸ List.suffix_rfl

/-- No step but a reception puts a packet behind those that wait. -/
theorem next_incoming {e : Event} (own : e.IsOwn) (hs : s.pool.Sound) (conduct : Conduct) :
    (s.next conduct e).2.incoming <:+ s.incoming := by
  have performed : Performed (fun _ => True) True True conduct s e _ :=
    next_performed conduct.gives_any e.gives_any s
  generalize (s.next conduct e).2 = u at performed ⊢
  have same {u : Site} (h : u.incoming = s.incoming) : u.incoming <:+ s.incoming :=
    h ▸ List.suffix_rfl
  cases performed with
  | start | turnAway | accept => exact own.elim
  | verdict => exact same (incoming_onVerdict _ _ s)
  | serve => exact serve_incoming hs conduct _ _ _
  | @finish i joined =>
    have flushed : (s.beginFlush i joined).incoming = [] := incoming_withRemaining i joined _
      (s.sendOwedAcks.update fun c => { c with queue := s.sendOwedAcks.circuit.queue.flush.2 })
    exact flushed ▸ List.nil_suffix
  | flush => exact same ((incoming_withRemaining _ _ _ _).trans (incoming_transmit _ _ _ s))
  | @leave i joined => cases joined <;> exact List.suffix_rfl
  | ackTick => exact same (incoming_blind.ackTick _ s)
  | silent does => exact same (does.incoming hs)
  | call does => exact same (does.incoming hs)
  | idle | joined | heard | stopAckTimer | stopProbeTimer | settings => exact List.suffix_rfl

theorem length_attendants (hs : s.pool.Sound) (conduct : Conduct) (e : Event) :
    (s.next conduct e).2.circuit.attendants.length =
      s.circuit.attendants.length + if e.isStart then 1 else 0 := by
  cases he : e.isStart with
  | true =>
    cases e <;> first | exact List.length_append | cases he
  | false =>
    obtain ⟨now, led⟩ := move_leads (m := .step conduct e) he s
    have kept : ∀ {t w : Traffic}, Relation.ReflTransGen (Traffic.Step False now) t w →
        w.attendants.length = t.attendants.length := by
      intro t w steps
      induction steps with
      | refl => rfl
      | tail _ step ih => exact step.length_attendants.trans ih
    exact kept (led hs).2

theorem next_own {e : Event} (own : e.IsOwn) (hs : s.pool.Sound) (conduct : Conduct) :
    s.circuit.LeftAlone (s.next conduct e).2.circuit where
  attendants := by
    rw [length_attendants hs, own.isStart]
    rfl
  incoming := next_incoming own hs conduct

end Site

/-- The circuit becomes the other one by these steps, whatever handlers there are for all circuits,
and whatever other circuits do to the pool. -/
inductive Circuit.Lives (start : Circuit) : List Event → Circuit → Prop
  | made : Lives start [] start
  | step {events c} (life : Lives start events c) (e : Event) (conduct : Conduct)
      {pool : PacketPool} (hp : pool.Sound) :
    Lives start (events ++ [e]) (Site.next conduct e ⟨c, pool, []⟩).2.circuit

theorem Circuit.Lives.length_attendants {start c : Circuit} {events : List Event}
    (h : start.Lives events c) :
    c.attendants.length = start.attendants.length + events.countP Event.isStart := by
  induction h with
  | made => rfl
  | step life e conduct hp ih =>
    rw [Site.length_attendants (s := ⟨_, _, []⟩) hp, ih, List.countP_append, Nat.add_assoc]
    simp [List.countP_cons]

end ViewerCircuit
