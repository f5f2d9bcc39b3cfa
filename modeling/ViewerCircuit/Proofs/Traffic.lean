import ViewerCircuit.Circuit.Step

/-!
# Traffic

The part of a circuit that its packets go through, and the steps that change it. Calls, handlers
and timers all do their work in these steps. A circuit step takes several of them, and each stands
for itself: what holds across each of them holds across everything that a circuit does.
-/
namespace ViewerCircuit

def Effect.isNote : Effect → Bool
  | concluded _ _ => true
  | handlerCalled _ _ _ => true
  | eventPublished _ _ => true
  | sceneAdd _ => true
  | sceneRemove => true
  | recycled _ => true
  | unwritable _ _ => true
  | _ => false

def Effect.isTransmission : Effect → Bool
  | transmitted _ _ _ _ => true
  | _ => false

def Datagram.IsBare (raw : Bytes) : Prop :=
  ∃ flags rest, raw = flags :: rest ∧ rest ≠ [] ∧ (Flags.ofByte flags).appendedAcks = false

namespace Outgoing

def standaloneAcks (o : Outgoing) : List UInt32 :=
  if o.kind = .packetAck then
    match Packet.decode o.bytes with
    | .ok { message := .packetAck m, .. } => m.ids
    | _ => []
  else []

def IsPlain (o : Outgoing) : Prop := Datagram.IsBare o.bytes ∧ o.kind ≠ .packetAck

end Outgoing

/-- The packet acks nothing itself. -/
def Packet.IsPlain (p : Packet) : Prop := p.kind ≠ .packetAck ∧ p.acks = []

structure Traffic where
  phase : Phase
  closeReason : Option CloseReason
  authorized : Bool
  attendants : List Attendant
  closed : Bool
  incoming : List Packet
  outgoing : PerCategory (List Outgoing)
  duplicates : Duplicates
  ackState : AckState
  packetsIn : Nat
  duplicatesDropped : Nat
  history : List Effect

namespace Traffic

def stage? (t : Traffic) (i : AttendantId) : Option Stage := t.attendants[i]?.map (·.stage)

def log (e : Effect) (t : Traffic) : Traffic := { t with history := t.history ++ [e] }

def push (o : Outgoing) (t : Traffic) : Traffic :=
  { t with outgoing := t.outgoing.set o.category (t.outgoing.get o.category ++ [o]) }

def attend (i : AttendantId) (f : Attendant → Attendant) (t : Traffic) : Traffic :=
  { t with attendants := t.attendants.modify i f }

def started (t : Traffic) : Traffic := { t with attendants := t.attendants ++ [{}] }

def withRemaining (i : AttendantId) (joined : Bool) (remaining : List Outgoing) (t : Traffic) :
    Traffic :=
  let attendants := t.attendants.modify i ({ · with stage := .flushing joined remaining })
  { t with attendants :=
      if remaining.isEmpty then attendants.map (·.claimedBy i) else attendants }

def transmit (now room : Nat) (destination : Address) (linkUp : Bool) (o : Outgoing)
    (t : Traffic) : Traffic :=
  let departed := t.ackState.depart now room o
  { t with
    ackState := departed.2
    history := t.history ++ [.transmitted destination departed.1 o linkUp] }

def acknowledge (now : Nat) (p : Packet) (t : Traffic) : Traffic :=
  let arrived := t.ackState.arrive p
  { t with
    ackState := arrived.2
    packetsIn := t.packetsIn + 1
    history := t.history ++ .processed p now :: if arrived.1 then [.owes p.sequence] else [] }

def decide (now : Nat) (p : Packet) (t : Traffic) : Traffic :=
  let seen := t.duplicates.seen p.sequence p.kind now
  { t with
    duplicates := seen.2
    duplicatesDropped := t.duplicatesDropped + if seen.1 then 1 else 0
    history := t.history ++ [if seen.1 then .dropped p now else .dispatched p now] }

/-- What a call or a handler does. The packets that callers hand over are `given`; the circuit's own
ones are plain. -/
inductive Call (given : Packet → Prop) : Traffic → Traffic → Prop
  | note {t e} (he : e.isNote) : Call given t (t.log e)
  | queue {t p sequence numbered bytes category} (hp : t.phase ≠ .closed)
      (hg : p.IsPlain ∨ given p) (hn : { p with sequence } = numbered)
      (he : numbered.encode = .ok bytes) :
    Call given t ((t.push (.ofPacket numbered bytes category)).log
      (.queued (.ofPacket numbered bytes category)))
  | turnAway {t p} (hp : t.phase = .closed) : Call given t (t.log (.turnedAway p))
  | close {t reason} :
    Call given t ({ t with
      phase := if t.phase.isEnding then t.phase else .closing
      closeReason := if t.phase.isEnding then t.closeReason else some reason
      closed := true }.log (.closeCalled reason))

/-- One step at the time `now`. If `plain` holds, callers leave it to the circuit to send acks. -/
inductive Step (plain : Prop) (now : Nat) : Traffic → Traffic → Prop
  | note {t e} (he : e.isNote) : Step plain now t (t.log e)
  | queue {t o} (hp : t.phase ≠ .closed) (hd : o.delivery ≠ .resend) (ho : plain → o.IsPlain) :
    Step plain now t ((t.push o).log (.queued o))
  | turnAway {t p} (hp : t.phase = .closed) : Step plain now t (t.log (.turnedAway p))
  | queueAcks {t o} (hp : t.phase ≠ .closed) (hd : o.delivery = .unreliable)
      (hk : o.kind = .packetAck) (hb : Datagram.IsBare o.bytes)
      (ho : o.standaloneAcks = (t.ackState.owed.take Site.acksPerPacket).1) :
    Step plain now t (({ t with ackState.owed := (t.ackState.owed.take Site.acksPerPacket).2 }.push
      o).log (.queued o))
  | loseAcks {t a} (hp : t.phase = .closed) (ha : a ∈ t.attendants)
      (hr : a.ackTimer = .running ∨ ∃ joined, a.stage = .finishing joined) :
    Step plain now t { t with ackState.owed := (t.ackState.owed.take Site.acksPerPacket).2 }
  | refresh {t} :
    Step plain now t { t with ackState.inFlight := (t.ackState.inFlight.retransmit now).2 }
  | requeue {t o} (hd : o.delivery = .resend)
      (hk : ∃ e ∈ t.ackState.inFlight.kept,
        e.1 = o.sequence ∧ e.2.bytes = o.bytes ∧ e.2.kind = o.kind) :
    Step plain now t ((t.push o).log (.requeued o))
  | sweep {t} : Step plain now t { t with duplicates := (t.duplicates.sweep now).2 }
  | receive {t p} (hp : t.phase.isEnding = false) :
    Step plain now t ({ t with incoming := t.incoming ++ [p] }.log (.accepted p))
  | process {t i p rest} (hs : t.stage? i = some .serving) (hc : t.closed = false)
      (hi : t.incoming = p :: rest) :
    Step plain now t ((({ t with incoming := rest }).acknowledge now p).decide now p)
  | release {t i c o rest room destination linkUp} (hs : t.stage? i = some .serving)
      (hc : t.closed = false) (ho : t.outgoing.get c = o :: rest) :
    Step plain now t
      ({ t with outgoing := t.outgoing.set c rest }.transmit now room destination linkUp o)
  | flush {t i joined o rest room destination linkUp}
      (hs : t.stage? i = some (.flushing joined (o :: rest))) :
    Step plain now t ((t.transmit now room destination linkUp o).withRemaining i joined
      (if linkUp then rest else []))
  | close {t reason} :
    Step plain now t ({ t with
      phase := if t.phase.isEnding then t.phase else .closing
      closeReason := if t.phase.isEnding then t.closeReason else some reason
      closed := true }.log (.closeCalled reason))
  | authorize {t i} (hs : t.stage? i = some .authenticating) (hp : t.phase.isEnding = false) :
    Step plain now t ({ t with authorized := true }.attend i fun a =>
      { a with stage := .joining, ackTimer := .running, probeTimer := .running })
  | authorizeLate {t i} (hs : t.stage? i = some .authenticating) (hp : t.phase.isEnding = true) :
    Step plain now t ({ t with authorized := true }.attend i
      ({ · with stage := .finishing false }))
  | refuse {t i} (hs : t.stage? i = some .authenticating) :
    Step plain now t ({ t with
      phase := .closed
      closeReason := some (t.closeReason.getD .authenticationFailed)
      closed := true }.attend i ({ · with stage := .ended }))
  | join {t i} (hs : t.stage? i = some .joining) :
    Step plain now t ({ t with
      phase := if t.phase = Phase.authenticating then .active else t.phase }.attend i
        ({ · with stage := .serving }))
  | poison {t i} (hs : t.stage? i = some .serving) (hc : t.closed = true) :
    Step plain now t (t.attend i ({ · with stage := .finishing true }))
  | collect {t i joined} (hs : t.stage? i = some (.finishing joined))
      (hw : t.ackState.owed.waiting = []) :
    Step plain now t ({ t with incoming := [], outgoing := .all [] }.withRemaining i joined
      (if t.closeReason = some CloseReason.transportFault then [] else t.outgoing.toList.flatten))
  | leave {t i joined} (hs : t.stage? i = some (.flushing joined []))
      (hq : ∀ a ∈ t.attendants, a.awaitedBy = some i → a.isQuiet) :
    Step plain now t ({ t with phase := .closed }.attend i ({ · with stage := .ended }))
  | stopAckTimer {t i a} (ha : t.attendants[i]? = some a) (hr : a.ackTimer = .running) :
    Step plain now t (t.attend i ({ · with ackTimer := .stopped }))
  | stopProbeTimer {t i} : Step plain now t (t.attend i ({ · with probeTimer := .stopped }))

theorem history_process (now : Nat) (p : Packet) (t : Traffic) :
    ((t.acknowledge now p).decide now p).history =
      t.history ++ (.processed p now ::
        (if (t.ackState.arrive p).1 then [.owes p.sequence] else []) ++
        [if (t.duplicates.seen p.sequence p.kind now).1 then .dropped p now
          else .dispatched p now]) :=
  List.append_assoc _ _ _

theorem Step.history_isPrefix {plain : Prop} {now : Nat} {t u : Traffic}
    (h : Step plain now t u) : t.history <+: u.history := by
  cases h with
  | process =>
    rw [history_process]
    exact List.prefix_append _ _
  | _ => first
    | exact List.prefix_rfl
    | exact List.prefix_append _ _

/-- What is reached from `start` with so many new attendants, at the time `clock`. If `timed` holds,
the clock never goes back. -/
inductive Reachable (plain timed : Prop) (start : Traffic) : (starts clock : Nat) → Traffic → Prop
  | refl : Reachable plain timed start 0 0 start
  | started {starts clock t} (h : Reachable plain timed start starts clock t) :
    Reachable plain timed start (starts + 1) clock t.started
  | wait {starts clock now t} (h : Reachable plain timed start starts clock t)
      (hn : timed → clock ≤ now) : Reachable plain timed start starts now t
  | step {starts clock t u} (h : Reachable plain timed start starts clock t)
      (hs : Step plain clock t u) : Reachable plain timed start starts clock u

end Traffic

def Site.traffic (s : Site) : Traffic where
  phase := s.circuit.phase
  closeReason := s.circuit.closeReason
  authorized := s.circuit.login.isSome
  attendants := s.circuit.attendants
  closed := s.circuit.queue.closed
  incoming := s.circuit.queue.incoming
  outgoing := s.circuit.queue.outgoing
  duplicates := s.circuit.duplicates
  ackState := s.circuit.ackState
  packetsIn := s.circuit.counters.packetsIn
  duplicatesDropped := s.circuit.counters.duplicatesDropped
  history := s.effects.reverse

end ViewerCircuit
