import ViewerCircuit.Circuit.Receiving

/-!
# The steps of a circuit

Everything that can happen to a circuit, as atomic steps: calls from anywhere in the program, the
steps of its attendants, and the ticks of their timers. Any order of enabled steps is a run; which
one comes next, and when, is decided elsewhere. A step that is not enabled changes nothing.
-/
namespace ViewerCircuit

inductive Event where
  | start
  | authenticated (i : AttendantId) (verdict : Verdict)
  | joined (i : AttendantId)
  | serve (i : AttendantId) (now : Nat) (linkUp : Bool)
  | finish (i : AttendantId)
  | flush (i : AttendantId) (now : Nat) (linkUp : Bool)
  | leave (i : AttendantId)
  | ackTick (i : AttendantId) (now : Nat)
  | probe (i : AttendantId)
  | stopAckTimer (i : AttendantId)
  | stopProbeTimer (i : AttendantId)
  | receive (p : Packet)
  | send (p : Packet) (category : Category)
  | tell (notice : Notice)
  | startPing
  | close (reason : CloseReason)
  | kick (reason : String)
  | shutdown
  | setBlocked (blocked : Bool)
  | applyThrottles (block : Bytes) (now : Nat)
  | setProxy (proxy : Option Address)
  | setStartPosition (position : Vec3)
  | addHandler (kind : MessageKind) (handler : Handler)
  | addDefault (kind : MessageKind) (handler : Handler)
  | subscribe (kind : ViewerEventKind) (subscriber : Handler)

inductive Failure where
  | encode (e : EncodeError)
  | throttle (e : ThrottleError)
  deriving DecidableEq, Repr

namespace Circuit

def AckTimerRuns (c : Circuit) (i : AttendantId) : Prop :=
  c.attendants[i]?.map (·.ackTimer) = some .running

def ProbeTimerRuns (c : Circuit) (i : AttendantId) : Prop :=
  c.attendants[i]?.map (·.probeTimer) = some .running

instance (c : Circuit) (i : AttendantId) : Decidable (c.AckTimerRuns i) :=
  inferInstanceAs (Decidable (_ = _))

instance (c : Circuit) (i : AttendantId) : Decidable (c.ProbeTimerRuns i) :=
  inferInstanceAs (Decidable (_ = _))

/-- Whether an attendant, or one of its timers, can take the step; calls can be made always. -/
def Enabled (c : Circuit) : Event → Prop
  | .authenticated i _ => c.stage? i = some .authenticating
  | .joined i => c.stage? i = some .joining
  | .serve i _ _ => c.stage? i = some .serving
  | .finish i => c.stage? i = some (.finishing true) ∨ c.stage? i = some (.finishing false)
  | .flush i _ _ => match c.stage? i with
    | some (.flushing _ (_ :: _)) => True
    | _ => False
  | .leave i =>
    (c.stage? i = some (.flushing true []) ∨ c.stage? i = some (.flushing false [])) ∧
      c.TimersStopped i
  | .ackTick i _ => c.AckTimerRuns i
  | .probe i => c.ProbeTimerRuns i
  | .stopAckTimer i => c.AckTimerRuns i ∧ c.phase.isEnding
  | .stopProbeTimer i => c.ProbeTimerRuns i ∧ c.phase.isEnding
  | _ => True

instance (c : Circuit) (e : Event) : Decidable (c.Enabled e) := by
  cases e <;> simp only [Enabled] <;> try infer_instance
  split <;> infer_instance

end Circuit

namespace Site

/-- An authorized circuit takes over the login and joins the scene, unless it was closed meanwhile;
any other circuit is closed at once. -/
def onVerdict (i : AttendantId) (verdict : Verdict) (s : Site) : Site :=
  match verdict with
  | .authorized login =>
    let login := login.getD {}
    let s := s.update fun c => { c with login := some login, startPosition := login.startPosition }
    if s.circuit.phase.isEnding then s.update (·.withStage i (.finishing false))
    else
      (s.update (·.withAttendant i fun a =>
        { a with stage := .joining, ackTimer := .running, probeTimer := .running })).emit
          (.sceneAdd i)
  | _ =>
    s.update fun c => { c.withStage i .ended with
      phase := .closed
      closeReason := some (c.closeReason.getD .authenticationFailed)
      queue := c.queue.close }

/-- The circuit is active once the scene has added it, unless it was closed meanwhile. -/
def onJoined (i : AttendantId) (s : Site) : Site :=
  s.update fun c => { c.withStage i .serving with
    phase := if c.phase = .authenticating then .active else c.phase }

/-- Takes the next item from the queue and processes it; a transport that fails closes the
circuit. -/
def serve (conduct : Conduct) (i : AttendantId) (now : Nat) (linkUp : Bool) (s : Site) :
    Site :=
  let (item, queue) := s.circuit.queue.look now
  let s := s.update fun c => { c with queue }
  match item with
  | .incoming p => s.process conduct now p
  | .outgoing p =>
    let (sent, s) := s.transmit now linkUp p
    if sent then s else s.close .transportFault
  | .poison => s.update (·.withStage i (.finishing true))
  | .wait _ => s
  | .idle => s

/-- Queues the owed acks and empties the queue. After a transport fault nothing is left to be
sent. -/
def beginFlush (i : AttendantId) (joined : Bool) (s : Site) : Site :=
  let s := s.sendOwedAcks
  let (remaining, queue) := s.circuit.queue.flush
  let remaining := if s.circuit.closeReason = some .transportFault then [] else remaining
  s.update fun c => { c with queue }.withRemaining i joined remaining

/-- Sends one of the packets that are left; the rest is dropped if that fails. -/
def flushNext (i : AttendantId) (now : Nat) (linkUp joined : Bool) (p : Outgoing)
    (rest : List Outgoing) (s : Site) : Site :=
  let (sent, s) := s.transmit now linkUp p
  s.update (·.withRemaining i joined (if sent then rest else []))

def leave (i : AttendantId) (joined : Bool) (s : Site) : Site :=
  let s := s.update fun c => { c.withStage i .ended with phase := .closed }
  if joined then s.emit .sceneRemove else s

def requeue (r : Retransmission) (s : Site) : Site :=
  let outgoing : Outgoing := {
    bytes := r.bytes
    kind := r.kind
    sequence := r.sequence
    delivery := .resend
    category := .resend }
  (s.update fun c => { c with queue := c.queue.enqueue outgoing }).emit (.requeued outgoing)

/-- Sends the owed acks, queues what was not acked in time once more, and forgets old inbound
numbers. -/
def ackTick (now : Nat) (s : Site) : Site :=
  let s := s.sendOwedAcks
  let (due, inFlight) := s.circuit.ackState.inFlight.retransmit now
  let s := s.update fun c => { c with ackState := { c.ackState with inFlight } }
  let s := due.foldl (fun s r => s.requeue r) s
  s.update fun c => { c with duplicates := (c.duplicates.sweep now).2 }

def probeLimit (c : Circuit) : UInt32 :=
  if c.blocked then c.config.maxProbeFailuresBlocked else c.config.maxProbeFailures

/-- Looks whether the viewer was heard since the last probe. A silent viewer is pinged, or given up
when it was silent too often. -/
def probe (s : Site) : Site :=
  if s.circuit.heard then s.update fun c => { c with heard := false, probeFailures := 0 }
  else
    let s := s.update fun c => { c with probeFailures := c.probeFailures + 1 }
    if probeLimit s.circuit < s.circuit.probeFailures then s.close .timedOut else s.startPing

def shutdown (s : Site) : Site :=
  let s := if s.circuit.phase.isEnding then s else s.inform .disableSimulator
  s.close .circuitShutdown

def perform (conduct : Conduct) (e : Event) (s : Site) : Option Failure × Site :=
  match e with
  | .start => (none, s.update fun c => { c with attendants := c.attendants ++ [{}] })
  | .authenticated i verdict => (none, s.onVerdict i verdict)
  | .joined i => (none, s.onJoined i)
  | .serve i now linkUp => (none, s.serve conduct i now linkUp)
  | .finish i =>
    match s.circuit.stage? i with
    | some (.finishing joined) => (none, s.beginFlush i joined)
    | _ => (none, s)
  | .flush i now linkUp =>
    match s.circuit.stage? i with
    | some (.flushing joined (p :: rest)) => (none, s.flushNext i now linkUp joined p rest)
    | _ => (none, s)
  | .leave i =>
    match s.circuit.stage? i with
    | some (.flushing joined []) => (none, s.leave i joined)
    | _ => (none, s)
  | .ackTick _ now => (none, s.ackTick now)
  | .probe _ => (none, s.probe)
  | .stopAckTimer i =>
    (none, s.update (·.withAttendant i ({ · with ackTimer := .stopped })))
  | .stopProbeTimer i =>
    (none, s.update (·.withAttendant i ({ · with probeTimer := .stopped })))
  | .receive p => (none, s.receive p)
  | .send p category => let (e, s) := s.send p category; (e.map .encode, s)
  | .tell notice => let (e, s) := s.tell notice; (e.map .encode, s)
  | .startPing => (none, s.startPing)
  | .close reason => (none, s.close reason)
  | .kick reason => let (e, s) := s.kick reason; (e.map .encode, s)
  | .shutdown => (none, s.shutdown)
  | .setBlocked blocked => (none, s.setBlocked blocked)
  | .applyThrottles block now => let (e, s) := s.applyThrottles block now; (e.map .throttle, s)
  | .setProxy proxy => (none, s.setProxy proxy)
  | .setStartPosition position => (none, s.setStartPosition position)
  | .addHandler kind handler => (none, s.addHandler kind handler)
  | .addDefault kind handler =>
    (none, s.update fun c => { c with defaults := (c.defaults.register kind (.added handler)).2 })
  | .subscribe kind subscriber => (none, s.subscribe kind subscriber)

/-- The step `e`; it changes nothing where it is not enabled. -/
def next (conduct : Conduct) (e : Event) (s : Site) : Option Failure × Site :=
  if s.circuit.Enabled e then s.perform conduct e else (none, s)

end Site
end ViewerCircuit
