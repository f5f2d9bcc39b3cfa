import ViewerCircuit.Simulation.Basic

/-!
# Running in simulated time

At each instant the attendants of every circuit do what they can. Then time moves on to the next
alarm: an answer of a stand-in, a tick of a timer, or the moment when a budget suffices for a
packet.
-/
namespace ViewerCircuit.Simulation

def hearVerdict (id : CircuitId) (i : AttendantId) (s : Simulation) : Simulation :=
  match s.circuit? id with
  | some c =>
    if c.stage? i = some .authenticating ∧ (s.alarmsOf id i).verdictAt ≤ s.now then
      s.take id (.authenticated i (s.surroundings.authenticator.verdict c.viewer))
    else s
  | none => s

def greeting : Event :=
  .tell (.movementComplete ⟨.one, .zero, .zero⟩ 1 0 "test")

def hearScene (id : CircuitId) (i : AttendantId) (s : Simulation) : Simulation :=
  match s.circuit? id with
  | some c =>
    if c.stage? i = some .joining ∧ (s.alarmsOf id i).joinedAt ≤ s.now then
      let s := s.note c.viewer.agentId (.sceneAdd c.phase)
      let s := if s.surroundings.sceneGreets then s.take id greeting else s
      s.take id (.joined i)
    else s
  | none => s

def stopTimers (id : CircuitId) (i : AttendantId) (s : Simulation) : Simulation :=
  (s.take id (.stopAckTimer i)).take id (.stopProbeTimer i)

def tick (id : CircuitId) (i : AttendantId) (s : Simulation) : Simulation :=
  match s.circuit? id with
  | some c =>
    let s :=
      if c.AckTimerRuns i ∧ (s.alarmsOf id i).ackAt ≤ s.now then
        (s.take id (.ackTick i s.now)).setAlarms id i fun a =>
          { a with ackAt := a.ackAt + c.config.ackInterval }
      else s
    if c.ProbeTimerRuns i ∧ (s.alarmsOf id i).probeAt ≤ s.now then
      (s.take id (.probe i)).setAlarms id i fun a =>
        { a with probeAt := a.probeAt + c.config.pingInterval }
    else s
  | none => s

def serve (id : CircuitId) (i : AttendantId) : (looks : Nat) → Simulation → Simulation
  | 0, s => s
  | looks + 1, s =>
    match s.circuit? id with
    | some c =>
      if c.stage? i = some .serving then
        let fallAsleep (wakeAt : Option Nat) (s : Simulation) :=
          s.setSleepers id (· ++ [⟨i, wakeAt⟩])
        let found := (c.queue.look s.now).1
        let s := s.take id (.serve i s.now s.linkUp)
        match found with
        | .wait w => fallAsleep (some (Time.ceilMillisecond (s.now + w))) s
        | .idle => fallAsleep none s
        | _ => serve id i looks s
      else s
    | none => s

/-- An attendant that is awake serves the queue. The looks suffice to empty it: inbound packets may
be answered, outbound ones are not. -/
def serveAwake (id : CircuitId) (i : AttendantId) (s : Simulation) : Simulation :=
  let size (s : Simulation) := (s.circuit? id).elim 0 (·.queue.length)
  let inbound := (s.circuit? id).elim 0 (·.queue.incoming.length)
  if (s.sleepersOf id).any (·.attendant = i) then s
  else
    let s := serve id i inbound s
    if (s.sleepersOf id).any (·.attendant = i) then s else serve id i (size s + 1) s

def rouse (id : CircuitId) (s : Simulation) : Simulation :=
  s.setSleepers id (·.filter fun sleeper => !sleeper.wakeAt.any (· ≤ s.now))

def flushAll (id : CircuitId) (i : AttendantId) : (packets : Nat) → Simulation → Simulation
  | 0, s => s
  | packets + 1, s => flushAll id i packets (s.take id (.flush i s.now s.linkUp))

def wrapUp (id : CircuitId) (i : AttendantId) (s : Simulation) : Simulation :=
  let s := s.take id (.finish i)
  let left := match (s.circuit? id).bind (·.stage? i) with
    | some (.flushing _ remaining) => remaining.length
    | _ => 0
  flushAll id i left s

/-- Everything that one circuit can do at this instant. An attendant may wake another one that had
its turn before; that one then finds nothing but a closed queue, so that two turns suffice. -/
def settleCircuit (id : CircuitId) (s : Simulation) : Simulation :=
  let each (f : AttendantId → Simulation → Simulation) (s : Simulation) :=
    (List.range (s.attendantCount id)).foldl (fun s i => f i s) s
  let s := each (fun i s => (s.hearVerdict id i).hearScene id i) s
  let s := each (stopTimers id) s
  let s := (each (tick id) s).rouse id
  let s := each (serveAwake id) (each (serveAwake id) s)
  let s := each (stopTimers id) (each (wrapUp id) s)
  let s := each (fun i s => s.take id (.leave i)) s
  { s with endpoint := s.endpoint.removeClosed id }

def settle (s : Simulation) : Simulation :=
  s.endpoint.circuits.keys.foldl (fun s id => s.settleCircuit id) s

def awaited (a : Attendant) (alarms : Alarms) : List Nat :=
  (if a.stage = .authenticating then [alarms.verdictAt] else []) ++
  (if a.stage = .joining then [alarms.joinedAt] else []) ++
  (if a.ackTimer = .running then [alarms.ackAt] else []) ++
  (if a.probeTimer = .running then [alarms.probeAt] else [])

def alarmTimes (s : Simulation) (id : CircuitId) (c : Circuit) : List Nat :=
  (c.attendants.zipIdx.flatMap fun (a, i) => awaited a (s.alarmsOf id i)) ++
    (s.sleepersOf id).filterMap (·.wakeAt)

def nextAlarm? (s : Simulation) : Option Nat :=
  (s.endpoint.circuits.flatMap fun (id, c) => s.alarmTimes id c).min?

def advanceBy : (jumps : Nat) → (target : Nat) → Simulation → Simulation
  | 0, target, s => settle { s with now := target }
  | jumps + 1, target, s =>
    match s.nextAlarm? with
    | some t =>
      if t ≤ target then advanceBy jumps target (settle { s with now := max s.now t })
      else { s with now := target }
    | none => { s with now := target }

/-- Lets time pass until `target`. Alarms are on whole milliseconds, so they are no more than the
milliseconds that pass. -/
def advanceTo (target : Nat) (s : Simulation) : Simulation :=
  advanceBy (Time.toMilliseconds (target - s.now) + 1) target s

def advance (duration : Nat) (s : Simulation) : Simulation := s.advanceTo (s.now + duration)

def endsAt (s : Simulation) (id : CircuitId) : Nat :=
  let i := s.attendantCount id - 1
  match (s.circuit? id).bind (·.stage? i) with
  | some .authenticating => (s.alarmsOf id i).verdictAt
  | some .joining => (s.alarmsOf id i).joinedAt
  | _ => s.now

def shutdown (id : CircuitId) (s : Simulation) : Simulation :=
  let s := (s.take id .shutdown).settle
  s.advanceTo (s.endsAt id)

def shutdownAll (s : Simulation) : Simulation :=
  let (ids, endpoint) := s.endpoint.drain
  ids.foldl (fun s id => s.shutdown id) { s with endpoint }

def arrive (source : Address) (raw : Bytes) (s : Simulation) : Arrival × Simulation :=
  let (arrival, endpoint) := s.endpoint.arrive source raw s.now
  let after := { s with endpoint }
  (arrival, match arrival with
    | .opened id => after.askAuthenticator id 0
    | .delivered id => after.wake id (s.callsTo id)
    | _ => after)

end ViewerCircuit.Simulation
