import ViewerCircuit.Circuit.Sending
import ViewerCircuit.Circuit.Settings

/-!
# Receiving

An inbound packet settles acks and is acked itself before anything else; only then is it dropped
as a duplicate or dispatched. The handlers for its kind are tried in turn: those of the circuit,
those of all circuits, and the default ones, most of them built in. A handler that fails ends the
dispatch, and the viewer hears of the first failure.
-/
namespace ViewerCircuit.Site

def act (now : Nat) (action : HandlerAction) (s : Site) : Option EncodeError × Site :=
  match action with
  | .send p category => s.send p category
  | .tell notice => s.tell notice
  | .startPing => (none, s.startPing)
  | .close reason => (none, s.close reason)
  | .kick reason => s.kick reason
  | .setBlocked blocked => (none, s.setBlocked blocked)
  | .applyThrottles block => (none, (s.applyThrottles block now).2)
  | .setProxy proxy => (none, s.setProxy proxy)
  | .setStartPosition position => (none, s.setStartPosition position)
  | .addHandler kind handler => (none, s.addHandler kind handler)
  | .subscribe kind subscriber => (none, s.subscribe kind subscriber)

/-- Does what a handler wants, one call after the other. A packet that cannot be written
crashes it. -/
def run (now : Nat) (outcome : Outcome) : List HandlerAction → Site → Outcome × Site
  | [], s => (outcome, s)
  | action :: rest, s =>
    match s.act now action with
    | (none, s) => run now outcome rest s
    | (some _, s) => (.crashed, s)

def call (conduct : Conduct) (now : Nat) (occasion : Occasion) (handler : Handler) (s : Site) :
    Outcome × Site :=
  let reaction := conduct.respond handler occasion
  s.run now reaction.outcome reaction.actions

/-- Calls the subscribers one after the other until one fails. -/
def publishTo (conduct : Conduct) (now : Nat) (event : ViewerEvent) :
    List Handler → Site → Outcome × Site
  | [], s => (.handled, s)
  | subscriber :: rest, s =>
    let (outcome, s) :=
      (s.emit (.eventPublished subscriber.tag event)).call conduct now (.event event) subscriber
    if outcome.isFailure then (outcome, s) else publishTo conduct now event rest s

def subscribersFor (kind : ViewerEventKind) (c : Circuit) : List Handler :=
  (c.subscribers.filter (·.1 = kind)).map (·.2)

def publish (conduct : Conduct) (now : Nat) (message : Message) (s : Site) : Outcome × Site :=
  match ViewerEvent.ofMessage? s.circuit.viewer.agentId message with
  | some event => publishTo conduct now event (subscribersFor event.kind s.circuit) s
  | none => (.declined, s)

def runBuiltIn (conduct : Conduct) (now : Nat) (handler : BuiltIn) (p : Packet) (s : Site) :
    Outcome × Site :=
  match handler with
  | .consume => (.handled, s)
  | .answerPing =>
    match p.message with
    | .startPingCheck m => (.handled, s.inform (.completePing m.pingId))
    | _ => (.handled, s)
  | .applyThrottle =>
    match p.message with
    | .agentThrottle m =>
      let (failure, s) := s.applyThrottles m.throttles now
      (if failure.isSome then .failed else .handled, s)
    | _ => (.handled, s)
  | .pause => (.handled, s.setBlocked (p.kind = .agentPause))
  | .logout => (.handled, (s.inform .logoutReply).close .logout)
  | .closeCircuit => (.handled, s.close .circuitClosed)
  | .publish => s.publish conduct now p.message

def tryHandler (conduct : Conduct) (now : Nat) (handler : Option Handler) (p : Packet) (s : Site) :
    Outcome × Site :=
  match handler with
  | some h => (s.emit (.handlerCalled h.tag p.kind p.sequence)).call conduct now (.packet p) h
  | none => (.declined, s)

def runDefault (conduct : Conduct) (now : Nat) (handler : DefaultHandler) (p : Packet) (s : Site) :
    Outcome × Site :=
  match handler with
  | .builtIn h => s.runBuiltIn conduct now h p
  | .added h => s.tryHandler conduct now (some h) p

/-- Continues with the next registry if a packet was declined. -/
def orElse (result : Outcome × Site) (next : Site → Outcome × Site) : Outcome × Site :=
  if result.1 = .declined then next result.2 else result

def dispatch (conduct : Conduct) (now : Nat) (p : Packet) (s : Site) : Outcome × Site :=
  orElse (s.tryHandler conduct now (s.circuit.handlers.get? p.kind) p) fun s =>
    orElse (s.tryHandler conduct now (conduct.globals.get? p.kind) p) fun s =>
      match s.circuit.defaults.get? p.kind with
      | some h => s.runDefault conduct now h p
      | none => (.declined, s)

def crashMessage : String := "Your session has crashed; further actions will not be processed."

def reportCrash (s : Site) : Site :=
  if s.circuit.crashAlerted then s
  else (s.update fun c => { c with crashAlerted := true }).inform (.alert crashMessage)

/-- What every processed packet does, duplicate or not: it is a sign of life, it acks, and it is
owed an ack if it is reliable. -/
def acknowledge (p : Packet) (s : Site) : Site :=
  let (owes, ackState) := s.circuit.ackState.arrive p
  let s := s.update fun c => { c with
    counters := { c.counters with packetsIn := c.counters.packetsIn + 1 }
    heard := true
    probeFailures := 0
    blocked := false
    ackState }
  if owes then s.emit (.owes p.sequence) else s

def settle (conduct : Conduct) (now : Nat) (p : Packet) (s : Site) : Site :=
  let (duplicate, duplicates) := s.circuit.duplicates.seen p.sequence p.kind now
  if duplicate then
    ((s.update fun c => { c with counters := { c.counters with
      duplicatesDropped := c.counters.duplicatesDropped + 1 } }).emit (.dropped p now)).recycle p
  else
    let s := (s.update fun c => { c with duplicates }).emit (.dispatched p now)
    let (outcome, s) := s.dispatch conduct now p
    let s := s.emit (.concluded p outcome)
    (if outcome.isFailure then s.reportCrash else s).recycle p

def ackStep (now : Nat) (p : Packet) (s : Site) : Site :=
  (s.emit (.processed p now)).acknowledge p

def process (conduct : Conduct) (now : Nat) (p : Packet) (s : Site) : Site :=
  (s.ackStep now p).settle conduct now p

def receive (p : Packet) (s : Site) : Site :=
  if s.circuit.phase.isEnding then s.recycle p
  else (s.update fun c => { c with queue := c.queue.deliver p }).emit (.accepted p)

end ViewerCircuit.Site
