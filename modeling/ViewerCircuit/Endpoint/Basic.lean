import ViewerCircuit.Circuit.Step
import ViewerCircuit.Endpoint.MalformedLog

/-!
# The endpoint

One endpoint serves many viewers: a datagram belongs to the circuit that is registered for its
source. A viewer without a circuit gets one by asking to use it. A circuit stays registered until it
is closed and this has been noticed, or until the endpoint is shut down.
-/
namespace ViewerCircuit

abbrev CircuitId := Nat

structure Endpoint where
  config : Config
  pool : PacketPool
  conduct : Conduct := {}
  circuits : Table CircuitId Circuit := []
  registered : Table Address CircuitId := []
  nextId : CircuitId := 0
  malformed : MalformedLog

inductive Arrival where
  | malformed (error : DecodeError) (loud : Bool)
  | delivered (id : CircuitId)
  | opened (id : CircuitId)
  | dropped
  deriving DecidableEq, Repr

namespace Endpoint

def ofConfig (config : Config) : Endpoint where
  config
  pool := { enabled := config.packetPooling, maxPerKind := config.packetPoolSize }
  malformed := { interval := config.malformedLogInterval }

def circuitAt? (e : Endpoint) (a : Address) : Option CircuitId := e.registered.get? a

def circuitOfAgent? (e : Endpoint) (agentId : Uuid) : Option Circuit :=
  e.registered.findSome? fun (_, id) =>
    (e.circuits.get? id).filter (·.viewer.agentId = agentId)

def step (e : Endpoint) (id : CircuitId) (event : Event) :
    Option Failure × List Effect × Endpoint :=
  match e.circuits.get? id with
  | some circuit =>
    let (failure, site) := Site.next e.conduct event { circuit, pool := e.pool }
    (failure, site.effects.reverse,
      { e with pool := site.pool, circuits := e.circuits.put id site.circuit })
  | none => (none, [], e)

/-- Makes a circuit without registering it. -/
def add (e : Endpoint) (viewer : Viewer) (remote : Address) (now : Nat) :
    CircuitId × Endpoint :=
  (e.nextId, { e with
    circuits := e.circuits.put e.nextId (.new e.config viewer remote now)
    nextId := e.nextId + 1 })

def openCircuit (e : Endpoint) (viewer : Viewer) (remote : Address) (now : Nat) :
    CircuitId × Endpoint :=
  let (id, e) := e.add viewer remote now
  let e := { e with registered := e.registered.put remote id }
  (id, (e.step id .start).2.2)

def arrive (e : Endpoint) (source : Address) (raw : Bytes) (now : Nat) : Arrival × Endpoint :=
  match Packet.decode raw with
  | .error error =>
    let (loud, malformed) := e.malformed.note source now
    (.malformed error loud, { e with malformed })
  | .ok p =>
    match e.circuitAt? source with
    | some id => (.delivered id, (e.step id (.receive p)).2.2)
    | none =>
      match p.message with
      | .useCircuitCode m =>
        let (id, e) := e.openCircuit ⟨m.agentId, m.sessionId, m.code⟩ source now
        (.opened id, (e.step id (.receive p)).2.2)
      | _ => (.dropped, { e with pool := e.pool.takeBack p })

/-- Unregisters a circuit that is closed, if its address still belongs to it. -/
def removeClosed (e : Endpoint) (id : CircuitId) : Endpoint :=
  match e.circuits.get? id with
  | some circuit =>
    if circuit.phase = .closed ∧ e.circuitAt? circuit.remote = some id then
      { e with registered := e.registered.erase circuit.remote }
    else e
  | none => e

/-- Unregisters all circuits and returns them; they are to be shut down one after the other. -/
def drain (e : Endpoint) : List CircuitId × Endpoint :=
  (e.registered.map (·.2), { e with registered := [] })

def malformedText (source : Address) (error : DecodeError) : String :=
  s!"received malformed datagram from {source.toString}: {error.message} - dropping"

end Endpoint
end ViewerCircuit
