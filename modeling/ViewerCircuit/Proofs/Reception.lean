import ViewerCircuit.Endpoint.Basic
import ViewerCircuit.Proofs.CourseRun
import ViewerCircuit.Proofs.OwnSteps
import ViewerCircuit.Proofs.SequenceNumbers

/-!
# Calls that bring datagrams

A datagram is brought by a call, which looks up its source, makes a circuit if there is none, starts
it, and hands the packet over. Between any two of these anything else may happen: other calls, steps
of circuits, the end of a circuit and, much later, its removal, or the shutdown of the endpoint.
-/
namespace ViewerCircuit

def UseCircuitCode.viewer (m : UseCircuitCode) : Viewer := ⟨m.agentId, m.sessionId, m.code⟩

/-- How far a call has come: its source has no circuit and asks for one, the circuit was made and is
to be started, or the packet is to be handed to the circuit. -/
inductive Handling where
  | opening (request : UseCircuitCode)
  | starting (id : CircuitId)
  | handing (id : CircuitId)
  | handed (id : CircuitId)
  deriving DecidableEq, Repr

namespace Handling

def circuit? : Handling → Option CircuitId
  | opening _ => none
  | starting id | handing id | handed id => some id

/-- How often the call goes on until it is done, at most. -/
def togo : Handling → Nat
  | opening _ => 3
  | starting _ => 2
  | handing _ => 1
  | handed _ => 0

theorem exists_handed {h : Handling} (done : h.togo = 0) : ∃ id, h = handed id := by
  cases h with
  | handed id => exact ⟨id, rfl⟩
  | _ => cases done

theorem eq_handed {h : Handling} {id : CircuitId} (bound : h.circuit? = some id)
    (done : h.togo = 0) : h = handed id := by
  obtain ⟨k, rfl⟩ := exists_handed done
  cases bound
  rfl

end Handling

structure Intake where
  source : Address
  packet : Packet
  handling : Handling
  opened : Option CircuitId := none

/-- An endpoint and the calls that bring datagrams to it, with the circuits that will be removed
since they were seen closed, and the steps of all circuits in their order. -/
structure Reception where
  endpoint : Endpoint
  calls : List Intake := []
  seenClosed : List CircuitId := []
  steps : List (CircuitId × Event) := []

/-- A datagram arrives and its source is looked up, a call goes on, or a circuit takes a step
that somebody who has it asked for. Who waits for a circuit to be closed looks at it, and
removes it later. An endpoint that is shut down forgets its circuits; their shutdowns are steps
of their own. -/
inductive Happening where
  | arrive (source : Address) (raw : Bytes) (now : Nat)
  | proceed (call : Nat) (now : Nat)
  | step (id : CircuitId) (e : Event) (own : e.IsOwn)
  | look (id : CircuitId)
  | remove (id : CircuitId)
  | drain
  | setConduct (conduct : Conduct)

namespace Happening

def goesOn (call : Nat) : Happening → Bool
  | proceed i _ => i = call
  | _ => false

end Happening

namespace Endpoint

def unregister (id : CircuitId) (e : Endpoint) : Endpoint :=
  match e.circuits.get? id with
  | some c =>
    if e.circuitAt? c.remote = some id then { e with registered := e.registered.erase c.remote }
    else e
  | none => e

theorem removeClosed_eq_unregister {e : Endpoint} {id : CircuitId} {c : Circuit}
    (hc : e.circuits.get? id = some c) (hp : c.phase = .closed) :
    e.removeClosed id = e.unregister id := by
  simp [removeClosed, unregister, hc, hp]

theorem unregister_eq (e : Endpoint) (id : CircuitId) :
    ∃ registered, e.unregister id = { e with registered } ∧
      ∀ entry ∈ registered, entry ∈ e.registered := by
  unfold unregister
  split
  · split
    · exact ⟨_, rfl, fun _ h => (List.mem_filter.1 h).1⟩
    · exact ⟨_, rfl, fun _ h => h⟩
  · exact ⟨_, rfl, fun _ h => h⟩

/-- At most the entry of that very circuit is gone. -/
theorem circuitAt?_unregister (e : Endpoint) (id : CircuitId) (a : Address) :
    (e.unregister id).circuitAt? a = e.circuitAt? a ∨
      (e.unregister id).circuitAt? a = none ∧ e.circuitAt? a = some id := by
  unfold unregister
  split
  · next c hc =>
    split
    · next entry =>
      by_cases ha : a = c.remote
      · subst ha
        exact .inr ⟨Table.get?_erase_self _ _, entry⟩
      · exact .inl (Table.get?_erase_of_ne ha _)
    · exact .inl rfl
  · exact .inl rfl

theorem circuitAt?_unregister_self {e : Endpoint} {id : CircuitId} {c : Circuit}
    (hc : e.circuits.get? id = some c) (entry : e.circuitAt? c.remote = some id) :
    (e.unregister id).circuitAt? c.remote = none := by
  simp only [unregister, hc, entry, if_true]
  exact Table.get?_erase_self _ _

end Endpoint

namespace Reception

def ofConfig (config : Config) : Reception where
  endpoint := .ofConfig config

def circuit? (r : Reception) (id : CircuitId) : Option Circuit := r.endpoint.circuits.get? id

def circuitAt? (r : Reception) (a : Address) : Option CircuitId := r.endpoint.circuitAt? a

def take (id : CircuitId) (e : Event) (r : Reception) : Reception :=
  { r with endpoint := (r.endpoint.step id e).2.2, steps := r.steps ++ [(id, e)] }

def arrive (source : Address) (raw : Bytes) (now : Nat) (r : Reception) : Reception :=
  match Packet.decode raw with
  | .error _ => { r with endpoint.malformed := (r.endpoint.malformed.note source now).2 }
  | .ok p =>
    match r.circuitAt? source with
    | some id => { r with calls := r.calls ++ [⟨source, p, .handing id, none⟩] }
    | none =>
      match p.message with
      | .useCircuitCode m => { r with calls := r.calls ++ [⟨source, p, .opening m, none⟩] }
      | _ => { r with endpoint.pool := r.endpoint.pool.takeBack p }

def opening (i : Nat) (x : Intake) (request : UseCircuitCode) (now : Nat) (r : Reception) :
    Reception :=
  let (id, e) := r.endpoint.add request.viewer x.source now
  { r with
    endpoint := { e with registered := e.registered.put x.source id }
    calls := r.calls.set i { x with handling := .starting id, opened := some id } }

def proceed (i : Nat) (now : Nat) (r : Reception) : Reception :=
  match r.calls[i]? with
  | some x =>
    match x.handling with
    | .opening request =>
      -- another call may have opened a circuit meanwhile
      match r.circuitAt? x.source with
      | some id => { r with calls := r.calls.set i { x with handling := .handing id } }
      | none => r.opening i x request now
    | .starting id =>
      { r.take id .start with calls := r.calls.set i { x with handling := .handing id } }
    | .handing id =>
      { r.take id (.receive x.packet) with
        calls := r.calls.set i { x with handling := .handed id } }
    | .handed _ => r
  | none => r

def look (id : CircuitId) (r : Reception) : Reception :=
  match r.circuit? id with
  | some c => if c.phase = .closed then { r with seenClosed := id :: r.seenClosed } else r
  | none => r

/-- A circuit is removed when it was seen closed, however long ago that was. -/
def remove (id : CircuitId) (r : Reception) : Reception :=
  if id ∈ r.seenClosed then
    { r with endpoint := r.endpoint.unregister id, seenClosed := r.seenClosed.erase id }
  else r

def next (r : Reception) : Happening → Reception
  | .arrive source raw now => r.arrive source raw now
  | .proceed i now => r.proceed i now
  | .step id e _ => if (r.circuit? id).isSome then r.take id e else r
  | .look id => r.look id
  | .remove id => r.remove id
  | .drain => { r with endpoint := r.endpoint.drain.2 }
  | .setConduct conduct => { r with endpoint.conduct := conduct }

def follow (happenings : List Happening) (r : Reception) : Reception := happenings.foldl next r

/-- A call that nothing disturbs does what the arrival of a datagram does in one step. -/
theorem undisturbed (source : Address) (raw : Bytes) (now : Nat) (r : Reception) :
    ((((r.arrive source raw now).proceed r.calls.length now).proceed r.calls.length now).proceed
      r.calls.length now).endpoint = (r.endpoint.arrive source raw now).2 := by
  cases hd : Packet.decode raw with
  | error error => simp [arrive, Endpoint.arrive, hd, proceed]
  | ok p =>
    cases ha : r.endpoint.circuitAt? source with
    | some id => simp [arrive, Endpoint.arrive, hd, circuitAt?, ha, proceed, take]
    | none =>
      cases hm : p.message with
      | useCircuitCode m =>
        simp [arrive, Endpoint.arrive, hd, circuitAt?, ha, hm, proceed, take, opening,
          Endpoint.openCircuit, UseCircuitCode.viewer]
      | _ => simp [arrive, Endpoint.arrive, hd, circuitAt?, ha, hm, proceed]

end Reception

structure Circuit.Becomes (c d : Circuit) : Prop where
  viewer : d.viewer = c.viewer
  remote : d.remote = c.remote
  closed : c.phase = .closed → d.phase = .closed

theorem Circuit.Becomes.refl (c : Circuit) : c.Becomes c := ⟨rfl, rfl, id⟩

theorem Site.next_becomes {s : Site} (conduct : Conduct) (e : Event)
    (hs : s.pool.Sound) : s.circuit.Becomes (s.next conduct e).2.circuit := by
  obtain ⟨count, counted⟩ := next_counts conduct e hs
  exact ⟨congrArg Papers.viewer counted, congrArg Papers.remote counted,
    fun hp => follow_stays_closed hs hp [.step conduct e]⟩

structure Endpoint.Stepped (e : Endpoint) (id : CircuitId) (u : Endpoint) : Prop where
  config : u.config = e.config
  pool : u.pool.Sound
  registered : u.registered = e.registered
  nextId : u.nextId = e.nextId
  others : ∀ {k}, k ≠ id → u.circuits.get? k = e.circuits.get? k
  unknown : ∀ {k}, e.circuits.get? k = none → u.circuits.get? k = none
  becomes : ∀ {k c}, e.circuits.get? k = some c → ∃ d, u.circuits.get? k = some d ∧ c.Becomes d

theorem Endpoint.Stepped.of_eq {e u : Endpoint} (id : CircuitId)
    (circuits : u.circuits = e.circuits) (registered : u.registered = e.registered)
    (nextId : u.nextId = e.nextId) (config : u.config = e.config) (pool : u.pool.Sound) :
    e.Stepped id u where
  config := config
  pool := pool
  registered := registered
  nextId := nextId
  others _ := by rw [circuits]
  unknown hk := by rw [circuits]; exact hk
  becomes {_ c} hk := ⟨c, by rw [circuits]; exact hk, .refl c⟩

theorem Endpoint.Stepped.refl {e : Endpoint} {id : CircuitId} (hp : e.pool.Sound) :
    e.Stepped id e :=
  .of_eq id rfl rfl rfl rfl hp

theorem Endpoint.Stepped.isSome {e u : Endpoint} {id : CircuitId} (h : e.Stepped id u)
    (k : CircuitId) : (u.circuits.get? k).isSome = (e.circuits.get? k).isSome := by
  cases hk : e.circuits.get? k with
  | none => rw [h.unknown hk]
  | some c =>
    obtain ⟨d, hd, -⟩ := h.becomes hk
    rw [hd]
    rfl

theorem Endpoint.step_stepped (e : Endpoint) (hp : e.pool.Sound) (id : CircuitId) (event : Event) :
    e.Stepped id (e.step id event).2.2 := by
  cases hc : e.circuits.get? id with
  | none =>
    have same : (e.step id event).2.2 = e := by simp [step, hc]
    rw [same]
    exact .refl hp
  | some c =>
    have stepped : (e.step id event).2.2 =
        let site := (Site.next e.conduct event ⟨c, e.pool, []⟩).2
        { e with pool := site.pool, circuits := e.circuits.put id site.circuit } := by
      simp only [step, hc]
    rw [stepped]
    have others {k : CircuitId} (hk : k ≠ id) (d : Circuit) :
        (e.circuits.put id d).get? k = e.circuits.get? k := Table.get?_put_of_ne hk _ _
    refine ⟨rfl, Site.move_sound (s := ⟨c, e.pool, []⟩) hp (.step e.conduct event), rfl, rfl,
      fun hk => others hk _, ?_, ?_⟩
    · intro k hk
      have hne : k ≠ id := by
        rintro rfl
        cases hc.symm.trans hk
      exact (others hne _).trans hk
    · intro k c' hk
      by_cases hne : k = id
      · subst hne
        cases hc.symm.trans hk
        exact ⟨_, Table.get?_put_self _ _ _,
          Site.next_becomes (s := ⟨c, e.pool, []⟩) e.conduct event hp⟩
      · exact ⟨c', (others hne _).trans hk, .refl c'⟩

theorem Endpoint.step_taken {e : Endpoint} {id : CircuitId} {c : Circuit}
    (hc : e.circuits.get? id = some c) (event : Event) :
    (e.step id event).2.2.circuits.get? id =
      some (Site.next e.conduct event ⟨c, e.pool, []⟩).2.circuit := by
  rw [step, hc]
  exact Table.get?_put_self _ _ _

namespace Reception

/-- With what happens a circuit takes this step. -/
inductive Turn (r : Reception) : Happening → CircuitId → Event → Prop
  | start {i now x id} (call : r.calls[i]? = some x) (handling : x.handling = .starting id) :
    Turn r (.proceed i now) id .start
  | receive {i now x id} (call : r.calls[i]? = some x) (handling : x.handling = .handing id) :
    Turn r (.proceed i now) id (.receive x.packet)
  | own {id e own} : Turn r (.step id e own) id e

theorem Turn.of_call {r : Reception} {i now : Nat} {x : Intake} {id : CircuitId} {e : Event}
    (turn : r.Turn (.proceed i now) id e) (call : r.calls[i]? = some x) :
    x.handling = .starting id ∧ e = .start ∨ x.handling = .handing id ∧ e = .receive x.packet := by
  cases turn with
  | start other handling =>
    cases call.symm.trans other
    exact .inl ⟨handling, rfl⟩
  | receive other handling =>
    cases call.symm.trans other
    exact .inr ⟨handling, rfl⟩

theorem Turn.unique {r : Reception} {h : Happening} {id k : CircuitId} {e f : Event}
    (turn : r.Turn h id e) (other : r.Turn h k f) : k = id ∧ f = e := by
  cases turn with
  | start call handling =>
    rcases other.of_call call with ⟨same, rfl⟩ | ⟨same, rfl⟩
    · cases handling.symm.trans same
      exact ⟨rfl, rfl⟩
    · cases handling.symm.trans same
  | receive call handling =>
    rcases other.of_call call with ⟨same, rfl⟩ | ⟨same, rfl⟩
    · cases handling.symm.trans same
    · cases handling.symm.trans same
      exact ⟨rfl, rfl⟩
  | own =>
    cases other
    exact ⟨rfl, rfl⟩

inductive Change (r : Reception) : Happening → Reception → Prop where
  | aside {h : Happening} {e : Endpoint} (circuits : e.circuits = r.endpoint.circuits)
      (registered : e.registered = r.endpoint.registered) (nextId : e.nextId = r.endpoint.nextId)
      (config : e.config = r.endpoint.config) (pool : e.pool.Sound)
      (done : ∀ {i x}, h.goesOn i = true → r.calls[i]? = some x → x.handling.togo = 0)
      (idle : ∀ {id e}, r.Turn h id e → r.circuit? id = none) :
      Change r h { r with endpoint := e }
  | routed {source : Address} {raw : Bytes} {now : Nat} {p : Packet} {id : CircuitId}
      (decoded : Packet.decode raw = .ok p) (entry : r.circuitAt? source = some id) :
      Change r (.arrive source raw now)
        { r with calls := r.calls ++ [⟨source, p, .handing id, none⟩] }
  | asked {source : Address} {raw : Bytes} {now : Nat} {p : Packet} {request : UseCircuitCode}
      (decoded : Packet.decode raw = .ok p) (entry : r.circuitAt? source = none)
      (asks : p.message = .useCircuitCode request) :
      Change r (.arrive source raw now)
        { r with calls := r.calls ++ [⟨source, p, .opening request, none⟩] }
  | found {i : Nat} {now : Nat} {x : Intake} {request : UseCircuitCode} {id : CircuitId}
      (call : r.calls[i]? = some x) (handling : x.handling = .opening request)
      (entry : r.circuitAt? x.source = some id) :
      Change r (.proceed i now) { r with calls := r.calls.set i { x with handling := .handing id } }
  | opened {i : Nat} {now : Nat} {x : Intake} {request : UseCircuitCode}
      (call : r.calls[i]? = some x) (handling : x.handling = .opening request)
      (entry : r.circuitAt? x.source = none) :
      Change r (.proceed i now) (r.opening i x request now)
  | started {i : Nat} {now : Nat} {x : Intake} {id : CircuitId}
      (call : r.calls[i]? = some x) (handling : x.handling = .starting id) :
      Change r (.proceed i now)
        { r.take id .start with calls := r.calls.set i { x with handling := .handing id } }
  | handed {i : Nat} {now : Nat} {x : Intake} {id : CircuitId}
      (call : r.calls[i]? = some x) (handling : x.handling = .handing id) :
      Change r (.proceed i now)
        { r.take id (.receive x.packet) with
          calls := r.calls.set i { x with handling := .handed id } }
  | stepped {id : CircuitId} {c : Circuit} {e : Event} (own : e.IsOwn)
      (circuit : r.circuit? id = some c) : Change r (.step id e own) (r.take id e)
  | seen {id : CircuitId} {c : Circuit} (circuit : r.circuit? id = some c)
      (closed : c.phase = .closed) :
      Change r (.look id) { r with seenClosed := id :: r.seenClosed }
  | removed {id : CircuitId} (seen : id ∈ r.seenClosed) :
      Change r (.remove id)
        { r with endpoint := r.endpoint.unregister id, seenClosed := r.seenClosed.erase id }
  | drained : Change r .drain { r with endpoint := r.endpoint.drain.2 }

theorem arrive_changes {r : Reception} (hp : r.endpoint.pool.Sound) (source : Address)
    (raw : Bytes) (now : Nat) : Change r (.arrive source raw now) (r.arrive source raw now) := by
  unfold arrive
  split
  · exact .aside rfl rfl rfl rfl hp nofun nofun
  · next p hd =>
    split
    · next id ha => exact .routed hd ha
    · next ha =>
      split
      · next m hm => exact .asked hd ha hm
      · exact .aside rfl rfl rfl rfl (PacketPool.takeBack_sound hp p) nofun nofun

theorem proceed_changes {r : Reception} (hp : r.endpoint.pool.Sound) (i now : Nat) :
    Change r (.proceed i now) (r.proceed i now) := by
  unfold proceed
  split
  · next x hx =>
    split
    · next request hh =>
      split
      · next id ha => exact .found hx hh ha
      · next ha => exact .opened hx hh ha
    · next id hh => exact .started hx hh
    · next id hh => exact .handed hx hh
    · next id hh =>
      have same {y : Intake} (hy : r.calls[i]? = some y) : y.handling = .handed id := by
        cases hx.symm.trans hy
        exact hh
      refine .aside rfl rfl rfl rfl hp (fun {k y} hk hy => ?_) fun turn => ?_
      · obtain rfl : i = k := of_decide_eq_true hk
        rw [same hy, Handling.togo]
      · rcases turn.of_call hx with ⟨other, -⟩ | ⟨other, -⟩ <;> cases hh.symm.trans other
  · next hx =>
    refine .aside rfl rfl rfl rfl hp (fun {k y} hk hy => ?_) fun turn => ?_
    · obtain rfl : i = k := of_decide_eq_true hk
      cases hx.symm.trans hy
    · cases turn with
      | start call | receive call => cases hx.symm.trans call

theorem step_changes {r : Reception} (hp : r.endpoint.pool.Sound) (id : CircuitId) {e : Event}
    (own : e.IsOwn) : Change r (.step id e own) (r.next (.step id e own)) := by
  unfold next
  dsimp only
  split
  · next known =>
    obtain ⟨c, hc⟩ := Option.isSome_iff_exists.1 known
    exact .stepped own hc
  · next unknown =>
    refine .aside rfl rfl rfl rfl hp nofun fun turn => ?_
    cases turn
    exact Option.not_isSome_iff_eq_none.1 unknown

theorem look_changes {r : Reception} (hp : r.endpoint.pool.Sound) (id : CircuitId) :
    Change r (.look id) (r.look id) := by
  unfold look
  split
  · next c hc =>
    split
    · next closed => exact .seen hc closed
    · exact .aside rfl rfl rfl rfl hp nofun nofun
  · exact .aside rfl rfl rfl rfl hp nofun nofun

theorem remove_changes {r : Reception} (hp : r.endpoint.pool.Sound) (id : CircuitId) :
    Change r (.remove id) (r.remove id) := by
  unfold remove
  split
  · next seen => exact .removed seen
  · exact .aside rfl rfl rfl rfl hp nofun nofun

theorem next_changes {r : Reception} (hp : r.endpoint.pool.Sound) (h : Happening) :
    Change r h (r.next h) := by
  cases h with
  | arrive source raw now => exact arrive_changes hp source raw now
  | proceed i now => exact proceed_changes hp i now
  | step id e own => exact step_changes hp id own
  | look id => exact look_changes hp id
  | remove id => exact remove_changes hp id
  | drain => exact .drained
  | setConduct conduct => exact .aside rfl rfl rfl rfl hp nofun nofun

end Reception
end ViewerCircuit
