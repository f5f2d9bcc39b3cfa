import ViewerCircuit.Proofs.Reception

/-!
# Routing

Whatever calls bring datagrams, and whatever else happens between their steps, each packet is handed
to the one circuit that its source belonged to, and a circuit is made for a source that has none and
asks for one, and for nobody else.
-/
namespace ViewerCircuit

open scoped List

namespace Reception

def Outlives (r u : Reception) : Prop :=
  ∀ ⦃id c⦄, r.circuit? id = some c → ∃ d, u.circuit? id = some d ∧ c.Becomes d

theorem outlives_of_eq {r u : Reception} (h : u.endpoint.circuits = r.endpoint.circuits) :
    Outlives r u :=
  fun _ c hc => ⟨c, by rw [circuit?, h]; exact hc, .refl c⟩

theorem Outlives.remote {r u : Reception} (hu : Outlives r u) {id : CircuitId} {a : Address}
    (h : ∃ c, r.circuit? id = some c ∧ c.remote = a) :
    ∃ c, u.circuit? id = some c ∧ c.remote = a := by
  obtain ⟨c, hc, hremote⟩ := h
  obtain ⟨d, hd, became⟩ := hu hc
  exact ⟨d, hd, became.remote.trans hremote⟩

theorem Outlives.closed {r u : Reception} (hu : Outlives r u) {id : CircuitId}
    (h : ∃ c, r.circuit? id = some c ∧ c.phase = .closed) :
    ∃ c, u.circuit? id = some c ∧ c.phase = .closed := by
  obtain ⟨c, hc, closed⟩ := h
  obtain ⟨d, hd, became⟩ := hu hc
  exact ⟨d, hd, became.closed closed⟩

structure Knows (r : Reception) (x : Intake) : Prop where
  asks : ∀ {m}, x.handling = .opening m → x.packet.message = .useCircuitCode m ∧ x.opened = none
  starts : ∀ {id}, x.handling = .starting id → x.opened = some id
  circuit : ∀ {id}, x.handling.circuit? = some id →
    ∃ c, r.circuit? id = some c ∧ c.remote = x.source
  opened : ∀ {id}, x.opened = some id → x.handling.circuit? = some id ∧
    ∃ c m, r.circuit? id = some c ∧ x.packet.message = .useCircuitCode m ∧ c.viewer = m.viewer

theorem Knows.mono {r u : Reception} {x : Intake} (h : r.Knows x) (hu : Outlives r u) :
    u.Knows x where
  asks := h.asks
  starts := h.starts
  circuit hid := hu.remote (h.circuit hid)
  opened hid := by
    obtain ⟨hbound, c, m, hc, hm, hviewer⟩ := h.opened hid
    obtain ⟨d, hd, became⟩ := hu hc
    exact ⟨hbound, d, m, hd, hm, became.viewer.trans hviewer⟩

structure Sound (r : Reception) : Prop where
  pool : r.endpoint.pool.Sound
  fresh : ∀ {id}, r.endpoint.nextId ≤ id → r.circuit? id = none
  entries : ∀ {a id}, (a, id) ∈ r.endpoint.registered → ∃ c, r.circuit? id = some c ∧ c.remote = a
  calls : ∀ {x}, x ∈ r.calls → r.Knows x
  seenClosed : ∀ {id}, id ∈ r.seenClosed → ∃ c, r.circuit? id = some c ∧ c.phase = .closed

/-- A step of a circuit, or less, while calls go on and circuits are seen closed. -/
theorem Sound.stepped {r u : Reception} {k : CircuitId} (h : r.Sound)
    (step : r.endpoint.Stepped k u.endpoint)
    (calls : ∀ {x}, x ∈ u.calls → x ∈ r.calls ∨ r.Knows x)
    (seenClosed : ∀ {id}, id ∈ u.seenClosed →
      id ∈ r.seenClosed ∨ ∃ c, r.circuit? id = some c ∧ c.phase = .closed) : u.Sound := by
  have outlives : Outlives r u := fun _ _ => step.becomes
  constructor
  · exact step.pool
  · intro id hid
    exact step.unknown (h.fresh (step.nextId ▸ hid))
  · intro a id hmem
    rw [step.registered] at hmem
    exact outlives.remote (h.entries hmem)
  · intro x hx
    exact ((calls hx).elim h.calls id).mono outlives
  · intro id hid
    rcases seenClosed hid with old | new
    · exact outlives.closed (h.seenClosed old)
    · exact outlives.closed new

/-- Entries may get lost at any time. -/
theorem Sound.forget {r : Reception} (h : r.Sound) {registered : Table Address CircuitId}
    {seenClosed : List CircuitId} (hr : ∀ e ∈ registered, e ∈ r.endpoint.registered)
    (hs : ∀ id ∈ seenClosed, id ∈ r.seenClosed) :
    { r with endpoint.registered := registered, seenClosed }.Sound where
  pool := h.pool
  fresh := h.fresh
  entries hmem := h.entries (hr _ hmem)
  calls hx := (h.calls hx).mono (outlives_of_eq rfl)
  seenClosed hid := h.seenClosed (hs _ hid)

theorem ofConfig_sound (config : Config) : (ofConfig config).Sound where
  pool := PacketPool.empty_sound _ _
  fresh _ := rfl
  entries := nofun
  calls := nofun
  seenClosed := nofun

theorem Sound.entry {r : Reception} (h : r.Sound) {a : Address} {id : CircuitId}
    (ha : r.circuitAt? a = some id) : ∃ c, r.circuit? id = some c ∧ c.remote = a :=
  h.entries (Table.mem_of_get? ha)

/-- However late a circuit is removed that was seen closed, it is closed still. -/
theorem Sound.remove_eq {r : Reception} (h : r.Sound) {id : CircuitId} (seen : id ∈ r.seenClosed) :
    (r.remove id).endpoint = r.endpoint.removeClosed id := by
  obtain ⟨c, hc, closed⟩ := h.seenClosed seen
  rw [remove, if_pos seen, Endpoint.removeClosed_eq_unregister hc closed]

/-- A call that has its circuit keeps it. -/
theorem Knows.goOn {r : Reception} {x : Intake} {id : CircuitId} {handling : Handling}
    (h : r.Knows x) (hx : x.handling.circuit? = some id)
    (hh : handling = .handing id ∨ handling = .handed id) :
    r.Knows { x with handling } := by
  have bound : handling.circuit? = some id := by rcases hh with rfl | rfl <;> rfl
  refine ⟨?_, ?_, ?_, ?_⟩
  · rintro m rfl
    cases bound
  · rintro k rfl
    rcases hh with hh | hh <;> cases hh
  · intro k hk
    exact h.circuit (hx.trans (bound.symm.trans hk))
  · intro k hk
    obtain ⟨hbound, known⟩ := h.opened hk
    exact ⟨bound.trans (hx.symm.trans hbound), known⟩

theorem circuit?_opening_of_some {r : Reception} (h : r.Sound) {id : CircuitId} {c : Circuit}
    (hc : r.circuit? id = some c) (i : Nat) (x : Intake) (m : UseCircuitCode) (now : Nat) :
    (r.opening i x m now).circuit? id = some c := by
  have hne : id ≠ r.endpoint.nextId := by
    rintro rfl
    cases (h.fresh (Nat.le_refl _)).symm.trans hc
  exact (Table.get?_put_of_ne hne _ _).trans hc

theorem opening_outlives {r : Reception} (h : r.Sound) (i : Nat) (x : Intake) (m : UseCircuitCode)
    (now : Nat) : Outlives r (r.opening i x m now) :=
  fun _ c hc => ⟨c, circuit?_opening_of_some h hc i x m now, .refl c⟩

theorem circuit?_opening (r : Reception) (i : Nat) (x : Intake) (m : UseCircuitCode) (now : Nat) :
    (r.opening i x m now).circuit? r.endpoint.nextId =
      some (.new r.endpoint.config m.viewer x.source now) :=
  Table.get?_put_self _ _ _

theorem opening_sound {r : Reception} (hs : r.Sound) {i : Nat} {x : Intake} {m : UseCircuitCode}
    (call : r.calls[i]? = some x) (handling : x.handling = .opening m) (now : Nat) :
    (r.opening i x m now).Sound := by
  have asks := ((hs.calls (List.mem_of_getElem? call)).asks handling).1
  have made := circuit?_opening r i x m now
  have outlives := opening_outlives hs i x m now
  constructor
  · exact hs.pool
  · intro id hid
    exact (Table.get?_put_of_ne (Nat.ne_of_gt hid) _ _).trans (hs.fresh (Nat.le_of_succ_le hid))
  · intro a id hmem
    rcases Table.mem_of_mem_put hmem with old | new
    · exact outlives.remote (hs.entries old)
    · cases new
      exact ⟨_, made, rfl⟩
  · intro y hy
    rcases List.mem_or_eq_of_mem_set hy with old | rfl
    · exact (hs.calls old).mono outlives
    · refine ⟨nofun, fun hh => by cases hh; rfl, fun hid => ?_, fun hid => ?_⟩
      · cases hid
        exact ⟨_, made, rfl⟩
      · cases hid
        exact ⟨rfl, _, m, made, asks, rfl⟩
  · intro id hid
    exact outlives.closed (hs.seenClosed hid)

/-- Whatever happens, circuits stay, and calls and entries stay bound to circuits of their
address. -/
theorem Change.sound {r u : Reception} {h : Happening} (hs : r.Sound) (change : Change r h u) :
    u.Sound := by
  have idle : r.endpoint.Stepped 0 r.endpoint := .refl hs.pool
  cases change with
  | aside circuits registered nextId config pool =>
    exact hs.stepped (.of_eq 0 circuits registered nextId config pool) .inl .inl
  | routed decoded entry =>
    refine hs.stepped idle (fun hx => ?_) .inl
    rcases List.mem_append.1 hx with old | new
    · exact .inl old
    · cases List.mem_singleton.1 new
      exact .inr ⟨nofun, nofun, fun hid => by cases hid; exact hs.entry entry, nofun⟩
  | asked decoded entry asks =>
    refine hs.stepped idle (fun hx => ?_) .inl
    rcases List.mem_append.1 hx with old | new
    · exact .inl old
    · cases List.mem_singleton.1 new
      exact .inr ⟨fun hh => by cases hh; exact ⟨asks, rfl⟩, nofun, nofun, nofun⟩
  | @found i now x request id call handling entry =>
    refine hs.stepped idle (fun hx => (List.mem_or_eq_of_mem_set hx).imp_right ?_) .inl
    rintro rfl
    have none := ((hs.calls (List.mem_of_getElem? call)).asks handling).2
    exact ⟨nofun, nofun, fun hid => by cases hid; exact hs.entry entry,
      fun hid => by cases none.symm.trans hid⟩
  | @opened i now x request call handling entry => exact opening_sound hs call handling now
  | @started i now x id call handling =>
    have known := hs.calls (List.mem_of_getElem? call)
    refine hs.stepped (r.endpoint.step_stepped hs.pool id .start)
      (fun hx => (List.mem_or_eq_of_mem_set hx).imp_right ?_) .inl
    rintro rfl
    exact known.goOn (handling ▸ rfl) (.inl rfl)
  | @handed i now x id call handling =>
    have known := hs.calls (List.mem_of_getElem? call)
    refine hs.stepped (r.endpoint.step_stepped hs.pool id (.receive x.packet))
      (fun hx => (List.mem_or_eq_of_mem_set hx).imp_right ?_) .inl
    rintro rfl
    exact known.goOn (handling ▸ rfl) (.inr rfl)
  | @stepped id c e own => exact hs.stepped (r.endpoint.step_stepped hs.pool id e) .inl .inl
  | seen circuit closed =>
    refine hs.stepped idle .inl fun hid => ?_
    rcases List.mem_cons.1 hid with rfl | old
    · exact .inr ⟨_, circuit, closed⟩
    · exact .inl old
  | @removed id seen =>
    obtain ⟨registered, hendpoint, hr⟩ := r.endpoint.unregister_eq id
    rw [hendpoint]
    exact hs.forget hr fun _ => List.mem_of_mem_erase
  | drained => exact hs.forget nofun fun _ => id

theorem next_sound {r : Reception} (hs : r.Sound) (h : Happening) : (r.next h).Sound :=
  (next_changes hs.pool h).sound hs

theorem follow_sound {r : Reception} (hs : r.Sound) (happenings : List Happening) :
    (r.follow happenings).Sound := by
  induction happenings generalizing r with
  | nil => exact hs
  | cons h happenings ih => exact ih (next_sound hs h)

section

variable (id : CircuitId) (steps : List (CircuitId × Event)) (calls : List Intake)

def stepsOf : List Event := steps.filterMap fun (k, e) => if k = id then some e else none

def startCount : Nat := (stepsOf id steps).countP Event.isStart

def received : List Packet := (stepsOf id steps).filterMap Event.received?

/-- How many calls made the circuit. -/
def makers : Nat := calls.countP (·.opened = some id)

/-- How many calls are about to start the circuit. -/
def starters : Nat := calls.countP (·.handling = .starting id)

def handedTo : List Packet :=
  calls.filterMap fun x => if x.handling = .handed id then some x.packet else none

@[simp] theorem stepsOf_append (more : List (CircuitId × Event)) :
    stepsOf id (steps ++ more) = stepsOf id steps ++ stepsOf id more := List.filterMap_append

theorem stepsOf_self (e : Event) : stepsOf id [(id, e)] = [e] := by simp [stepsOf]

theorem stepsOf_other {k : CircuitId} (hk : k ≠ id) (e : Event) : stepsOf id [(k, e)] = [] := by
  simp [stepsOf, hk]

@[simp] theorem startCount_append (more : List (CircuitId × Event)) :
    startCount id (steps ++ more) = startCount id steps + startCount id more := by
  rw [startCount, stepsOf_append, List.countP_append]
  rfl

@[simp] theorem received_append (more : List (CircuitId × Event)) :
    received id (steps ++ more) = received id steps ++ received id more := by
  rw [received, stepsOf_append, List.filterMap_append]
  rfl

theorem startCount_one (k : CircuitId) (e : Event) :
    startCount id [(k, e)] = if k = id ∧ e.isStart = true then 1 else 0 := by
  by_cases hk : k = id
  · subst hk
    simp [startCount, stepsOf_self, List.countP_cons]
  · simp [startCount, stepsOf_other id hk, hk]

theorem received_one (k : CircuitId) (e : Event) :
    received id [(k, e)] = if k = id then e.received?.toList else [] := by
  by_cases hk : k = id
  · subst hk
    cases he : e.received? <;> simp [received, stepsOf_self, he]
  · simp [received, stepsOf_other id hk, hk]

@[simp] theorem makers_append (more : List Intake) :
    makers id (calls ++ more) = makers id calls + makers id more := List.countP_append

@[simp] theorem starters_append (more : List Intake) :
    starters id (calls ++ more) = starters id calls + starters id more := List.countP_append

@[simp] theorem handedTo_append (more : List Intake) :
    handedTo id (calls ++ more) = handedTo id calls ++ handedTo id more := List.filterMap_append

end

/-- What circuits went through is what the calls did. Each was made by one call, which has started
it once, unless it is about to. -/
structure Accounts (r : Reception) : Prop where
  made : ∀ id, makers id r.calls = (r.circuit? id).isSome.toNat
  started : ∀ id, startCount id r.steps + starters id r.calls = makers id r.calls
  handed : ∀ id, (received id r.steps).Perm (handedTo id r.calls)

theorem ofConfig_accounts (config : Config) : (ofConfig config).Accounts where
  made _ := rfl
  started _ := rfl
  handed _ := .nil

theorem Accounts.of_eq {r u : Reception} (ha : r.Accounts)
    (circuits : ∀ id, (u.circuit? id).isSome = (r.circuit? id).isSome) (calls : u.calls = r.calls)
    (steps : u.steps = r.steps) : u.Accounts where
  made id := by
    rw [calls, circuits]
    exact ha.made id
  started id := by
    rw [calls, steps]
    exact ha.started id
  handed id := by
    rw [calls, steps]
    exact ha.handed id

/-- A call that just came in did nothing yet. -/
theorem Accounts.arrived {r : Reception} (ha : r.Accounts) {x : Intake}
    (makes : ∀ id, makers id [x] = 0) (starts : ∀ id, starters id [x] = 0)
    (hands : ∀ id, handedTo id [x] = []) : { r with calls := r.calls ++ [x] }.Accounts where
  made id := by
    rw [makers_append, makes]
    exact ha.made id
  started id := by
    rw [makers_append, makes, starters_append, starts]
    exact ha.started id
  handed id := by
    rw [handedTo_append, hands, List.append_nil]
    exact ha.handed id

theorem exists_set {α : Type} {l : List α} {i : Nat} {x : α} (hx : l[i]? = some x) (y : α) :
    ∃ before after, l = before ++ ([x] ++ after) ∧ l.set i y = before ++ ([y] ++ after) := by
  obtain ⟨hi, rfl⟩ := List.getElem?_eq_some_iff.1 hx
  refine ⟨l.take i, l.drop (i + 1), ?_, ?_⟩
  · rw [List.singleton_append, List.getElem_cons_drop, List.take_append_drop]
  · rw [List.singleton_append, List.set_eq_take_append_cons_drop, if_pos hi]

/-- A call goes on, and what it does is done to the circuit. -/
theorem Accounts.proceeded {r u : Reception} (ha : r.Accounts) {i : Nat} {x y : Intake}
    {steps : List (CircuitId × Event)} (call : r.calls[i]? = some x)
    (hcalls : u.calls = r.calls.set i y) (hsteps : u.steps = r.steps ++ steps)
    (makes : ∀ id, (u.circuit? id).isSome.toNat + makers id [x] =
      (r.circuit? id).isSome.toNat + makers id [y])
    (starts : ∀ id, startCount id steps + starters id [y] + makers id [x] =
      starters id [x] + makers id [y])
    (hands : ∀ id, received id steps ++ handedTo id [x] = handedTo id [y]) : u.Accounts := by
  obtain ⟨before, after, hbefore, hset⟩ := exists_set call y
  refine ⟨fun id => ?_, fun id => ?_, fun id => ?_⟩
  · have old := ha.made id
    have new := makes id
    rw [hbefore, makers_append, makers_append] at old
    rw [hcalls, hset, makers_append, makers_append]
    omega
  · have old := ha.started id
    have new := starts id
    rw [hbefore, makers_append, makers_append, starters_append, starters_append] at old
    rw [hcalls, hset, hsteps, makers_append, makers_append, starters_append, starters_append,
      startCount_append]
    omega
  · have old := ha.handed id
    rw [hbefore, handedTo_append, handedTo_append] at old
    rw [hcalls, hset, hsteps, handedTo_append, handedTo_append, received_append, ← hands id]
    calc received id r.steps ++ received id steps
      _ ~ received id steps ++ received id r.steps := List.perm_append_comm
      _ ~ received id steps ++ (handedTo id before ++ (handedTo id [x] ++ handedTo id after)) :=
        old.append_left _
      _ ~ handedTo id before ++ (received id steps ++ (handedTo id [x] ++ handedTo id after)) :=
        List.perm_append_comm_assoc ..
      _ = _ := by rw [List.append_assoc]

/-- A step of its own neither starts a circuit nor hands it a packet. -/
theorem Accounts.stepped {r u : Reception} (ha : r.Accounts) {id : CircuitId} {e : Event}
    (own : e.IsOwn) (circuits : ∀ k, (u.circuit? k).isSome = (r.circuit? k).isSome)
    (calls : u.calls = r.calls) (steps : u.steps = r.steps ++ [(id, e)]) : u.Accounts where
  made k := by
    rw [calls, circuits]
    exact ha.made k
  started k := by
    have idle : startCount k [(id, e)] = 0 := by simp [startCount_one, own.isStart]
    rw [calls, steps, startCount_append, idle]
    exact ha.started k
  handed k := by
    have idle : received k [(id, e)] = [] := by simp [received_one, own.received?]
    rw [calls, steps, received_append, idle, List.append_nil]
    exact ha.handed k

theorem Change.accounts {r u : Reception} {h : Happening} (hs : r.Sound) (ha : r.Accounts)
    (change : Change r h u) : u.Accounts := by
  cases change with
  | aside circuits registered nextId config pool =>
    exact ha.of_eq (fun id => by rw [circuit?, circuits]; rfl) rfl rfl
  | routed decoded entry => exact ha.arrived (fun _ => rfl) (fun _ => rfl) fun _ => rfl
  | asked decoded entry asks => exact ha.arrived (fun _ => rfl) (fun _ => rfl) fun _ => rfl
  | @found i now x request id call handling entry =>
    refine ha.proceeded call rfl (show _ = r.steps ++ [] from (List.append_nil _).symm)
      (fun _ => rfl) ?_ ?_
    · intro k
      simp [startCount, stepsOf, starters, makers, handling]
    · intro k
      simp [received, stepsOf, handedTo, handling]
  | @opened i now x request call handling entry =>
    have none := ((hs.calls (List.mem_of_getElem? call)).asks handling).2
    have fresh := hs.fresh (Nat.le_refl r.endpoint.nextId)
    have made := circuit?_opening r i x request now
    refine ha.proceeded call rfl (show _ = r.steps ++ [] from (List.append_nil _).symm)
      (fun k => ?_) ?_ ?_
    · by_cases hk : k = r.endpoint.nextId
      · subst hk
        simp [made, fresh, makers, none]
      · have old : (r.opening i x request now).circuit? k = r.circuit? k :=
          Table.get?_put_of_ne hk _ _
        simp [old, makers, none, Ne.symm hk]
    · intro k
      simp [startCount, stepsOf, starters, makers, handling, none]
    · intro k
      simp [received, stepsOf, handedTo, handling]
  | @started i now x id call handling =>
    have stepped := r.endpoint.step_stepped hs.pool id .start
    refine ha.proceeded call rfl rfl (fun k => ?_) ?_ ?_
    · exact congrArg (·.toNat + _) (stepped.isSome k)
    · intro k
      simp [startCount_one, starters, makers, handling, Event.isStart]
    · intro k
      simp [received_one, Event.received?, handedTo, handling]
  | @handed i now x id call handling =>
    have stepped := r.endpoint.step_stepped hs.pool id (.receive x.packet)
    refine ha.proceeded call rfl rfl (fun k => ?_) ?_ ?_
    · exact congrArg (·.toNat + _) (stepped.isSome k)
    · intro k
      simp [startCount_one, starters, makers, handling, Event.isStart]
    · intro k
      by_cases hk : id = k <;> simp [received_one, Event.received?, handedTo, handling, hk]
  | @stepped id c e own circuit =>
    exact ha.stepped own (r.endpoint.step_stepped hs.pool id e).isSome rfl rfl
  | seen circuit closed => exact ha.of_eq (fun _ => rfl) rfl rfl
  | @removed id seen =>
    obtain ⟨registered, hendpoint, hr⟩ := r.endpoint.unregister_eq id
    rw [hendpoint]
    exact ha.of_eq (fun _ => rfl) rfl rfl
  | drained => exact ha.of_eq (fun _ => rfl) rfl rfl

theorem follow_accounts {r : Reception} (hs : r.Sound) (ha : r.Accounts)
    (happenings : List Happening) : (r.follow happenings).Accounts := by
  induction happenings generalizing r with
  | nil => exact ha
  | cons h happenings ih => exact ih (next_sound hs h) ((next_changes hs.pool h).accounts hs ha)

end Reception

structure Intake.Advances (times : Nat) (x y : Intake) : Prop where
  source : y.source = x.source
  packet : y.packet = x.packet
  bound : ∀ {id}, x.handling.circuit? = some id →
    y.handling.circuit? = some id ∧ y.opened = x.opened
  togo : y.handling.togo ≤ x.handling.togo - times
  idle : times = 0 → y = x

namespace Intake

theorem Advances.refl (x : Intake) : x.Advances 0 x :=
  ⟨rfl, rfl, fun h => ⟨h, rfl⟩, Nat.le_refl _, fun _ => rfl⟩

theorem Advances.trans {m n : Nat} {x y z : Intake} (hxy : x.Advances m y) (hyz : y.Advances n z) :
    x.Advances (m + n) z where
  source := hyz.source.trans hxy.source
  packet := hyz.packet.trans hxy.packet
  bound hid := by
    obtain ⟨hy, oy⟩ := hxy.bound hid
    obtain ⟨hz, oz⟩ := hyz.bound hy
    exact ⟨hz, oz.trans oy⟩
  togo := by
    have := hxy.togo
    have := hyz.togo
    omega
  idle h := (hyz.idle (Nat.add_eq_zero_iff.1 h).2).trans (hxy.idle (Nat.add_eq_zero_iff.1 h).1)

end Intake

namespace Reception

/-- One call goes on, and the others stay where they are. -/
theorem advances_set {calls : List Intake} {i j : Nat} {x y : Intake} {handling : Handling}
    {opened : Option CircuitId} (hx : calls[i]? = some x) (hy : calls[j]? = some y)
    (bound : ∀ {id}, y.handling.circuit? = some id →
      handling.circuit? = some id ∧ opened = y.opened)
    (togo : handling.togo < y.handling.togo) (now : Nat) :
    ∃ z, (calls.set j { y with handling, opened })[i]? = some z ∧
      x.Advances ((Happening.proceed j now).goesOn i).toNat z := by
  by_cases hj : j = i
  · subst hj
    cases hx.symm.trans hy
    refine ⟨_, List.getElem?_set_self (List.getElem?_eq_some_iff.1 hx).1, rfl, rfl, bound, ?_, ?_⟩
    · simpa [Happening.goesOn] using Nat.le_sub_one_of_lt togo
    · simp [Happening.goesOn]
  · refine ⟨x, by rw [List.getElem?_set_ne hj, hx], ?_⟩
    simpa [Happening.goesOn, hj] using Intake.Advances.refl x

theorem Change.advances {r u : Reception} {h : Happening} (change : Change r h u) {i : Nat}
    {x : Intake} (hx : r.calls[i]? = some x) :
    ∃ y, u.calls[i]? = some y ∧ x.Advances (h.goesOn i).toNat y := by
  have hi : i < r.calls.length := (List.getElem?_eq_some_iff.1 hx).1
  cases change with
  | aside _ _ _ _ _ done =>
    refine ⟨x, hx, rfl, rfl, fun hid => ⟨hid, rfl⟩, ?_, fun _ => rfl⟩
    cases hg : h.goesOn i with
    | false => exact Nat.le_refl _
    | true => rw [done hg hx]; exact Nat.zero_le _
  | routed => exact ⟨x, (List.getElem?_append_left hi).trans hx, .refl x⟩
  | asked => exact ⟨x, (List.getElem?_append_left hi).trans hx, .refl x⟩
  | @found _ now _ _ _ call handling =>
    exact advances_set hx call (by simp [handling, Handling.circuit?])
      (by simp [handling, Handling.togo]) now
  | @opened _ now _ _ call handling =>
    exact advances_set hx call (by simp [handling, Handling.circuit?])
      (by simp [handling, Handling.togo]) now
  | @started _ now _ _ call handling =>
    exact advances_set hx call (by simp [handling, Handling.circuit?])
      (by simp [handling, Handling.togo]) now
  | @handed _ now _ _ call handling =>
    exact advances_set hx call (by simp [handling, Handling.circuit?])
      (by simp [handling, Handling.togo]) now
  | _ => exact ⟨x, hx, .refl x⟩

theorem follow_advances {r : Reception} (hs : r.Sound) (after : List Happening) {i : Nat}
    {x : Intake} (hx : r.calls[i]? = some x) :
    ∃ y, (r.follow after).calls[i]? = some y ∧ x.Advances (after.countP (·.goesOn i)) y := by
  induction after generalizing r x with
  | nil => exact ⟨x, hx, .refl x⟩
  | cons h after ih =>
    have change := next_changes hs.pool h
    obtain ⟨y, hy, first⟩ := change.advances hx
    obtain ⟨z, hz, rest⟩ := ih (change.sound hs) hy
    refine ⟨z, hz, ?_⟩
    have count : (h :: after).countP (·.goesOn i) =
        (h.goesOn i).toNat + after.countP (·.goesOn i) := by
      cases hg : h.goesOn i <;> simp [hg, Nat.add_comm]
    rw [count]
    exact first.trans rest

/-- What a happening can do to circuits and entries. A circuit is made by a call whose source asked
for one and has none, and is registered. It changes only where it takes a step, and only calls start
it or hand it a packet. An entry gets lost when the endpoint is shut down, or when its own circuit,
closed by then, is removed. -/
structure Keeps (r : Reception) (h : Happening) (u : Reception) : Prop where
  made : ∀ {id c}, r.circuit? id = none → u.circuit? id = some c →
    ∃ i now x m, h = .proceed i now ∧ r.calls[i]? = some x ∧ x.handling = .opening m ∧
      r.circuitAt? x.source = none ∧ c = .new r.endpoint.config m.viewer x.source now ∧
      u.circuitAt? x.source = some id ∧
      u.calls[i]? = some { x with handling := .starting id, opened := some id }
  asked : ∀ {i now x m}, h = .proceed i now → r.calls[i]? = some x → x.handling = .opening m →
    (r.circuitAt? x.source = none → ∃ id c, r.circuit? id = none ∧ u.circuit? id = some c) ∧
    ∀ {id}, r.circuitAt? x.source = some id →
      u.calls[i]? = some { x with handling := .handing id }
  untouched : ∀ {id c}, r.circuit? id = some c → (∀ e, ¬r.Turn h id e) → u.circuit? id = some c
  taken : ∀ {id c e}, r.Turn h id e → r.circuit? id = some c →
    u.circuit? id = some (Site.next r.endpoint.conduct e ⟨c, r.endpoint.pool, []⟩).2.circuit ∧
      u.steps = r.steps ++ [(id, e)]
  started : ∀ {i now x id}, h = .proceed i now → r.calls[i]? = some x →
    x.handling = .starting id → u.calls[i]? = some { x with handling := .handing id } ∧
      ∃ c, r.circuit? id = some c ∧ u.circuit? id = some c.started
  handed : ∀ {i now x id}, h = .proceed i now → r.calls[i]? = some x →
    x.handling = .handing id → u.calls[i]? = some { x with handling := .handed id } ∧
      ∃ c, r.circuit? id = some c ∧ u.circuit? id = some (c.handed x.packet)
  alone : ∀ {id c d}, (∀ e, r.Turn h id e → e.IsOwn) → r.circuit? id = some c →
    u.circuit? id = some d → c.LeftAlone d
  entered : ∀ {a id}, u.circuitAt? a = some id → r.circuitAt? a ≠ some id →
    r.circuitAt? a = none ∧ r.circuit? id = none
  left : ∀ {a id}, r.circuitAt? a = some id → u.circuitAt? a ≠ some id →
    u.circuitAt? a = none ∧
      (h = .drain ∨ h = .remove id ∧ ∃ c, r.circuit? id = some c ∧ c.phase = .closed)
  gone : ∀ {a id}, h = .drain ∨ h = .remove id ∧ id ∈ r.seenClosed → u.circuitAt? a ≠ some id

inductive Evolves (r : Reception) (h : Happening) (u : Reception) : Prop
  | made {i now x m} (hh : h = .proceed i now) (call : r.calls[i]? = some x)
      (handling : x.handling = .opening m) (entry : r.circuitAt? x.source = none)
      (hu : u = r.opening i x m now)
  | quiet (idle : ∀ {id e}, r.Turn h id e → r.circuit? id = none)
      (circuits : u.endpoint.circuits = r.endpoint.circuits) (steps : u.steps = r.steps)
      (config : u.endpoint.config = r.endpoint.config)
  | turn {k e c} (turn : r.Turn h k e) (circuit : r.circuit? k = some c)
      (steps : u.steps = r.steps ++ [(k, e)])
      (config : u.endpoint.config = r.endpoint.config)
      (circuits : u.endpoint.circuits = (r.endpoint.step k e).2.2.circuits)

theorem Sound.call {r : Reception} (hs : r.Sound) {i : Nat} {x : Intake} {id : CircuitId}
    (call : r.calls[i]? = some x) (next : x.handling = .starting id ∨ x.handling = .handing id) :
    ∃ c, r.circuit? id = some c := by
  have bound : x.handling.circuit? = some id := by
    rcases next with next | next <;> rw [next] <;> rfl
  obtain ⟨c, hc, -⟩ := (hs.calls (List.mem_of_getElem? call)).circuit bound
  exact ⟨c, hc⟩

theorem Change.evolves {r u : Reception} {h : Happening} (hs : r.Sound) (change : Change r h u) :
    r.Evolves h u := by
  have config (k : CircuitId) (e : Event) := (r.endpoint.step_stepped hs.pool k e).config
  cases change with
  | aside circuits registered nextId config pool done idle => exact .quiet idle circuits rfl config
  | opened call handling entry => exact .made rfl call handling entry rfl
  | @found i now x request id call handling entry =>
    refine .quiet (fun turn => ?_) rfl rfl rfl
    rcases turn.of_call call with ⟨other, -⟩ | ⟨other, -⟩ <;> cases handling.symm.trans other
  | @started i now x k call handling =>
    obtain ⟨c, hc⟩ := hs.call call (.inl handling)
    exact .turn (.start call handling) hc rfl (config k .start) rfl
  | @handed i now x k call handling =>
    obtain ⟨c, hc⟩ := hs.call call (.inr handling)
    exact .turn (.receive call handling) hc rfl (config k _) rfl
  | @stepped k c e own circuit => exact .turn .own circuit rfl (config k e) rfl
  | @removed k seen =>
    obtain ⟨registered, hendpoint, -⟩ := r.endpoint.unregister_eq k
    rw [hendpoint]
    exact .quiet nofun rfl rfl rfl
  | _ => exact .quiet nofun rfl rfl rfl

theorem Change.made {r u : Reception} {h : Happening} (hs : r.Sound) (change : Change r h u)
    {id : CircuitId} {c : Circuit} (hr : r.circuit? id = none) (hu : u.circuit? id = some c) :
    ∃ i now x m, h = .proceed i now ∧ r.calls[i]? = some x ∧ x.handling = .opening m ∧
      r.circuitAt? x.source = none ∧ u = r.opening i x m now ∧ id = r.endpoint.nextId := by
  cases change.evolves hs with
  | @made i now x m hh call handling entry same =>
    subst same
    refine ⟨i, now, x, m, hh, call, handling, entry, rfl, ?_⟩
    by_contra hid
    have old : (r.opening i x m now).circuit? id = r.circuit? id := Table.get?_put_of_ne hid _ _
    cases (old.trans hr).symm.trans hu
  | quiet idle same =>
    rw [circuit?, same] at hu
    cases hr.symm.trans hu
  | @turn k e c turn circuit steps config step =>
    rw [circuit?, step] at hu
    cases ((r.endpoint.step_stepped hs.pool k e).unknown hr).symm.trans hu

theorem Change.untouched {r u : Reception} {h : Happening} (hs : r.Sound) (change : Change r h u)
    {id : CircuitId} {c : Circuit} (hc : r.circuit? id = some c)
    (idle : ∀ e, ¬r.Turn h id e) : u.circuit? id = some c := by
  cases change.evolves hs with
  | @made i now x m hh call handling entry same =>
    subst same
    exact circuit?_opening_of_some hs hc i x m now
  | quiet _ same =>
    rw [circuit?, same]
    exact hc
  | @turn k e d turn circuit steps config step =>
    have hk : id ≠ k := by
      rintro rfl
      exact idle e turn
    rw [circuit?, step]
    exact ((r.endpoint.step_stepped hs.pool k e).others hk).trans hc

/-- A circuit whose turn it is takes the step. -/
theorem Change.taken {r u : Reception} {h : Happening} (hs : r.Sound) (change : Change r h u)
    {id : CircuitId} {c : Circuit} {e : Event} (turn : r.Turn h id e)
    (hc : r.circuit? id = some c) :
    u.circuit? id = some (Site.next r.endpoint.conduct e ⟨c, r.endpoint.pool, []⟩).2.circuit ∧
      u.steps = r.steps ++ [(id, e)] := by
  cases change.evolves hs with
  | made hh call handling =>
    subst hh
    rcases turn.of_call call with ⟨other, -⟩ | ⟨other, -⟩ <;> cases handling.symm.trans other
  | quiet idle => cases (idle turn).symm.trans hc
  | turn other circuit steps config step =>
    obtain ⟨rfl, rfl⟩ := turn.unique other
    rw [circuit?, step]
    exact ⟨Endpoint.step_taken hc _, steps⟩

/-- A circuit that is not started, and not handed a packet, gets neither. -/
theorem Change.alone {r u : Reception} {h : Happening} (hs : r.Sound) (change : Change r h u)
    {id : CircuitId} {c d : Circuit} (own : ∀ e, r.Turn h id e → e.IsOwn)
    (hr : r.circuit? id = some c) (hu : u.circuit? id = some d) : c.LeftAlone d := by
  by_cases turn : ∃ e, r.Turn h id e
  · obtain ⟨e, turn⟩ := turn
    cases (change.taken hs turn hr).1.symm.trans hu
    exact Site.next_own (s := ⟨c, r.endpoint.pool, []⟩) (own e turn) hs.pool r.endpoint.conduct
  · have same := change.untouched hs hr fun e he => turn ⟨e, he⟩
    cases same.symm.trans hu
    exact .refl c

structure Lived (r : Reception) : Prop where
  unborn : ∀ {id}, r.circuit? id = none → stepsOf id r.steps = []
  lives : ∀ {id c}, r.circuit? id = some c →
    ∃ now, (Circuit.new r.endpoint.config c.viewer c.remote now).Lives (stepsOf id r.steps) c

theorem ofConfig_lived (config : Config) : (ofConfig config).Lived where
  unborn _ := rfl
  lives := nofun

theorem Lived.made {r : Reception} (hs : r.Sound) (hl : r.Lived) (i : Nat) (x : Intake)
    (m : UseCircuitCode) (now : Nat) : (r.opening i x m now).Lived where
  unborn {id} hid := by
    have hr : r.circuit? id = none := by
      cases hr : r.circuit? id with
      | none => rfl
      | some c => cases (circuit?_opening_of_some hs hr i x m now).symm.trans hid
    exact hl.unborn hr
  lives {id c} hid := by
    by_cases new : id = r.endpoint.nextId
    · subst new
      cases (circuit?_opening r i x m now).symm.trans hid
      have none : stepsOf r.endpoint.nextId (r.opening i x m now).steps = [] :=
        hl.unborn (hs.fresh (Nat.le_refl _))
      rw [none]
      exact ⟨now, .made⟩
    · exact hl.lives ((Table.get?_put_of_ne new _ _).symm.trans hid)

theorem Lived.turn {r u : Reception} (hs : r.Sound) (hl : r.Lived) {k : CircuitId} {e : Event}
    {c : Circuit} (circuit : r.circuit? k = some c) (steps : u.steps = r.steps ++ [(k, e)])
    (config : u.endpoint.config = r.endpoint.config)
    (circuits : u.endpoint.circuits = (r.endpoint.step k e).2.2.circuits) : u.Lived := by
  have stepped := r.endpoint.step_stepped hs.pool k e
  have circuit? (id : CircuitId) : u.circuit? id = (r.endpoint.step k e).2.2.circuits.get? id := by
    rw [Reception.circuit?, circuits]
  constructor
  · intro id hid
    cases hr : r.circuit? id with
    | none =>
      have hk : k ≠ id := by
        rintro rfl
        cases circuit.symm.trans hr
      rw [steps, stepsOf_append, hl.unborn hr, stepsOf_other id hk, List.append_nil]
    | some d =>
      obtain ⟨_, hd, -⟩ := stepped.becomes hr
      cases ((circuit? id).symm.trans hid).symm.trans hd
  · intro id d hid
    rw [config, steps, stepsOf_append]
    by_cases hk : k = id
    · subst hk
      obtain ⟨now, life⟩ := hl.lives circuit
      have became := Site.next_becomes (s := ⟨c, r.endpoint.pool, []⟩) r.endpoint.conduct e hs.pool
      cases (Endpoint.step_taken circuit e).symm.trans ((circuit? k).symm.trans hid)
      rw [stepsOf_self, became.viewer, became.remote]
      exact ⟨now, life.step e r.endpoint.conduct hs.pool⟩
    · rw [stepsOf_other id hk, List.append_nil]
      exact hl.lives ((stepped.others (Ne.symm hk)).symm.trans ((circuit? id).symm.trans hid))

theorem Change.lived {r u : Reception} {h : Happening} (hs : r.Sound) (hl : r.Lived)
    (change : Change r h u) : u.Lived := by
  cases change.evolves hs with
  | @made i now x m _ _ _ _ same => exact same ▸ hl.made hs i x m now
  | quiet idle circuits steps config =>
    constructor
    · intro id hid
      rw [steps]
      exact hl.unborn (by rwa [circuit?, circuits] at hid)
    · intro id c hid
      rw [steps, config]
      exact hl.lives (by rwa [circuit?, circuits] at hid)
  | turn _ circuit steps config circuits => exact hl.turn hs circuit steps config circuits

theorem follow_lived {r : Reception} (hs : r.Sound) (hl : r.Lived) (happenings : List Happening) :
    (r.follow happenings).Lived := by
  induction happenings generalizing r with
  | nil => exact hl
  | cons h happenings ih => exact ih (next_sound hs h) ((next_changes hs.pool h).lived hs hl)

/-- A circuit has an attendant for each time that it was started. -/
theorem Lived.attended {r : Reception} (hl : r.Lived) (ha : r.Accounts) {id : CircuitId}
    {c : Circuit} (hc : r.circuit? id = some c) :
    c.attendants.length + starters id r.calls = 1 := by
  obtain ⟨now, life⟩ := hl.lives hc
  have attendants : c.attendants.length = 0 + startCount id r.steps := life.length_attendants
  have started := ha.started id
  have made := ha.made id
  rw [hc] at made
  have one : makers id r.calls = 1 := made
  omega

theorem Change.entry {r u : Reception} {h : Happening} (hs : r.Sound) (change : Change r h u)
    (a : Address) :
    u.circuitAt? a = r.circuitAt? a ∨
      r.circuitAt? a = none ∧ u.circuitAt? a = some r.endpoint.nextId ∨
      u.circuitAt? a = none ∧
        (h = .drain ∨ ∃ id ∈ r.seenClosed, h = .remove id ∧ r.circuitAt? a = some id) := by
  have same {e : Endpoint} (registered : e.registered = r.endpoint.registered) :
      e.circuitAt? a = r.circuitAt? a := congrArg (Table.get? a) registered
  cases change with
  | aside _ registered => exact .inl (same registered)
  | @opened i now x m call handling entry =>
    by_cases ha : a = x.source
    · subst ha
      exact .inr (.inl ⟨entry, Table.get?_put_self _ _ _⟩)
    · exact .inl (Table.get?_put_of_ne ha _ _)
  | @started _ _ _ k => exact .inl (same (r.endpoint.step_stepped hs.pool k _).registered)
  | @handed _ _ _ k => exact .inl (same (r.endpoint.step_stepped hs.pool k _).registered)
  | @stepped k c e own => exact .inl (same (r.endpoint.step_stepped hs.pool k e).registered)
  | @removed id seen =>
    rcases r.endpoint.circuitAt?_unregister id a with kept | ⟨gone, entry⟩
    · exact .inl kept
    · exact .inr (.inr ⟨gone, .inr ⟨id, seen, rfl, entry⟩⟩)
  | drained => exact .inr (.inr ⟨rfl, .inl rfl⟩)
  | _ => exact .inl rfl

theorem Sound.circuitAt?_remove {r : Reception} (h : r.Sound) {id : CircuitId}
    (seen : id ∈ r.seenClosed) (a : Address) : (r.remove id).circuitAt? a ≠ some id := by
  intro entry
  rw [remove, if_pos seen] at entry
  rcases r.endpoint.circuitAt?_unregister id a with kept | ⟨lost, -⟩
  · -- the entry stood before, so it is the one that was erased
    have before : r.circuitAt? a = some id := kept.symm.trans entry
    obtain ⟨c, hc, rfl⟩ := h.entry before
    have erased : (r.endpoint.unregister id).circuitAt? c.remote = none :=
      Endpoint.circuitAt?_unregister_self hc before
    cases erased.symm.trans entry
  · cases lost.symm.trans entry

theorem Change.entered {r u : Reception} {h : Happening} (hs : r.Sound) (change : Change r h u)
    {a : Address} {id : CircuitId} (hu : u.circuitAt? a = some id)
    (hr : r.circuitAt? a ≠ some id) : r.circuitAt? a = none ∧ r.circuit? id = none := by
  rcases change.entry hs a with same | ⟨none, new⟩ | ⟨gone, -⟩
  · exact absurd (same.symm.trans hu) hr
  · cases new.symm.trans hu
    exact ⟨none, hs.fresh (Nat.le_refl _)⟩
  · cases gone.symm.trans hu

theorem Change.left {r u : Reception} {h : Happening} (hs : r.Sound) (change : Change r h u)
    {a : Address} {id : CircuitId} (hr : r.circuitAt? a = some id)
    (hu : u.circuitAt? a ≠ some id) :
    u.circuitAt? a = none ∧
      (h = .drain ∨ h = .remove id ∧ ∃ c, r.circuit? id = some c ∧ c.phase = .closed) := by
  rcases change.entry hs a with same | ⟨none, -⟩ | ⟨gone, rfl | ⟨k, seen, rfl, entry⟩⟩
  · exact absurd (same.trans hr) hu
  · cases none.symm.trans hr
  · exact ⟨gone, .inl rfl⟩
  · cases entry.symm.trans hr
    exact ⟨gone, .inr ⟨rfl, hs.seenClosed seen⟩⟩

theorem next_opening {r : Reception} {i : Nat} {x : Intake} {m : UseCircuitCode}
    (call : r.calls[i]? = some x) (handling : x.handling = .opening m)
    (entry : r.circuitAt? x.source = none) (now : Nat) :
    r.next (.proceed i now) = r.opening i x m now := by
  simp [next, proceed, call, handling, entry]

theorem next_found {r : Reception} {i : Nat} {x : Intake} {m : UseCircuitCode} {id : CircuitId}
    (call : r.calls[i]? = some x) (handling : x.handling = .opening m)
    (entry : r.circuitAt? x.source = some id) (now : Nat) :
    r.next (.proceed i now) =
      { r with calls := r.calls.set i { x with handling := .handing id } } := by
  simp [next, proceed, call, handling, entry]

theorem next_keeps {r : Reception} (hs : r.Sound) (h : Happening) : r.Keeps h (r.next h) := by
  have change := next_changes hs.pool h
  constructor
  case made =>
    intro id c hr hu
    obtain ⟨i, now, x, m, hh, call, handling, entry, hnext, rfl⟩ := change.made hs hr hu
    rw [hnext] at hu ⊢
    cases hu.symm.trans (circuit?_opening r i x m now)
    exact ⟨i, now, x, m, hh, call, handling, entry, rfl, Table.get?_put_self _ _ _,
      List.getElem?_set_self (List.getElem?_eq_some_iff.1 call).1⟩
  case asked =>
    rintro i now x m rfl call handling
    refine ⟨fun entry => ?_, fun {id} entry => ?_⟩
    · rw [next_opening call handling entry now]
      exact ⟨r.endpoint.nextId, _, hs.fresh (Nat.le_refl _), circuit?_opening r i x m now⟩
    · rw [next_found call handling entry now]
      exact List.getElem?_set_self (List.getElem?_eq_some_iff.1 call).1
  case untouched =>
    intro id c hc idle
    exact change.untouched hs hc idle
  case taken =>
    intro id c e turn hc
    exact change.taken hs turn hc
  case started =>
    rintro i now x id rfl call handling
    obtain ⟨c, hc⟩ := hs.call call (.inl handling)
    have taken := (change.taken hs (.start call handling) hc).1
    rw [Site.next_start] at taken
    refine ⟨?_, c, hc, taken⟩
    simp only [next, proceed, call, handling]
    exact List.getElem?_set_self (List.getElem?_eq_some_iff.1 call).1
  case handed =>
    rintro i now x id rfl call handling
    obtain ⟨c, hc⟩ := hs.call call (.inr handling)
    have taken := (change.taken hs (.receive call handling) hc).1
    rw [Site.next_receive] at taken
    refine ⟨?_, c, hc, taken⟩
    simp only [next, proceed, call, handling]
    exact List.getElem?_set_self (List.getElem?_eq_some_iff.1 call).1
  case alone =>
    intro id c d own hr hu
    exact change.alone hs own hr hu
  case entered =>
    intro a id hu hr
    exact change.entered hs hu hr
  case left =>
    intro a id hr hu
    exact change.left hs hr hu
  case gone =>
    rintro a id (rfl | ⟨rfl, seen⟩)
    · intro entry
      cases entry
    · exact hs.circuitAt?_remove seen a

/-- What becomes of a datagram, whatever happens after it arrived. A packet from a source with a
circuit is for that one, one that asks for a circuit gets one, and nobody handles any other. -/
structure Routes (r : Reception) (source : Address) (raw : Bytes) (now : Nat) : Prop where
  quiet : (r.next (.arrive source raw now)).endpoint.circuits = r.endpoint.circuits ∧
    (r.next (.arrive source raw now)).endpoint.registered = r.endpoint.registered ∧
    (r.next (.arrive source raw now)).steps = r.steps
  known : ∀ {p id}, Packet.decode raw = .ok p → r.circuitAt? source = some id → ∀ after, ∃ x,
    ((r.next (.arrive source raw now)).follow after).calls[r.calls.length]? = some x ∧
      x.source = source ∧ x.packet = p ∧ x.opened = none ∧ x.handling.circuit? = some id ∧
      (1 ≤ after.countP (·.goesOn r.calls.length) → x.handling = .handed id)
  asking : ∀ {p m}, Packet.decode raw = .ok p → r.circuitAt? source = none →
    p.message = .useCircuitCode m → ∀ after, ∃ x,
    ((r.next (.arrive source raw now)).follow after).calls[r.calls.length]? = some x ∧
      x.source = source ∧ x.packet = p ∧
      (after.countP (·.goesOn r.calls.length) = 0 → x.handling = .opening m) ∧
      (3 ≤ after.countP (·.goesOn r.calls.length) → ∃ id, x.handling = .handed id)
  other : (∀ p, Packet.decode raw = .ok p →
      r.circuitAt? source = none ∧ ∀ m, p.message ≠ .useCircuitCode m) →
    (r.next (.arrive source raw now)).calls = r.calls

theorem Change.quiet {r u : Reception} {source : Address} {raw : Bytes} {now : Nat}
    (change : Change r (.arrive source raw now) u) :
    u.endpoint.circuits = r.endpoint.circuits ∧ u.endpoint.registered = r.endpoint.registered ∧
      u.steps = r.steps := by
  cases change with
  | aside circuits registered => exact ⟨circuits, registered, rfl⟩
  | routed | asked => exact ⟨rfl, rfl, rfl⟩

theorem Change.calls_eq {r u : Reception} {source : Address} {raw : Bytes} {now : Nat}
    (change : Change r (.arrive source raw now) u)
    (h : ∀ p, Packet.decode raw = .ok p →
      r.circuitAt? source = none ∧ ∀ m, p.message ≠ .useCircuitCode m) : u.calls = r.calls := by
  cases change with
  | aside => rfl
  | routed decoded entry => cases (h _ decoded).1.symm.trans entry
  | asked decoded entry asks => exact absurd asks ((h _ decoded).2 _)

theorem arrive_routes {r : Reception} (hs : r.Sound) (source : Address) (raw : Bytes) (now : Nat) :
    r.Routes source raw now := by
  have change := next_changes hs.pool (.arrive source raw now)
  have hu := change.sound hs
  constructor
  case quiet => exact change.quiet
  case known =>
    intro p id decoded entry after
    have arrived : (r.next (.arrive source raw now)).calls[r.calls.length]? =
        some ⟨source, p, .handing id, none⟩ := by
      simp [next, arrive, decoded, entry]
    obtain ⟨x, hx, advance⟩ := follow_advances hu after arrived
    obtain ⟨bound, opened⟩ := advance.bound rfl
    refine ⟨x, hx, advance.source, advance.packet, opened, bound, fun done => ?_⟩
    have finished := advance.togo.trans_eq (Nat.sub_eq_zero_of_le done)
    exact Handling.eq_handed bound (Nat.le_zero.1 finished)
  case asking =>
    intro p m decoded entry asks after
    have arrived : (r.next (.arrive source raw now)).calls[r.calls.length]? =
        some ⟨source, p, .opening m, none⟩ := by
      simp [next, arrive, decoded, entry, asks]
    obtain ⟨x, hx, advance⟩ := follow_advances hu after arrived
    refine ⟨x, hx, advance.source, advance.packet, fun idle => ?_, fun done => ?_⟩
    · rw [advance.idle idle]
    · have finished := advance.togo.trans_eq (Nat.sub_eq_zero_of_le done)
      exact Handling.exists_handed (Nat.le_zero.1 finished)
  case other => exact change.calls_eq

/-- Routing at an endpoint. Entries are circuits of their address, calls know their circuits, and
what circuits went through is what the calls did. Whatever happens next makes a circuit only where
one is asked for and missing, starts it once, and loses an entry only if its own circuit is closed
or the endpoint is shut down; and whatever datagram arrives next gets where it belongs. -/
structure Routed (r : Reception) : Prop where
  entries : ∀ a id, (a, id) ∈ r.endpoint.registered → ∃ c, r.circuit? id = some c ∧ c.remote = a
  calls : ∀ x ∈ r.calls, r.Knows x
  accounts : r.Accounts
  lived : r.Lived
  attended : ∀ id c, r.circuit? id = some c → c.attendants.length + starters id r.calls = 1
  keeps : ∀ h, r.Keeps h (r.next h)
  routes : ∀ source raw now, r.Routes source raw now

theorem calls_are_routed (config : Config) (happenings : List Happening) :
    ((ofConfig config).follow happenings).Routed := by
  have sound := follow_sound (ofConfig_sound config) happenings
  have accounts := follow_accounts (ofConfig_sound config) (ofConfig_accounts config) happenings
  have lived := follow_lived (ofConfig_sound config) (ofConfig_lived config) happenings
  exact ⟨fun _ _ => sound.entries, fun _ => sound.calls, accounts, lived,
    fun _ _ => lived.attended accounts, next_keeps sound, arrive_routes sound⟩

def request : Bytes := [0, 0, 0, 0, 1, 0, 0xFF, 0xFF, 0, 3] ++ List.replicate 36 0

/-- Of two calls that both found no circuit one makes and starts it, and the other one finds it
then. The packets of both wait in its queue. -/
example :
    let source : Address := .v4 .unspecified 1
    let r := (ofConfig {}).follow [.arrive source request 0, .arrive source request 0,
      .proceed 1 0, .proceed 0 0, .proceed 0 0, .proceed 1 0, .proceed 1 0]
    r.endpoint.nextId = 1 ∧ r.calls.map (·.handling) = [.handed 0, .handed 0] ∧
      r.calls.map (·.opened) = [none, some 0] ∧
      (r.circuit? 0).map (·.attendants.length) = some 1 ∧
      (r.circuit? 0).map (·.queue.incoming.map (·.kind)) =
        some [.useCircuitCode, .useCircuitCode] := by
  decide +kernel

/-- A circuit is turned down and the endpoint forgets it. When it is removed at last, its address
belongs to another one. -/
example :
    let source : Address := .v4 .unspecified 1
    let r := (ofConfig {}).follow [.arrive source request 0, .proceed 0 0, .proceed 0 0,
      .step 0 (.authenticated 0 .rejected) trivial, .look 0, .drain,
      .arrive source request 1, .proceed 1 1, .remove 0]
    r.circuitAt? source = some 1 ∧ r.seenClosed = [] ∧
      (r.circuit? 0).map (·.phase) = some .closed ∧
      (r.circuit? 1).map (·.attendants) = some [] := by
  decide +kernel

end Reception
end ViewerCircuit
