import ViewerCircuit.Proofs.CourseRun
import ViewerCircuit.Proofs.DoubleConversions
import ViewerCircuit.Proofs.QueueSearch

/-!
# Granted rates

A viewer that reports budgets gets rates within the configured bounds, whatever it reports. There is
one exception: a zero that is multiplied by infinity is not a number, and what is not a number is no
rate. Otherwise no budget of a circuit is ever zero.
-/
namespace ViewerCircuit

open Rounding

structure ThrottleSettings.Sound (config : ThrottleSettings) : Prop where
  multiplier : 0 < config.multiplier
  positive : config.minRate ≠ 0
  bounds : config.minRate ≤ config.maxRate
  initial : ∀ c, config.initialRates.get c ≠ 0

namespace ThrottleSettings

variable {config : ThrottleSettings} {bits : F32} {rate : Float}

theorem sound_of_validate (h : config.validate.isOk = true) : config.Sound := by
  unfold validate at h
  split at h
  · cases h
  next multiplier =>
  split at h
  · cases h
  next bounds =>
  split at h
  · cases h
  next none =>
  obtain ⟨positive, ordered⟩ := not_or.1 bounds
  refine ⟨not_not.1 multiplier, positive, UInt32.not_lt.1 ordered, fun c => ?_⟩
  simpa using List.find?_eq_none.1 none c c.mem_all

/-- The product of what is reported and the multiplier is not a number. -/
def Undefined (config : ThrottleSettings) (bits : F32) : Prop :=
  config.multiplier.isInf = true ∧ bits.IsZero

instance : Decidable (config.Undefined bits) := inferInstanceAs (Decidable (_ ∧ _))

theorem rank_bound (bound : UInt32) : rank (Float.ofNat bound.toNat) = bound.toNat := by
  rw [rank_ofNat, rounded_natCast (bound.toNat_lt.trans (by decide))]

theorem bound_lt (bound : UInt32) : (bound.toNat : ℚ) < 2 ^ 32 := by
  exact_mod_cast bound.toNat_lt

theorem bound_le (bound : UInt32) : (bound.toNat : ℚ) ≤ limit :=
  ((bound_lt bound).trans (two_pow_lt_limit (by decide))).le

/-- A number is moved into the bounds, and rounded down. -/
theorem toNat_clamp (bounds : config.minRate ≤ config.maxRate) (h : rank rate ≤ limit) :
    (config.clamp rate).toNat =
      ⌊max (config.minRate.toNat : ℚ) (min (rank rate) config.maxRate.toNat)⌋₊ := by
  have ordered : (config.minRate.toNat : ℚ) ≤ config.maxRate.toNat := by
    exact_mod_cast UInt32.le_iff_toNat_le.1 bounds
  have low := rank_bound config.minRate
  have high := rank_bound config.maxRate
  have top := bound_lt config.maxRate
  have least : (0 : ℚ) ≤ config.minRate.toNat := Nat.cast_nonneg _
  unfold clamp
  dsimp only
  split_ifs with hlow hhigh
  · have below : rank rate ≤ config.minRate.toNat := low ▸ (lt_iff.1 hlow).1.le
    rw [max_eq_left (min_le_of_left_le below), ← low]
    exact toNat_toUInt32 (by rw [low]; exact least) (by rw [low]; exact ordered.trans_lt top)
  · have above : (config.maxRate.toNat : ℚ) ≤ rank rate := high ▸ (lt_iff.1 hhigh).1.le
    rw [min_eq_right above, max_eq_right ordered, ← high]
    exact toNat_toUInt32 (by rw [high]; exact least.trans ordered) (by rw [high]; exact top)
  · rw [lt_iff, low, and_iff_left (bound_le _), not_lt] at hlow
    rw [lt_iff, high, and_iff_left h, not_lt] at hhigh
    rw [min_eq_left hhigh, max_eq_right hlow]
    exact toNat_toUInt32 (least.trans hlow) (hhigh.trans_lt top)

theorem clamp_bounds (bounds : config.minRate ≤ config.maxRate) (h : rank rate ≤ limit) :
    config.minRate ≤ config.clamp rate ∧ config.clamp rate ≤ config.maxRate := by
  have ordered : (config.minRate.toNat : ℚ) ≤ config.maxRate.toNat := by
    exact_mod_cast UInt32.le_iff_toNat_le.1 bounds
  rw [UInt32.le_iff_toNat_le, UInt32.le_iff_toNat_le, toNat_clamp bounds h]
  exact ⟨Nat.le_floor (le_max_left _ _),
    Nat.floor_le_of_le (max_le ordered (min_le_right _ _))⟩

/-- What is not a number is not below and not above the bounds. -/
theorem clamp_notANumber (h : rate.toModel.unpack = .notANumber) : config.clamp rate = 0 := by
  have place := rank_notANumber h
  have beyond := limit_pos
  have low : ¬ rate < Float.ofNat config.minRate.toNat := by
    rw [lt_iff, place, rank_bound]
    have := bound_le config.minRate
    rintro ⟨below, -⟩
    linarith
  have high : ¬ Float.ofNat config.maxRate.toNat < rate := by
    rw [lt_iff, place]
    rintro ⟨-, number⟩
    linarith
  unfold clamp
  dsimp only
  rw [if_neg low, if_neg high]
  exact toUInt32_notANumber h

namespace Sound

theorem rank_multiplier (h : config.Sound) :
    0 < rank config.multiplier ∧ rank config.multiplier ≤ limit := by
  obtain ⟨above, number⟩ := lt_iff.1 h.multiplier
  exact ⟨rank_ofNat_zero.symm.trans_lt above, number⟩

/-- A multiplier is a number or positive infinity. -/
theorem multiplier_cases (h : config.Sound) :
    config.multiplier.toModel.unpack = .infinity .positive ∧ config.multiplier.isInf = true ∨
      |rank config.multiplier| < limit ∧ config.multiplier.isInf = false := by
  obtain ⟨above, number⟩ := h.rank_multiplier
  rcases nonneg_cases above.le with hnan | hinf | hfinite
  · rw [rank_notANumber hnan] at number
    linarith [limit_pos]
  · exact .inl ⟨hinf, isInf_iff.2 ⟨_, hinf⟩⟩
  · refine .inr ⟨hfinite, Bool.eq_false_of_not_eq_true fun hinf => ?_⟩
    obtain ⟨s, hs⟩ := isInf_iff.1 hinf
    rw [rank_infinity hs, abs_factor, abs_of_pos limit_pos] at hfinite
    exact lt_irrefl _ hfinite

end Sound

/-- What is reported becomes a number, except for what is undefined. -/
theorem bytesPerSecond_spec (h : config.Sound) (bits : F32) :
    (config.Undefined bits → (config.bytesPerSecond bits).toModel.unpack = .notANumber) ∧
      (¬ config.Undefined bits → rank (config.bytesPerSecond bits) ≤ limit) := by
  unfold bytesPerSecond
  split
  · next y hy =>
    obtain ⟨small, eighth⟩ := F32.rank_toFloat_eighth hy
    have zero : rank (y / 8) = 0 ↔ bits.IsZero := by
      rw [eighth, div_eq_zero_iff, or_iff_left (by norm_num), F32.value_eq_zero_iff]
    rcases h.multiplier_cases with ⟨hinf, infinite⟩ | ⟨hfinite, finite⟩
    · rw [Undefined, infinite, eq_self, true_and, ← zero]
      rcases mul_infinity_cases small hinf with ⟨nothing, undefined⟩ | ⟨some, s, unbounded⟩
      · exact ⟨fun _ => undefined, fun other => absurd nothing other⟩
      · refine ⟨fun nothing => absurd nothing some, fun _ => ?_⟩
        rw [rank_infinity unbounded]
        rcases factor_cases s with hs | hs <;> rw [hs] <;> linarith [limit_pos]
    · refine ⟨fun undefined => ?_, fun _ => ?_⟩
      · exact absurd (undefined.1.symm.trans finite) (by decide)
      · rw [rank_mul small hfinite]
        exact rounded_le _
  · next none =>
    refine ⟨fun undefined => ?_, fun _ => ?_⟩
    · rw [F32.toFloat?, if_pos undefined.2.isFinite] at none
      cases none
    · exact rank_ofNat_zero.trans_le limit_pos.le

def Allots (config : ThrottleSettings) (bits : F32) (rate : UInt32) : Prop :=
  if config.Undefined bits then rate = 0 else config.minRate ≤ rate ∧ rate ≤ config.maxRate

theorem Sound.allots (h : config.Sound) (bits : F32) :
    config.Allots bits (config.clamp (config.bytesPerSecond bits)) := by
  obtain ⟨undefined, number⟩ := bytesPerSecond_spec h bits
  unfold Allots
  split
  · next hu => exact clamp_notANumber (undefined hu)
  · next hu => exact clamp_bounds h.bounds (number hu)

end ThrottleSettings

namespace Rates

variable {config : ThrottleSettings} {rates next : Rates} {block : Bytes} {c : Category}

theorem requestable_iff (c : Category) : c.index.val < Category.requestable ↔ c ≠ .unknown := by
  cases c <;> decide

/-- What follows behind the reported numbers is not read. -/
theorem reportedRate_append (long : throttleBlockLength ≤ block.length) (more : Bytes)
    (hc : c ≠ .unknown) : reportedRate (block ++ more) c = reportedRate block c := by
  have place := (requestable_iff c).2 hc
  have room : 4 * c.index.val + 4 ≤ block.length := by
    have : 4 * Category.requestable ≤ block.length := long
    omega
  have same : ((block ++ more).drop (4 * c.index)).take 4 = (block.drop (4 * c.index)).take 4 := by
    rw [List.drop_append_of_le_length (by omega), List.take_append_of_le_length]
    rw [List.length_drop]
    omega
  rw [reportedRate, reportedRate, same]

theorem grant_short (short : block.length < throttleBlockLength) :
    rates.grant block config = .error (.blockTooShort block.length) := if_pos short

theorem grant_eq (h : config.Sound) (long : throttleBlockLength ≤ block.length) :
    rates.grant block config = .ok (.ofFn fun c =>
      if c.index.val < Category.requestable then
        config.clamp (config.bytesPerSecond (reportedRate block c))
      else rates.get c) := by
  rw [grant, if_neg (by omega), if_neg (UInt32.not_lt.2 h.bounds)]

theorem grant_append (h : config.Sound) (rates : Rates)
    (long : throttleBlockLength ≤ block.length) (more : Bytes) :
    rates.grant (block ++ more) config = rates.grant block config := by
  rw [grant_eq h long, grant_eq h (by rw [List.length_append]; omega)]
  congr 2
  funext c
  split
  · next place => rw [reportedRate_append long more ((requestable_iff c).1 place)]
  · rfl

/-- A complete block is granted, whatever it reports. -/
theorem exists_grant (h : config.Sound) (rates : Rates)
    (long : throttleBlockLength ≤ block.length) :
    ∃ next, rates.grant block config = .ok next ∧ next.get .unknown = rates.get .unknown ∧
      ∀ c, c ≠ .unknown → config.Allots (reportedRate block c) (next.get c) := by
  refine ⟨_, grant_eq h long, PerCategory.get_ofFn _ _, fun c hc => ?_⟩
  rw [PerCategory.get_ofFn, if_pos ((requestable_iff c).2 hc)]
  exact h.allots _

/-- One block after the other makes these rates of those. -/
def Regranted (config : ThrottleSettings) : Rates → Rates → Prop :=
  Relation.ReflTransGen fun rates next => ∃ block, rates.grant block config = .ok next

/-- A rate that was granted, or is the one that a circuit starts with. Only an infinite multiplier
leads to zero. -/
def Permits (config : ThrottleSettings) (c : Category) (rate : UInt32) : Prop :=
  rate = config.initialRates.get c ∨ c ≠ .unknown ∧
    (config.minRate ≤ rate ∧ rate ≤ config.maxRate ∨
      config.multiplier.isInf = true ∧ rate = 0)

/-- A block keeps the last category, and all others are permitted afterwards. -/
theorem grant_permits (h : config.Sound) (hp : ∀ c, Permits config c (rates.get c))
    (hg : rates.grant block config = .ok next) (c : Category) :
    Permits config c (next.get c) := by
  have long : throttleBlockLength ≤ block.length := by
    by_contra short
    cases (grant_short (not_le.1 short)).symm.trans hg
  obtain ⟨granted, hgranted, kept, allots⟩ := exists_grant h rates long
  obtain rfl := Except.ok.inj (hgranted.symm.trans hg)
  by_cases hc : c = .unknown
  · rw [hc, kept]
    exact hp .unknown
  · have allotted := allots c hc
    unfold ThrottleSettings.Allots at allotted
    split at allotted
    · next undefined => exact .inr ⟨hc, .inr ⟨undefined.1, allotted⟩⟩
    · exact .inr ⟨hc, .inl allotted⟩

theorem Regranted.permits (h : config.Sound) (hr : Regranted config config.initialRates rates)
    (c : Category) : Permits config c (rates.get c) := by
  induction hr generalizing c with
  | refl => exact .inl rfl
  | tail _ step ih =>
    obtain ⟨block, hg⟩ := step
    exact grant_permits h ih hg c

theorem Permits.pos (h : config.Sound) (finite : config.multiplier.isInf = false) {rate : UInt32}
    (hp : Permits config c rate) : 0 < rate := by
  rw [UInt32.pos_iff_ne_zero]
  rintro rfl
  rcases hp with initial | ⟨-, ⟨above, -⟩ | ⟨infinite, -⟩⟩
  · exact h.initial c initial.symm
  · exact h.positive (UInt32.le_zero_iff.1 above)
  · exact absurd (infinite.symm.trans finite) (by decide)

end Rates

namespace Queue

theorem rates_of_buckets {τ α : Type} {q u : Queue τ α} (h : u.buckets = q.buckets) :
    u.rates = q.rates := by
  rw [rates, rates, h]

theorem rates_close (q : Queue Nat Float) : q.close.rates = q.rates :=
  rates_of_buckets q.close_buckets

theorem rates_new (rates : Rates) (burst minCapacity now : Nat) :
    (new rates burst minCapacity now : Queue Nat Float).rates = rates := by
  refine PerCategory.ext fun c => ?_
  rw [rates_get, new_get, Bucket.new]

theorem rates_withRates (q : Queue Nat Float) (rates : Rates) (now : Nat) :
    (q.withRates rates now).rates = rates := by
  refine PerCategory.ext fun c => ?_
  rw [rates_get, withRates_get, Bucket.withRate]

theorem rates_release (q : Queue Nat Float) (now : Nat) : (q.release now).2.rates = q.rates := by
  refine PerCategory.ext fun c => ?_
  have refilled := ((q.buckets.get c).refill_spec now).1
  rw [rates_get, rates_get, release]
  rcases search_bucket now q.turn.roundFrom none q c with
    ⟨o, rest, paid, -, -, consumed, hu⟩ | ⟨-, hu | hu⟩
  · rw [hu, ← refilled]
    unfold Bucket.consume? at consumed
    split at consumed
    · rw [← Option.some.inj consumed]
    · cases consumed
  · rw [hu]
  · rw [hu, refilled]

theorem rates_look (q : Queue Nat Float) (now : Nat) : (q.look now).2.rates = q.rates := by
  rcases q.look_cases now with ⟨-, h⟩ | ⟨-, ⟨p, rest, -, h⟩ | ⟨-, h⟩⟩ <;> rw [h]
  · rfl
  · exact q.rates_release now

end Queue

namespace Site

open Rates (Regranted)

variable {given : Packet → Prop} {pauses ends : Prop} {s u v : Site}

def allowance (s : Site) : ThrottleSettings × Rates :=
  (s.circuit.config.throttle, s.circuit.queue.rates)

theorem allowance_send (p : Packet) (category : Category) (s : Site) :
    (s.send p category).2.allowance = s.allowance := by
  unfold send
  split
  · rfl
  · dsimp only
    split <;> rfl

theorem allowance_blind : Blind allowance where
  draw _ _ := rfl
  send := allowance_send
  requeue _ _ := rfl
  ackState _ _ := rfl
  duplicates _ _ := rfl

theorem allowance_close (reason : CloseReason) (s : Site) :
    (s.close reason).allowance = s.allowance := by
  unfold allowance
  rw [close_circuit]
  exact congrArg (Prod.mk _) s.circuit.queue.rates_close

theorem allowance_transmit (now : Nat) (linkUp : Bool) (o : Outgoing) (s : Site) :
    (s.transmit now linkUp o).2.allowance = s.allowance := by
  cases linkUp <;> rfl

theorem allowance_withRemaining (i : AttendantId) (joined : Bool) (remaining : List Outgoing)
    (s : Site) : (s.update (·.withRemaining i joined remaining)).allowance = s.allowance := by
  unfold Circuit.withRemaining
  dsimp only
  split <;> rfl

def Regrants (s u : Site) : Prop :=
  u.allowance.1 = s.allowance.1 ∧ Regranted s.allowance.1 s.allowance.2 u.allowance.2

namespace Regrants

theorem of_same (h : u.allowance = s.allowance) : Regrants s u := by
  rw [Regrants, h]
  exact ⟨rfl, .refl⟩

theorem trans (h : Regrants s u) (k : Regrants u v) : Regrants s v :=
  ⟨k.1.trans h.1, h.2.trans (h.1 ▸ k.2)⟩

end Regrants

theorem Deed.regrants (h : Deed given pauses ends s u) : Regrants s u := by
  cases h with
  | send => exact .of_same (allowance_send _ _ s)
  | close => exact .of_same (allowance_close _ s)
  | @throttle block rates now hg =>
    refine ⟨rfl, .single ⟨block, ?_⟩⟩
    exact hg.trans (congrArg Except.ok (Queue.rates_withRates _ rates now).symm)
  | _ => exact .of_same rfl

theorem Does.regrants (h : Does (fun _ => True) True True s u) (hs : s.pool.Sound) : Regrants s u :=
  h.invariant (motive := Regrants s) hs (.of_same rfl) fun _ _ deed ih => ih.trans deed.regrants

theorem process_regrants (conduct : Conduct) (now : Nat) (p : Packet)
    (hs : s.pool.Sound) : Regrants s (s.process conduct now p) := by
  obtain ⟨u, hu, hcircuit, -, does⟩ :=
    process_does conduct.gives_any (fun _ => trivial) now s
  have same : u.allowance = s.allowance := by
    unfold allowance
    rw [hcircuit]
  exact (Regrants.of_same same).trans (does.regrants (hu ▸ hs))

theorem serve_regrants (conduct : Conduct) (i : AttendantId) (now : Nat) (linkUp : Bool)
    (hs : s.pool.Sound) : Regrants s (s.serve conduct i now linkUp) := by
  have kept := s.circuit.queue.rates_look now
  unfold serve
  generalize s.circuit.queue.look now = found at kept
  obtain ⟨item, queue⟩ := found
  have looked : Regrants s (s.update fun c => { c with queue }) :=
    .of_same (congrArg (Prod.mk _) kept)
  cases item with
  | incoming p => exact looked.trans (process_regrants conduct now p hs)
  | outgoing o =>
    have sent := looked.trans (.of_same (allowance_transmit now linkUp o _))
    dsimp only
    split
    · exact sent
    · exact sent.trans (.of_same (allowance_close _ _))
  | _ => exact looked

theorem beginFlush_allowance (i : AttendantId) (joined : Bool) (s : Site) :
    (s.beginFlush i joined).allowance = s.allowance := by
  have acked : s.sendOwedAcks.allowance = s.allowance := allowance_blind.sendAckChunks _ s
  have flushed : (s.sendOwedAcks.update fun c => { c with
      queue := s.sendOwedAcks.circuit.queue.flush.2 }).allowance = s.sendOwedAcks.allowance := rfl
  unfold beginFlush
  exact (allowance_withRemaining _ _ _ _).trans (flushed.trans acked)

theorem leave_allowance (i : AttendantId) (joined : Bool) (s : Site) :
    (s.leave i joined).allowance = s.allowance := by
  unfold leave
  dsimp only
  split <;> rfl

theorem onVerdict_allowance (i : AttendantId) (verdict : Verdict) (s : Site) :
    (s.onVerdict i verdict).allowance = s.allowance := by
  cases verdict with
  | authorized login =>
    unfold onVerdict
    dsimp only
    split <;> rfl
  | _ => exact congrArg (Prod.mk _) s.circuit.queue.rates_close

/-- Whatever happens to a circuit, its rates are changed by throttle blocks only. -/
theorem next_regrants (conduct : Conduct) (e : Event) (hs : s.pool.Sound) :
    Regrants s (s.next conduct e).2 := by
  have performed : Performed (fun _ => True) True True conduct s e _ :=
    next_performed conduct.gives_any e.gives_any s
  generalize (s.next conduct e).2 = u at performed ⊢
  cases performed with
  | verdict => exact .of_same (onVerdict_allowance _ _ s)
  | serve => exact serve_regrants conduct _ _ _ hs
  | finish => exact .of_same (beginFlush_allowance _ _ s)
  | flush =>
    exact .of_same ((allowance_withRemaining _ _ _ _).trans (allowance_transmit _ _ _ s))
  | leave => exact .of_same (leave_allowance _ _ s)
  | ackTick => exact .of_same (allowance_blind.ackTick _ s)
  | silent does =>
    have counted : Regrants s
        (s.update fun c => { c with probeFailures := c.probeFailures + 1 }) := .of_same rfl
    exact counted.trans (does.regrants hs)
  | call does => exact does.regrants hs
  | idle | start | joined | heard | stopAckTimer | stopProbeTimer | turnAway | accept | settings =>
    exact .of_same rfl

theorem move_regrants (m : Move) (hs : s.pool.Sound) : Regrants s (s.move m) := by
  cases m with
  | step conduct e => exact next_regrants conduct e hs
  | draw | takeBack => exact .of_same rfl

theorem follow_regrants (moves : List Move) (hs : s.pool.Sound) : Regrants s (s.follow moves) := by
  induction moves using List.reverseRecOn with
  | nil => exact .of_same rfl
  | append_singleton moves m ih =>
    rw [follow_snoc]
    exact ih.trans (move_regrants m (follow_sound hs moves))

/-- In a run, every rate stays as it was set up, or is one that was granted. -/
theorem follow_permits {config : Config} (h : config.throttle.Sound) (viewer : Viewer)
    (remote : Address) (since : Nat) (moves : List Move) (c : Category) :
    Rates.Permits config.throttle c
      (((opened config viewer remote since).follow moves).circuit.queue.rates.get c) := by
  have regranted := (follow_regrants moves (opened_sound config viewer remote since)).2
  have initial : (opened config viewer remote since).allowance =
      (config.throttle, config.throttle.initialRates) :=
    congrArg (Prod.mk _) (Queue.rates_new _ _ _ _)
  rw [initial] at regranted
  exact regranted.permits h c

theorem applyThrottles_short {block : Bytes} (short : block.length < throttleBlockLength)
    (now : Nat) (s : Site) :
    s.applyThrottles block now = (some (.blockTooShort block.length), s) := by
  rw [applyThrottles, Rates.grant_short short]

theorem applyThrottles_granted {block : Bytes} {rates : Rates} {s : Site}
    (h : s.circuit.queue.rates.grant block s.circuit.config.throttle = .ok rates) (now : Nat) :
    (s.applyThrottles block now).1 = none ∧
      (s.applyThrottles block now).2.circuit.queue.rates = rates := by
  rw [applyThrottles, h]
  exact ⟨rfl, s.circuit.queue.rates_withRates rates now⟩

end Site

namespace Config

open Site (opened sample)

/-- What throttle blocks can make of the rates of a circuit. Each reported category gets the rate
that its number allots, and the last one keeps its own. Throughout a run, a rate is the initial one
or within the bounds, or it is zero and the multiplier infinite. -/
structure BoundsRates (config : Config) : Prop where
  refused : ∀ (s : Site) (block : Bytes) (now : Nat), block.length < throttleBlockLength →
    s.circuit.queue.rates.grant block config.throttle = .error (.blockTooShort block.length) ∧
      s.applyThrottles block now = (some (.blockTooShort block.length), s)
  granted : ∀ (s : Site) (block : Bytes) (now : Nat), throttleBlockLength ≤ block.length →
    s.circuit.config = config → ∃ rates,
      s.circuit.queue.rates.grant block config.throttle = .ok rates ∧
      rates.get .unknown = s.circuit.queue.rates.get .unknown ∧
      (∀ c, c ≠ .unknown → config.throttle.Allots (reportedRate block c) (rates.get c)) ∧
      (s.applyThrottles block now).1 = none ∧
      (s.applyThrottles block now).2.circuit.queue.rates = rates
  trailing : ∀ (rates : Rates) (block more : Bytes), throttleBlockLength ≤ block.length →
    rates.grant (block ++ more) config.throttle = rates.grant block config.throttle
  run : ∀ (viewer : Viewer) (remote : Address) (since : Nat) (moves : List Move) (c : Category),
    Rates.Permits config.throttle c
      (((opened config viewer remote since).follow moves).circuit.queue.rates.get c)
  positive : config.throttle.multiplier.isInf = false →
    ∀ (viewer : Viewer) (remote : Address) (since : Nat) (moves : List Move) (c : Category),
      0 < ((opened config viewer remote since).follow moves).circuit.queue.rates.get c

/-- With settings that are accepted, whatever a viewer reports leads to rates within the bounds;
only zeros that are multiplied by infinity lead to the rate zero. -/
theorem rates_are_bounded (config : Config) (h : config.throttle.validate.isOk = true) :
    config.BoundsRates := by
  have sound := ThrottleSettings.sound_of_validate h
  constructor
  · intro s block now short
    exact ⟨Rates.grant_short short, s.applyThrottles_short short now⟩
  · rintro s block now long rfl
    obtain ⟨rates, granted, kept, allots⟩ := Rates.exists_grant sound s.circuit.queue.rates long
    exact ⟨rates, granted, kept, allots, Site.applyThrottles_granted granted now⟩
  · intro rates block more long
    exact Rates.grant_append sound rates long more
  · intro viewer remote since moves c
    exact Site.follow_permits sound viewer remote since moves c
  · intro finite viewer remote since moves c
    exact (Site.follow_permits sound viewer remote since moves c).pos sound finite

/-- What is not a number, both infinities, a negative number, the least and the greatest positive
one, 160000, and a byte too many. -/
def oddBlock : Bytes := [0x01, 0x00, 0xC0, 0x7F, 0x00, 0x00, 0x80, 0x7F, 0x00, 0x00, 0x80, 0xFF,
  0x00, 0x50, 0x43, 0xC8, 0x01, 0x00, 0x00, 0x00, 0xFF, 0xFF, 0x7F, 0x7F, 0x00, 0x40, 0x1C, 0x48,
  0x07]

theorem rates_are_bounded_oddBlock : ({} : Config).throttle.validate.isOk = true ∧
    BoundsRates {} ∧ (Rates.grant (.all 777) oddBlock ({} : Config).throttle).toOption =
      some ⟨#v[1000, 1000, 1000, 1000, 1000, 1000000, 20000, 777]⟩ :=
  ⟨by decide +kernel, rates_are_bounded {} (by decide +kernel), by decide +kernel⟩

def boundless : Config :=
  let config := sample.circuit.config
  { config with throttle := { config.throttle with multiplier := Float.ofBits 0x7FF0000000000000 } }

/-- A block of zeros, and the rates of a circuit that takes it: they are not within the bounds. -/
theorem boundless_grants_zero : boundless.Valid ∧
    (Rates.grant (.all 777) (List.replicate 28 0) boundless.throttle).toOption =
      some ⟨#v[0, 0, 0, 0, 0, 0, 0, 777]⟩ ∧
    ((opened boundless ⟨.zero, .zero, 1⟩ (.v4 .unspecified 1) 0).follow
      [.step {} (.applyThrottles (List.replicate 28 0) 0)]).circuit.queue.rates.get .resend = 0 ∧
    ¬ boundless.throttle.minRate ≤ 0 := by
  unfold Valid
  decide +kernel

end Config
end ViewerCircuit
