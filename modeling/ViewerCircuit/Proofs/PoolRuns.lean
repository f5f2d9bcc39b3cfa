import Mathlib.Data.List.Induction
import ViewerCircuit.Proofs.PooledPackets

/-!
# Runs of a packet pool

Nobody who draws packets from a pool, gives them back or lends them can tell whether the pool keeps
any. Each loan ends once: its packet goes back to the pool, or was taken out before.
-/
namespace ViewerCircuit.PacketPool

inductive Op where
  | draw (kind : MessageKind)
  | drawFor (message : Message)
  | takeBack (p : Packet)
  | lend (p : Packet)
  | change (loan : Nat) (f : Packet → Packet)
  | drop (loan : Nat)
  | keep (loan : Nat)

/-- A packet changes hands; a loan is named if it ends thereby. -/
inductive Deal where
  | drawn (p : Packet)
  | released (loan : Option Nat) (p : Packet)
  | kept (loan : Nat) (p : Packet)
  deriving DecidableEq, Repr

def Op.fresh? : Op → Option Packet
  | draw kind => some (.ofMessage (.empty kind))
  | drawFor message => some (.ofMessage message)
  | _ => none

def Op.draws (op : Op) : Bool := op.fresh?.isSome

namespace Deal

def drawn? : Deal → Option Packet
  | drawn p => some p
  | _ => none

def releases (i : Nat) : Deal → Bool
  | released loan _ => loan = some i
  | _ => false

def keeps (i : Nat) : Deal → Bool
  | kept loan _ => loan = i
  | _ => false

end Deal

structure Desk where
  pool : PacketPool
  loans : List Loan := []
  deals : List Deal := []

namespace Desk

/-- A loan that was never made is like one that was ended. -/
def loan (d : Desk) (i : Nat) : Loan := d.loans[i]?.getD ⟨none⟩

def holds (d : Desk) (i : Nat) : Option Packet := (d.loan i).packet

def settle (i : Nat) (deal : Packet → Deal) (d : Desk) : Desk where
  pool := d.pool
  loans := d.loans.modify i (·.take.2)
  deals := d.deals ++ ((d.holds i).map deal).toList

def serve (d : Desk) : Op → Desk
  | .draw kind =>
    let (p, pool) := d.pool.draw kind
    { d with pool, deals := d.deals ++ [.drawn p] }
  | .drawFor message =>
    let (p, pool) := d.pool.drawFor message
    { d with pool, deals := d.deals ++ [.drawn p] }
  | .takeBack p =>
    { d with pool := d.pool.takeBack p, deals := d.deals ++ [.released none p] }
  | .lend p => { d with loans := d.loans ++ [PacketPool.lend p] }
  | .change i f => { d with loans := d.loans.modify i (·.change f) }
  | .drop i => { d.settle i (.released (some i)) with pool := d.pool.drop (d.loan i) }
  | .keep i => { d.settle i (.kept i) with pool := d.pool.drop (d.loan i).take.2 }

def run (enabled : Bool) (maxPerKind : Nat) (ops : List Op) : Desk :=
  ops.foldl serve { pool := { enabled, maxPerKind } }

/-- How often the loan was ended, and whether it still goes on. -/
def tally (d : Desk) (i : Nat) : Nat :=
  d.deals.countP (·.releases i) + d.deals.countP (·.keeps i) + (d.holds i).toList.length

end Desk

structure Stocked (enabled : Bool) (maxPerKind draws : Nat) (pool : PacketPool) : Prop where
  enabled_eq : pool.enabled = enabled
  maxPerKind_eq : pool.maxPerKind = maxPerKind
  sound : pool.Sound
  room : ∀ kind, (pool.pooled kind).length ≤ maxPerKind
  unknown : pool.pooled .unknown = []
  counted : pool.hits + pool.misses = draws
  missed : enabled = false → pool.hits = 0

/-- With this deal the loan ends, and `pool` is what is left. -/
structure Ends (i : Nat) (deal : Deal) (pool : PacketPool) (d e : Desk) : Prop where
  deals : e.deals = d.deals ++ [deal]
  pool : e.pool = pool
  gone : e.holds i = none

variable {enabled : Bool} {maxPerKind draws : Nat} {pool : PacketPool} {d e : Desk} {op : Op}
  {ops : List Op}

theorem draw_cases (pool : PacketPool) (kind : MessageKind) :
    (∃ p rest, pool.serves kind = true ∧ pool.pooled kind = p :: rest ∧
      (pool.draw kind).2 =
        { pool with packets := pool.packets.put kind rest, hits := pool.hits + 1 }) ∨
      (pool.draw kind).2 = { pool with misses := pool.misses + 1 } := by
  unfold draw
  split
  · next p rest hserves hpooled => exact .inl ⟨p, rest, hserves, hpooled, rfl⟩
  · exact .inr rfl

theorem takeBack_cases (pool : PacketPool) (p : Packet) :
    (pool.serves p.kind = true ∧ (pool.pooled p.kind).length < pool.maxPerKind ∧
      pool.takeBack p =
        { pool with packets := pool.packets.put p.kind (p.reset :: pool.pooled p.kind) }) ∨
      pool.takeBack p = pool := by
  unfold takeBack
  split
  · next hserves =>
    dsimp only
    split
    · next hroom => exact .inl ⟨hserves, hroom, rfl⟩
    · exact .inr rfl
  · exact .inr rfl

theorem known_of_serves {kind : MessageKind} (h : pool.serves kind = true) :
    pool.enabled = true ∧ MessageKind.unknown ≠ kind := by
  obtain ⟨henabled, hkind⟩ := Bool.and_eq_true_iff.1 h
  exact ⟨henabled, fun he => bne_iff_ne.1 hkind he.symm⟩

namespace Stocked

theorem empty (enabled : Bool) (maxPerKind : Nat) :
    Stocked enabled maxPerKind 0 { enabled, maxPerKind } := by
  constructor
  · rfl
  · rfl
  · exact empty_sound enabled maxPerKind
  · intro kind
    exact Nat.zero_le maxPerKind
  · rfl
  · rfl
  · intro _
    rfl

theorem draw (h : Stocked enabled maxPerKind draws pool) (kind : MessageKind) :
    Stocked enabled maxPerKind (draws + 1) (pool.draw kind).2 := by
  have hsound : (pool.draw kind).2.Sound := (draw_fresh h.sound kind).2
  have hcounted := h.counted
  rcases pool.draw_cases kind with ⟨p, rest, hserves, hpooled, hdraw⟩ | hdraw
  · obtain ⟨henabled, hkind⟩ := known_of_serves hserves
    rw [hdraw] at hsound ⊢
    constructor
    · exact h.enabled_eq
    · exact h.maxPerKind_eq
    · exact hsound
    · intro other
      rw [pooled_put]
      split
      · have hroom := h.room kind
        rw [hpooled, List.length_cons] at hroom
        omega
      · exact h.room other
    · rw [pooled_put, if_neg hkind]
      exact h.unknown
    · dsimp only
      omega
    · intro hdisabled
      rw [h.enabled_eq, hdisabled] at henabled
      cases henabled
  · rw [hdraw] at hsound ⊢
    refine ⟨h.enabled_eq, h.maxPerKind_eq, hsound, h.room, h.unknown, ?_, h.missed⟩
    dsimp only
    omega

theorem takeBack (h : Stocked enabled maxPerKind draws pool) (p : Packet) :
    Stocked enabled maxPerKind draws (pool.takeBack p) := by
  have hsound : (pool.takeBack p).Sound := takeBack_sound h.sound p
  rcases pool.takeBack_cases p with ⟨hserves, hroom, htaken⟩ | htaken
  · obtain ⟨-, hkind⟩ := known_of_serves hserves
    rw [htaken] at hsound ⊢
    rw [h.maxPerKind_eq] at hroom
    refine ⟨h.enabled_eq, h.maxPerKind_eq, hsound, ?_, ?_, h.counted, h.missed⟩
    · intro other
      rw [pooled_put]
      split
      · exact hroom
      · exact h.room other
    · rw [pooled_put, if_neg hkind]
      exact h.unknown
  · rw [htaken]
    exact h

theorem drop (h : Stocked enabled maxPerKind draws pool) (loan : Loan) :
    Stocked enabled maxPerKind draws (pool.drop loan) := by
  unfold PacketPool.drop
  split
  · exact h.takeBack _
  · exact h

end Stocked

namespace Desk

theorem run_snoc (enabled : Bool) (maxPerKind : Nat) (ops : List Op) (op : Op) :
    run enabled maxPerKind (ops ++ [op]) = (run enabled maxPerKind ops).serve op := by
  rw [run, List.foldl_append]
  rfl

theorem holds_settle (deal : Packet → Deal) (d : Desk) (i j : Nat) :
    (d.settle i deal).holds j = if i = j then none else d.holds j := by
  unfold holds loan settle
  rw [List.getElem?_modify]
  cases d.loans[j]? with
  | none => simp
  | some loan => by_cases h : i = j <;> simp [h, Loan.take]

theorem holds_change (d : Desk) (i j : Nat) (f : Packet → Packet) :
    (d.serve (.change i f)).holds j = if i = j then (d.holds j).map f else d.holds j := by
  unfold holds loan serve
  rw [List.getElem?_modify]
  cases d.loans[j]? with
  | none => simp
  | some loan => by_cases h : i = j <;> simp [h, Loan.change]

theorem holds_lend (d : Desk) (p : Packet) (j : Nat) :
    (d.serve (.lend p)).holds j = if j = d.loans.length then some p else d.holds j := by
  unfold holds loan serve
  rcases Nat.lt_trichotomy j d.loans.length with h | rfl | h
  · rw [List.getElem?_append_left h, if_neg (Nat.ne_of_lt h)]
  · rw [List.getElem?_concat_length, if_pos rfl]
    rfl
  · have hlength : (d.loans ++ [PacketPool.lend p]).length ≤ j := by
      rw [List.length_append]
      exact h
    rw [if_neg (Nat.ne_of_gt h), List.getElem?_eq_none hlength,
      List.getElem?_eq_none (Nat.le_of_lt h)]

theorem holds_of_length_le {i : Nat} (h : d.loans.length ≤ i) : d.holds i = none := by
  rw [holds, loan, List.getElem?_eq_none h]
  rfl

/-- The loan ends, by going back or by being taken out. -/
theorem tally_settle {deal : Packet → Deal} (d : Desk) (i j : Nat)
    (hdeal : ∀ p, [deal p].countP (·.releases j) + [deal p].countP (·.keeps j) =
      if i = j then 1 else 0) :
    (d.settle i deal).tally j = d.tally j := by
  unfold tally
  rw [holds_settle]
  simp only [settle, List.countP_append]
  cases hi : d.holds i with
  | none =>
    by_cases h : i = j
    · subst h
      simp [hi]
    · simp [h]
  | some p =>
    have hp := hdeal p
    rw [Option.map_some, Option.toList_some]
    by_cases h : i = j
    · subst h
      rw [if_pos rfl] at hp ⊢
      rw [hi]
      simp only [Option.toList_none, Option.toList_some, List.length_nil, List.length_singleton]
      omega
    · rw [if_neg h] at hp ⊢
      omega

theorem tally_drawn (d : Desk) (pool : PacketPool) (p : Packet) (i : Nat) :
    tally { d with pool, deals := d.deals ++ [.drawn p] } i = d.tally i := by
  simp [tally, holds, loan, Deal.releases, Deal.keeps]

/-- A new loan goes on. -/
theorem tally_lend (p : Packet) (h : ∀ i, d.tally i = if i < d.loans.length then 1 else 0)
    (i : Nat) :
    (d.serve (.lend p)).tally i = if i < (d.serve (.lend p)).loans.length then 1 else 0 := by
  have hlength : (d.serve (.lend p)).loans.length = d.loans.length + 1 := List.length_append
  have hdeals : (d.serve (.lend p)).deals = d.deals := rfl
  have hi := h i
  rw [hlength]
  unfold tally at hi ⊢
  rw [holds_lend, hdeals]
  by_cases he : i = d.loans.length
  · rw [if_pos he, if_pos (by omega), Option.toList_some, List.length_singleton]
    rw [holds_of_length_le (Nat.le_of_eq he.symm), if_neg (by omega), Option.toList_none,
      List.length_nil] at hi
    omega
  · rw [if_neg he, hi]
    by_cases hlt : i < d.loans.length
    · rw [if_pos hlt, if_pos (by omega)]
    · rw [if_neg hlt, if_neg (by omega)]

/-- A loan that was made goes on, or was ended once. -/
theorem tally_serve (op : Op) (h : ∀ i, d.tally i = if i < d.loans.length then 1 else 0) (i : Nat) :
    (d.serve op).tally i = if i < (d.serve op).loans.length then 1 else 0 := by
  cases op with
  | draw kind => exact (tally_drawn d _ _ i).trans (h i)
  | drawFor message => exact (tally_drawn d _ _ i).trans (h i)
  | takeBack p =>
    have hloans : (d.serve (.takeBack p)).loans = d.loans := rfl
    rw [hloans, ← h i]
    simp [tally, holds, loan, serve, Deal.releases, Deal.keeps]
  | lend p => exact tally_lend p h i
  | change j f =>
    have hlength : (d.serve (.change j f)).loans.length = d.loans.length := List.length_modify ..
    rw [hlength, ← h i]
    unfold tally
    rw [holds_change]
    split
    · cases d.holds i <;> rfl
    · rfl
  | drop j =>
    have hlength : (d.serve (.drop j)).loans.length = d.loans.length := List.length_modify ..
    rw [hlength, ← h i]
    refine tally_settle d j i fun p => ?_
    simp [Deal.releases, Deal.keeps]
  | keep j =>
    have hlength : (d.serve (.keep j)).loans.length = d.loans.length := List.length_modify ..
    rw [hlength, ← h i]
    refine tally_settle d j i fun p => ?_
    simp [Deal.releases, Deal.keeps]

theorem stocked_serve (op : Op) (h : Stocked enabled maxPerKind draws d.pool) :
    Stocked enabled maxPerKind (draws + [op].countP Op.draws) (d.serve op).pool := by
  cases op with
  | draw kind => exact h.draw kind
  | drawFor message => exact h.draw message.kind
  | takeBack p => exact h.takeBack p
  | lend p => exact h
  | change i f => exact h
  | drop i => exact h.drop (d.loan i)
  | keep i => exact h

theorem fresh_serve (op : Op) (h : d.pool.Sound) : (d.serve op).deals.filterMap Deal.drawn? =
    d.deals.filterMap Deal.drawn? ++ [op].filterMap Op.fresh? := by
  have settled : ∀ {i deal}, (∀ p, Deal.drawn? (deal p) = none) →
      (d.settle i deal).deals.filterMap Deal.drawn? = d.deals.filterMap Deal.drawn? ++ [] := by
    intro i deal hdeal
    unfold settle
    rw [List.filterMap_append]
    cases d.holds i with
    | none => rfl
    | some p => simp [hdeal]
  cases op with
  | draw kind =>
    have hfresh := (draw_fresh h kind).1
    simp [serve, hfresh, Deal.drawn?, Op.fresh?]
  | drawFor message =>
    have hfresh := (drawFor_fresh h message).1
    simp [serve, hfresh, Deal.drawn?, Op.fresh?]
  | takeBack p => exact List.filterMap_append
  | lend p => exact (List.append_nil _).symm
  | change i f => exact (List.append_nil _).symm
  | drop i => exact settled fun p => rfl
  | keep i => exact settled fun p => rfl

/-- What a pool holds makes no difference to its users. -/
theorem alike_serve (op : Op) (hd : d.pool.Sound) (he : e.pool.Sound) (hloans : d.loans = e.loans)
    (hdeals : d.deals = e.deals) :
    (d.serve op).loans = (e.serve op).loans ∧ (d.serve op).deals = (e.serve op).deals := by
  have hholds : ∀ i, d.holds i = e.holds i := by
    intro i
    rw [holds, holds, loan, loan, hloans]
  cases op with
  | draw kind =>
    refine ⟨hloans, ?_⟩
    simp only [serve, hdeals, (draw_fresh hd kind).1, (draw_fresh he kind).1]
  | drawFor message =>
    refine ⟨hloans, ?_⟩
    simp only [serve, hdeals, (drawFor_fresh hd message).1, (drawFor_fresh he message).1]
  | _ => simp only [serve, settle, hloans, hdeals, hholds, and_self]

/-- What a run leaves, and what the same run leaves where nothing is pooled. -/
structure Served (enabled : Bool) (maxPerKind : Nat) (ops : List Op) (d e : Desk) : Prop where
  stocked : Stocked enabled maxPerKind (ops.countP Op.draws) d.pool
  bare : Stocked false maxPerKind (ops.countP Op.draws) e.pool
  fresh : d.deals.filterMap Deal.drawn? = ops.filterMap Op.fresh?
  once : ∀ i, d.tally i = if i < d.loans.length then 1 else 0
  loans : d.loans = e.loans
  deals : d.deals = e.deals

theorem Served.serve (h : Served enabled maxPerKind ops d e) (op : Op) :
    Served enabled maxPerKind (ops ++ [op]) (d.serve op) (e.serve op) := by
  obtain ⟨hloans, hdeals⟩ := alike_serve op h.stocked.sound h.bare.sound h.loans h.deals
  constructor
  · rw [List.countP_append]
    exact stocked_serve op h.stocked
  · rw [List.countP_append]
    exact stocked_serve op h.bare
  · rw [fresh_serve op h.stocked.sound, h.fresh, List.filterMap_append]
  · exact tally_serve op h.once
  · exact hloans
  · exact hdeals

theorem run_served (enabled : Bool) (maxPerKind : Nat) (ops : List Op) :
    Served enabled maxPerKind ops (run enabled maxPerKind ops) (run false maxPerKind ops) := by
  induction ops using List.reverseRecOn with
  | nil =>
    refine ⟨.empty enabled maxPerKind, .empty false maxPerKind, rfl, ?_, rfl, rfl⟩
    intro i
    rfl
  | append_singleton ops op ih =>
    rw [run_snoc, run_snoc]
    exact ih.serve op

theorem ends_drop {i : Nat} {p : Packet} (h : d.holds i = some p) :
    Ends i (.released (some i) p) (d.pool.takeBack p) d (d.serve (.drop i)) := by
  constructor
  · simp only [serve, settle, h, Option.map_some, Option.toList_some]
  · have htaken : (d.loan i).take.1 = some p := h
    simp only [serve, drop, htaken]
  · exact (holds_settle (.released (some i)) d i i).trans (if_pos rfl)

theorem ends_keep {i : Nat} {p : Packet} (h : d.holds i = some p) :
    Ends i (.kept i p) d.pool d (d.serve (.keep i)) := by
  constructor
  · simp only [serve, settle, h, Option.map_some, Option.toList_some]
  · rfl
  · exact (holds_settle (.kept i) d i i).trans (if_pos rfl)

end Desk

/-- The users of a pool cannot tell how it is set up, and it keeps only what it may keep. Every draw
gives what a new packet would have been, and every loan ends once at most. -/
structure Unobservable (enabled : Bool) (maxPerKind : Nat) (ops : List Op) (d : Desk) : Prop where
  fresh : d.deals.filterMap Deal.drawn? = ops.filterMap Op.fresh?
  unseen : d.deals = (Desk.run false maxPerKind ops).deals
  once : ∀ i, d.deals.countP (·.releases i) + d.deals.countP (·.keeps i) +
    (d.holds i).toList.length = if i < d.loans.length then 1 else 0
  dropped : ∀ {before i later u p}, ops = before ++ .drop i :: later →
    Desk.run enabled maxPerKind before = u → u.holds i = some p →
      Ends i (.released (some i) p) (u.pool.takeBack p) u
        (Desk.run enabled maxPerKind (before ++ [.drop i]))
  kept : ∀ {before i later u p}, ops = before ++ .keep i :: later →
    Desk.run enabled maxPerKind before = u → u.holds i = some p →
      Ends i (.kept i p) u.pool u (Desk.run enabled maxPerKind (before ++ [.keep i]))
  own : ∀ kind, ∀ p ∈ d.pool.pooled kind, p = .ofMessage (.empty kind)
  room : ∀ kind, (d.pool.pooled kind).length ≤ maxPerKind
  unknown : d.pool.pooled .unknown = []
  counted : d.pool.hits + d.pool.misses = ops.countP Op.draws
  missed : enabled = false → d.pool.hits = 0

/-- Packets come out of a pool as if they were new, whatever was done to them and to others. -/
theorem pool_is_unobservable (enabled : Bool) (maxPerKind : Nat) (ops : List Op) :
    Unobservable enabled maxPerKind ops (Desk.run enabled maxPerKind ops) := by
  have served := Desk.run_served enabled maxPerKind ops
  refine ⟨served.fresh, served.deals, served.once, ?_, ?_, served.stocked.sound,
    served.stocked.room, served.stocked.unknown, served.stocked.counted, served.stocked.missed⟩
  · intro before i later u p _ hu hp
    rw [Desk.run_snoc, hu]
    exact Desk.ends_drop hp
  · intro before i later u p _ hu hp
    rw [Desk.run_snoc, hu]
    exact Desk.ends_keep hp

end ViewerCircuit.PacketPool
