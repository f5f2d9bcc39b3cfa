import ViewerCircuit.Proofs.QueueRun

/-!
# Delivery through a queue

Whatever is done to a queue, and in whatever order: the outbound packets of a category leave it in
the order in which they came, each once; the inbound packets leave in their order too, returned by a
look or discarded by a flush; and a closed queue keeps what it holds until it is flushed.
-/
namespace ViewerCircuit

namespace Queue

inductive Exit where
  | returned
  | discarded
  deriving DecidableEq, Repr

def Sorted {τ α : Type} (q : Queue τ α) : Prop := ∀ c, ∀ o ∈ q.outgoing.get c, o.category = c

/-- What was found is the first packet of a category, and is gone; or nothing was found. -/
def TakesFirst {τ α : Type} (q u : Queue τ α) (found : Option Outgoing) : Prop :=
  (∃ c o rest, found = some o ∧ q.outgoing.get c = o :: rest ∧
    u.outgoing = q.outgoing.set c rest) ∨ found = none ∧ u.outgoing = q.outgoing

theorem TakesFirst.sorted {τ α : Type} {q u : Queue τ α} {found : Option Outgoing}
    (h : q.TakesFirst u found) (hs : q.Sorted) : u.Sorted := by
  rcases h with ⟨c, o, rest, -, hget, hu⟩ | ⟨-, hu⟩
  · intro d p hp
    rw [hu] at hp
    by_cases hd : d = c
    · subst hd
      rw [PerCategory.get_set_self] at hp
      exact hs d p (hget ▸ List.mem_cons_of_mem o hp)
    · rw [PerCategory.get_set_of_ne _ hd] at hp
      exact hs d p hp
  · intro d p hp
    rw [hu] at hp
    exact hs d p hp

theorem TakesFirst.filter {τ α : Type} {q u : Queue τ α} {found : Option Outgoing}
    (h : q.TakesFirst u found) (hs : q.Sorted) (d : Category) :
    found.toList.filter (·.category = d) ++ u.outgoing.get d = q.outgoing.get d := by
  rcases h with ⟨c, o, rest, rfl, hget, hu⟩ | ⟨rfl, hu⟩
  · have hcat : o.category = c := hs c o (hget ▸ List.mem_cons_self)
    rw [hu]
    by_cases hd : d = c
    · subst hd
      simp [hcat, hget]
    · rw [PerCategory.get_set_of_ne _ hd]
      simp [hcat, Ne.symm hd]
  · rw [hu]
    rfl

theorem new_sorted {τ α : Type} [Mul α] [Max α] [Amount α] [Clock τ α] {rates : Rates} {burst : τ}
    {minCapacity : Nat} {since : τ} : (new rates burst minCapacity since : Queue τ α).Sorted := by
  intro c o ho
  have empty : (new rates burst minCapacity since : Queue τ α).outgoing.get c = [] :=
    PerCategory.get_all _ c
  rw [empty] at ho
  cases ho

/-- Nothing is left after a flush, which returns each category behind the ones of lower index. -/
theorem flush_spec {τ α : Type} (q : Queue τ α) :
    q.flush.1 = (List.finRange 8).flatMap (fun i => q.outgoing.get (.ofIndex i)) ∧
      q.flush.2.incoming = [] ∧ ∀ c, q.flush.2.outgoing.get c = [] := by
  have order : Category.all = (List.finRange 8).map Category.ofIndex := by decide
  refine ⟨?_, rfl, fun c => PerCategory.get_all _ c⟩
  show (Category.all.map q.outgoing.get).flatten = _
  rw [order, List.map_map, List.flatMap_def]
  rfl

variable {τ α : Type} [Add α] [Sub α] [Mul α] [Div α] [LE α] [DecidableLE α] [Min α]
  [Amount α] [Sub τ] [LE τ] [DecidableLE τ] [Min τ] [Max τ] [Clock τ α]

theorem release_takes (q : Queue τ α) (now : τ) :
    q.TakesFirst (q.release now).2 (q.release now).1.outgoing? := by
  obtain ⟨-, -, ⟨c, o, rest, hfound, hget, hout⟩ | ⟨hquiet, hout⟩⟩ :=
    q.search_spec now q.turn.roundFrom none
  · exact .inl ⟨c, o, rest, congrArg Dequeued.outgoing? hfound, hget, hout⟩
  · refine .inr ⟨?_, hout⟩
    unfold release
    rcases hquiet with ⟨w, h⟩ | h <;> rw [h] <;> rfl

theorem release_kept (q : Queue τ α) (now : τ) : (q.release now).1.incoming? = none ∧
    (q.release now).2.incoming = q.incoming ∧ (q.release now).2.closed = q.closed := by
  obtain ⟨hclosed, hincoming, hfound⟩ := q.search_spec now q.turn.roundFrom none
  refine ⟨?_, hincoming, hclosed⟩
  unfold release
  rcases hfound with ⟨c, o, rest, h, -⟩ | ⟨⟨w, h⟩ | h, -⟩ <;> rw [h] <;> rfl

theorem look_takes (q : Queue τ α) (now : τ) :
    q.TakesFirst (q.look now).2 (q.look now).1.outgoing? := by
  rcases q.look_cases now with ⟨-, h⟩ | ⟨-, ⟨p, rest, -, h⟩ | ⟨-, h⟩⟩ <;> rw [h]
  · exact .inr ⟨rfl, rfl⟩
  · exact .inr ⟨rfl, rfl⟩
  · exact q.release_takes now

theorem waiting_of_released {q : Queue τ α} {op : Op τ} {o : Outgoing}
    (h : q.released? op = some o) : ∃ c, o ∈ q.outgoing.get c := by
  have first : ∀ u, q.TakesFirst u (some o) → ∃ c, o ∈ q.outgoing.get c := by
    rintro u (⟨c, p, rest, hp, hget, -⟩ | ⟨hnone, -⟩)
    · obtain rfl := Option.some.inj hp
      exact ⟨c, hget ▸ List.mem_cons_self⟩
    · cases hnone
  cases op with
  | look now =>
    have taken := q.look_takes now
    rw [show (q.look now).1.outgoing? = some o from h] at taken
    exact first _ taken
  | release now =>
    have taken := q.release_takes now
    rw [show (q.release now).1.outgoing? = some o from h] at taken
    exact first _ taken
  | _ => cases h

theorem look_inbound (q : Queue τ α) (now : τ) :
    (q.look now).1.incoming?.toList ++ (q.look now).2.incoming = q.incoming ∧
      (q.look now).2.closed = q.closed := by
  rcases q.look_cases now with ⟨-, h⟩ | ⟨-, ⟨p, rest, hi, h⟩ | ⟨-, h⟩⟩ <;> rw [h]
  · exact ⟨rfl, rfl⟩
  · exact ⟨hi.symm, rfl⟩
  · obtain ⟨hnone, hincoming, hclosed⟩ := q.release_kept now
    rw [hnone, hincoming]
    exact ⟨rfl, hclosed⟩

theorem look_poison_iff (q : Queue τ α) (now : τ) :
    (q.look now).1 = .poison ↔ q.closed = true := by
  refine ⟨fun h => ?_, fun h => by rw [q.look_closed now h]⟩
  rcases q.look_cases now with ⟨hc, -⟩ | ⟨-, ⟨p, rest, -, hlook⟩ | ⟨-, hlook⟩⟩
  · exact hc
  · rw [hlook] at h
    cases h
  · rw [hlook] at h
    obtain ⟨-, -, ⟨c, o, rest, hfound, -⟩ | ⟨⟨w, hfound⟩ | hfound, -⟩⟩ :=
      q.search_spec now q.turn.roundFrom none
    all_goals
      rw [release, hfound] at h
      cases h

/-- An outbound packet is never found while an inbound one waits. -/
theorem incoming_of_look_outgoing {q : Queue τ α} {now : τ} {o : Outgoing}
    (h : (q.look now).1 = .outgoing o) : q.incoming = [] := by
  rcases q.look_cases now with ⟨-, hlook⟩ | ⟨-, ⟨p, rest, -, hlook⟩ | ⟨hi, -⟩⟩
  · rw [hlook] at h
    cases h
  · rw [hlook] at h
    cases h
  · exact hi

structure Shut (q : Queue τ α) : Prop where
  look : ∀ now, q.look now = (.poison, q)
  close : q.close = q
  enqueue : ∀ o, (q.enqueue o).outgoing.get o.category = q.outgoing.get o.category ++ [o] ∧
    ∀ c, c ≠ o.category → (q.enqueue o).outgoing.get c = q.outgoing.get c
  deliver : ∀ p, (q.deliver p).incoming = q.incoming ++ [p]

theorem shut_of_closed {q : Queue τ α} (h : q.closed = true) : q.Shut where
  look now := q.look_closed now h
  close := if_pos h
  enqueue _ := ⟨PerCategory.get_set_self _ _ _, fun _ hc => PerCategory.get_set_of_ne _ hc _⟩
  deliver _ := rfl

variable [Max α]

def outboundBy (q : Queue τ α) : Op τ → List Outgoing
  | .flush => q.flush.1
  | op => (q.released? op).toList

def inboundBy (q : Queue τ α) : Op τ → List (Packet × Exit)
  | .look now => (q.look now).1.incoming?.toList.map (·, .returned)
  | .flush => q.incoming.map (·, .discarded)
  | _ => []

def outbound (q : Queue τ α) : List (Op τ) → List Outgoing
  | [] => []
  | op :: ops => q.outboundBy op ++ (q.perform op).outbound ops

def inbound (q : Queue τ α) : List (Op τ) → List (Packet × Exit)
  | [] => []
  | op :: ops => q.inboundBy op ++ (q.perform op).inbound ops

variable {q : Queue τ α}

theorem Sorted.perform (h : q.Sorted) (op : Op τ) : (q.perform op).Sorted := by
  cases op with
  | enqueue o =>
    intro c p hp
    by_cases hc : c = o.category
    · subst hc
      simp only [Queue.perform, Queue.enqueue, PerCategory.get_set_self] at hp
      rcases List.mem_append.1 hp with hp | hp
      · exact h _ p hp
      · rw [List.mem_singleton.1 hp]
    · simp only [Queue.perform, Queue.enqueue, PerCategory.get_set_of_ne _ hc] at hp
      exact h c p hp
  | look now => exact (q.look_takes now).sorted h
  | release now => exact (q.release_takes now).sorted h
  | close =>
    intro c p hp
    exact h c p (q.close_outgoing ▸ hp)
  | flush =>
    intro c p hp
    simp only [Queue.perform, Queue.flush, PerCategory.get_all] at hp
    cases hp
  | _ => exact h

theorem Sorted.after (h : q.Sorted) (ops : List (Op τ)) : (q.after ops).Sorted := by
  induction ops generalizing q with
  | nil => exact h
  | cons op ops ih => exact ih (h.perform op)

theorem outboundBy_perform (h : q.Sorted) (op : Op τ) (c : Category) :
    (q.outboundBy op).filter (·.category = c) ++ (q.perform op).outgoing.get c =
      q.outgoing.get c ++ op.enqueued?.toList.filter (·.category = c) := by
  cases op with
  | enqueue o =>
    by_cases hc : c = o.category
    · subst hc
      simp [outboundBy, released?, perform, enqueue, Op.enqueued?]
    · simp [outboundBy, released?, perform, enqueue, Op.enqueued?, Ne.symm hc,
        PerCategory.get_set_of_ne _ hc]
  | look now =>
    refine ((q.look_takes now).filter h c).trans ?_
    simp [Op.enqueued?]
  | release now =>
    refine ((q.release_takes now).filter h c).trans ?_
    simp [Op.enqueued?]
  | close => simp [outboundBy, released?, perform, close_outgoing, Op.enqueued?]
  | flush =>
    simp only [outboundBy, perform, flush, PerCategory.filter_flatten h, PerCategory.get_all]
    rfl
  | deliver | withRates =>
    simp [outboundBy, released?, perform, deliver, withRates, Op.enqueued?]

theorem inboundBy_perform (q : Queue τ α) (op : Op τ) :
    (q.inboundBy op).map Prod.fst ++ (q.perform op).incoming =
      q.incoming ++ op.delivered?.toList := by
  cases op with
  | look now =>
    refine Eq.trans ?_ (List.append_nil _).symm
    rw [← (q.look_inbound now).1]
    simp [inboundBy, perform, Function.comp_def]
  | release now => simp [inboundBy, perform, (q.release_kept now).2.1, Op.delivered?]
  | close => simp [inboundBy, perform, close_incoming, Op.delivered?]
  | flush => simp [inboundBy, perform, flush, Op.delivered?, Function.comp_def]
  | deliver | enqueue | withRates =>
    simp [inboundBy, perform, deliver, enqueue, withRates, Op.delivered?]

theorem closed_perform (q : Queue τ α) (op : Op τ) :
    (q.perform op).closed = true ↔ q.closed = true ∨ op = .close := by
  cases op with
  | look now => simp [perform, (q.look_inbound now).2]
  | release now => simp [perform, (q.release_kept now).2.2]
  | close => simp [perform, close_closed]
  | deliver | enqueue | withRates | flush =>
    simp [perform, deliver, enqueue, withRates, flush]

/-- What left a category, and then what waits in it, is what was there and what came. -/
theorem outbound_after (h : q.Sorted) (ops : List (Op τ)) (c : Category) :
    (q.outbound ops).filter (·.category = c) ++ (q.after ops).outgoing.get c =
      q.outgoing.get c ++ (ops.filterMap Op.enqueued?).filter (·.category = c) := by
  induction ops generalizing q with
  | nil => simp [outbound, after]
  | cons op ops ih =>
    have hcons : (op :: ops).filterMap Op.enqueued? =
        op.enqueued?.toList ++ ops.filterMap Op.enqueued? := by
      cases ho : op.enqueued? <;> simp [ho]
    rw [outbound, List.filter_append, List.append_assoc, after_cons, ih (h.perform op),
      ← List.append_assoc, outboundBy_perform h, hcons, List.filter_append, List.append_assoc]

theorem enqueued_of_waiting (h : q.Sorted) {ops : List (Op τ)} {c : Category} {o : Outgoing}
    (hempty : q.outgoing.get c = []) (ho : o ∈ (q.after ops).outgoing.get c) :
    .enqueue o ∈ ops := by
  have conveyed := outbound_after h ops c
  rw [hempty, List.nil_append] at conveyed
  have hmem : o ∈ (ops.filterMap Op.enqueued?).filter (·.category = c) :=
    conveyed ▸ List.mem_append_right _ ho
  obtain ⟨op, hop, henq⟩ := List.mem_filterMap.1 (List.mem_filter.1 hmem).1
  cases op with
  | enqueue p =>
    obtain rfl := Option.some.inj henq
    exact hop
  | _ => cases henq

theorem inbound_after (q : Queue τ α) (ops : List (Op τ)) :
    (q.inbound ops).map Prod.fst ++ (q.after ops).incoming =
      q.incoming ++ ops.filterMap Op.delivered? := by
  induction ops generalizing q with
  | nil => simp [inbound, after]
  | cons op ops ih =>
    have hcons : (op :: ops).filterMap Op.delivered? =
        op.delivered?.toList ++ ops.filterMap Op.delivered? := by
      cases ho : op.delivered? <;> simp [ho]
    rw [inbound, List.map_append, List.append_assoc, after_cons, ih, ← List.append_assoc,
      inboundBy_perform, hcons, List.append_assoc]

theorem closed_after (q : Queue τ α) (ops : List (Op τ)) :
    (q.after ops).closed = true ↔ q.closed = true ∨ .close ∈ ops := by
  induction ops generalizing q with
  | nil => simp [after]
  | cons op ops ih =>
    rw [after_cons, ih, closed_perform, List.mem_cons, or_assoc, @eq_comm _ op]

/-- What a queue that was empty and open makes of the operations `ops`. What left a category in the
order of leaving, and then what waits in it, is what was enqueued for it, each packet once. Inbound
packets come first, and are returned or discarded in the order in which they came. -/
structure Conveys (q : Queue τ α) (ops : List (Op τ)) : Prop where
  outbound : ∀ c, (q.outbound ops).filter (·.category = c) ++ (q.after ops).outgoing.get c =
    (ops.filterMap Op.enqueued?).filter (·.category = c)
  inbound : (q.inbound ops).map Prod.fst ++ (q.after ops).incoming = ops.filterMap Op.delivered?
  precedence : ∀ {before now later o}, ops = before ++ .look now :: later →
    ((q.after before).look now).1 = .outgoing o → (q.after before).incoming = []
  poison : ∀ {before now later}, ops = before ++ .look now :: later →
    (((q.after before).look now).1 = .poison ↔ .close ∈ before)
  shut : ∀ {before later}, ops = before ++ later → .close ∈ before → (q.after before).Shut
  flush : ∀ {before later}, ops = before ++ .flush :: later →
    (q.after before).flush.1 = (List.finRange 8).flatMap (fun i =>
      ((before.filterMap Op.enqueued?).filter (·.category = .ofIndex i)).drop
        ((q.outbound before).filter (·.category = .ofIndex i)).length) ∧
      (q.after before).flush.2.incoming = [] ∧
      ∀ c, (q.after before).flush.2.outgoing.get c = []

/-- Over any operations in any order, a new queue delivers what it is given. -/
theorem new_conveys (rates : Rates) (burst : τ) (minCapacity : Nat) (since : τ)
    (ops : List (Op τ)) : (new rates burst minCapacity since : Queue τ α).Conveys ops := by
  obtain ⟨q, hq⟩ : ∃ q : Queue τ α, new rates burst minCapacity since = q := ⟨_, rfl⟩
  have empty : ∀ c, q.outgoing.get c = [] := fun c => hq ▸ PerCategory.get_all _ c
  have sorted : q.Sorted := hq ▸ new_sorted
  have conveyed : ∀ (ops : List (Op τ)) (c : Category),
      (q.outbound ops).filter (·.category = c) ++ (q.after ops).outgoing.get c =
        (ops.filterMap Op.enqueued?).filter (·.category = c) := by
    intro ops c
    rw [outbound_after sorted, empty, List.nil_append]
  have closed : ∀ ops : List (Op τ), (q.after ops).closed = true ↔ .close ∈ ops := by
    intro ops
    rw [closed_after, ← hq]
    simp [new]
  rw [hq]
  constructor
  · exact conveyed ops
  · rw [inbound_after, ← hq]
    rfl
  · intro before now later o _ hfound
    exact incoming_of_look_outgoing hfound
  · intro before now later _
    rw [look_poison_iff, closed]
  · intro before later _ hclose
    exact shut_of_closed ((closed before).2 hclose)
  · intro before later _
    obtain ⟨hall, hin, hout⟩ := (q.after before).flush_spec
    have waiting : ∀ c, (q.after before).outgoing.get c =
        ((before.filterMap Op.enqueued?).filter (·.category = c)).drop
          ((q.outbound before).filter (·.category = c)).length := by
      intro c
      rw [← conveyed before, List.drop_left]
    exact ⟨by simp only [hall, waiting], hin, hout⟩

end Queue
end ViewerCircuit
