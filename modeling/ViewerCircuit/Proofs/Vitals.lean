import ViewerCircuit.Proofs.Service

/-!
# Signs of life

What a circuit knows of the life of its viewer changes when it is probed and when a packet is
processed. No other step touches it, whatever its calls and handlers do.
-/
namespace ViewerCircuit

def Effect.isProcessed : Effect → Bool
  | processed _ _ => true
  | _ => false

structure Vitals where
  config : Config
  heard : Bool
  failures : UInt32
  processed : List Effect

def Vitals.hear (e : Effect) (v : Vitals) : Vitals :=
  { v with heard := true, failures := 0, processed := v.processed ++ [e] }

namespace Site

def vitals (s : Site) : Vitals where
  config := s.circuit.config
  heard := s.circuit.heard
  failures := s.circuit.probeFailures
  processed := s.history.filter Effect.isProcessed

variable {s u : Site}

theorem vitals_aside : Aside True vitals where
  emit {e} he s := by
    have unseen : e.isProcessed = false := by
      cases e with
      | processed => cases (he rfl).2
      | _ => rfl
    simp [vitals, Site.emit, history, unseen]
  kept he h := by simp [vitals, history, he, h.config, h.heard, h.failures]

theorem vitals_transmit (now : Nat) (linkUp : Bool) (o : Outgoing) (s : Site) :
    (s.transmit now linkUp o).2.vitals = s.vitals := by
  unfold vitals
  rw [transmit_history, List.filter_append]
  cases linkUp <;> simp [transmit, update, emit, Effect.isProcessed]

theorem process_vitals (conduct : Conduct) (now : Nat) (p : Packet) (hs : s.pool.Sound) :
    (s.process conduct now p).vitals = s.vitals.hear (.processed p now) := by
  obtain ⟨u, hu, hcircuit, hhistory, does⟩ :=
    process_does conduct.gives_any (fun _ => trivial) now s
  have heard : u.history.filter Effect.isProcessed =
      s.history.filter Effect.isProcessed ++ [.processed p now] := by
    rw [hhistory, List.filter_append]
    congr 1
    split <;> split <;> rfl
  rw [vitals_aside.does does (hu ▸ hs)]
  unfold Site.vitals Vitals.hear
  rw [hcircuit, heard]

/-- Every step but a probe processes one packet at most, and tells nothing else of the viewer. -/
theorem next_vitals {e : Event} (conduct : Conduct) (he : e.isProbe = false)
    (hs : s.pool.Sound) : (s.next conduct e).2.vitals = s.vitals ∨
      ∃ p now, (s.next conduct e).2.vitals = s.vitals.hear (.processed p now) := by
  rcases vitals_aside.next conduct he hs with same | works
  · exact .inl same
  generalize (s.next conduct e).2 = u at works
  cases works with
  | @process conduct i now linkUp p rest _ _ _ =>
    refine .inr ⟨p, now, ?_⟩
    exact process_vitals (s := s.update fun c => { c with
      queue := { s.circuit.queue with incoming := rest } }) conduct now p hs
  | @release conduct i now linkUp queue c o rest =>
    have sent := vitals_transmit now linkUp o (s.update fun c => { c with queue })
    refine .inl ?_
    unfold released
    split
    · exact sent
    · exact (vitals_aside.close _ _).trans sent
  | @flush conduct i now linkUp joined o rest =>
    exact .inl ((vitals_aside.withRemaining _ _ _ _).trans (vitals_transmit now linkUp o s))

end Site
end ViewerCircuit
