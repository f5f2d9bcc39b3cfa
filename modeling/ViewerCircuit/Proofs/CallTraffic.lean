import ViewerCircuit.Proofs.Deeds
import ViewerCircuit.Proofs.PacketArrival
import ViewerCircuit.Proofs.QueueRun

/-!
# The traffic of calls

Whatever calls and handlers do to a circuit is a sequence of steps of its traffic. All that is
assumed is that pooled packets are fresh.
-/
namespace ViewerCircuit

open Relation (ReflTransGen)

namespace Site

/-- The traffic gets from one site to the other by such steps, and pooled packets stay fresh. -/
def Leads (R : Traffic → Traffic → Prop) (s u : Site) : Prop :=
  s.pool.Sound → u.pool.Sound ∧ ReflTransGen R s.traffic u.traffic

section

variable {R : Traffic → Traffic → Prop} {s u v : Site}

namespace Leads

theorem refl (s : Site) : Leads R s s := fun hs => ⟨hs, .refl⟩

theorem trans (h : Leads R s u) (k : Leads R u v) : Leads R s v := by
  intro hs
  obtain ⟨hu, su⟩ := h hs
  obtain ⟨hv, uv⟩ := k hu
  exact ⟨hv, su.trans uv⟩

theorem of_eq (hp : u.pool = s.pool) (ht : u.traffic = s.traffic) : Leads R s u := by
  intro hs
  rw [hp, ht]
  exact ⟨hs, .refl⟩

theorem of_step (hp : u.pool = s.pool) (ht : R s.traffic u.traffic) :
    Leads R s u := by
  intro hs
  rw [hp]
  exact ⟨hs, .single ht⟩

theorem mono {Q : Traffic → Traffic → Prop} (h : Leads R s u) (hq : ∀ t w, R t w → Q t w) :
    Leads Q s u := by
  intro hs
  obtain ⟨hu, su⟩ := h hs
  exact ⟨hu, ReflTransGen.mono hq _ _ su⟩

end Leads

end

open Traffic (Call)

variable {given : Packet → Prop} {s u v : Site}

theorem traffic_emit (e : Effect) (s : Site) : (s.emit e).traffic = s.traffic.log e := by
  simp [emit, traffic, Traffic.log]

theorem traffic_recycle (p : Packet) (s : Site) :
    (s.recycle p).traffic = s.traffic.log (.recycled p) := by
  simp [recycle, traffic, Traffic.log]

theorem emit_leads {e : Effect} (h : e.isNote) (s : Site) : Leads (Call given) s (s.emit e) :=
  .of_step rfl (by rw [traffic_emit]; exact .note h)

theorem recycle_leads (p : Packet) (s : Site) : Leads (Call given) s (s.recycle p) := by
  intro hs
  refine ⟨PacketPool.takeBack_sound hs p, ?_⟩
  rw [traffic_recycle]
  exact .single (.note rfl)

theorem turnAway_leads (p : Packet) (h : s.circuit.phase = .closed) :
    Leads (Call given) s (s.emit (.turnedAway p)) :=
  .of_step rfl (by rw [traffic_emit]; exact .turnAway h)

/-- A packet without acks has none in its datagram, so acks can be appended later. -/
theorem bare_of_encode {p : Packet} {bytes : Bytes} (ha : p.acks = []) (he : p.encode = .ok bytes) :
    Datagram.IsBare bytes := by
  obtain ⟨rest, rfl, hrest⟩ := Packet.encode_head he
  refine ⟨_, bigEndian 4 p.sequence.toNat ++ rest, rfl, by simp [hrest], ?_⟩
  rw [Flags.ofByte_toByte]
  simp [Packet.wireFlags, ha]

/-- The site with the packet queued as these bytes, and back in the pool. -/
def queueing (numbered : Packet) (bytes : Bytes) (category : Category) (s : Site) : Site where
  circuit := { s.circuit with
    sequences := s.circuit.sequences.next.2
    queue := s.circuit.queue.enqueue (.ofPacket numbered bytes category) }
  pool := s.pool.takeBack numbered
  effects := .queued (.ofPacket numbered bytes category) :: .recycled numbered :: s.effects

theorem traffic_queueing (numbered : Packet) (bytes : Bytes) (category : Category) (s : Site) :
    (s.queueing numbered bytes category).traffic =
      ((s.traffic.log (.recycled numbered)).push (.ofPacket numbered bytes category)).log
        (.queued (.ofPacket numbered bytes category)) := by
  simp [queueing, traffic, Traffic.log, Traffic.push, Queue.enqueue]

theorem history_queueing (numbered : Packet) (bytes : Bytes) (category : Category) (s : Site) :
    (s.queueing numbered bytes category).history =
      s.history ++ [.recycled numbered, .queued (.ofPacket numbered bytes category)] := by
  simp [queueing, history]

/-- A packet that can be written is queued, and nothing else happens. -/
theorem send_written {p numbered : Packet} {bytes : Bytes} (category : Category)
    (hphase : s.circuit.phase ≠ .closed)
    (hn : { p with sequence := s.circuit.sequences.next.1 } = numbered)
    (he : numbered.encode = .ok bytes) :
    (s.send p category).2 = s.queueing numbered bytes category := by
  unfold send
  rw [if_neg hphase]
  dsimp only
  rw [hn, he]
  rfl

theorem send_of_encode {p : Packet} {s : Site} {bytes : Bytes} (category : Category)
    (hphase : s.circuit.phase ≠ .closed) {numbered : Packet}
    (hn : { p with sequence := s.circuit.sequences.next.1 } = numbered)
    (he : numbered.encode = .ok bytes) :
    (s.send p category).2.pool = s.pool.takeBack numbered ∧
      (s.send p category).2.traffic =
        ((s.traffic.log (.recycled numbered)).push (.ofPacket numbered bytes category)).log
          (.queued (.ofPacket numbered bytes category)) := by
  rw [send_written category hphase hn he]
  exact ⟨rfl, traffic_queueing numbered bytes category s⟩

theorem send_turned (category : Category) (p : Packet) (hphase : s.circuit.phase = .closed) :
    (s.send p category).2.history = s.history ++ [.recycled p, .turnedAway p] := by
  unfold send
  rw [if_pos hphase]
  simp [emit, recycle, history]

/-- One draft is sent in one packet from the pool. -/
theorem say_one (hs : s.pool.Sound) (d : Draft) : ∃ pool : PacketPool, pool.Sound ∧
    (s.say [d]).2 = (({ s with pool } : Site).send d.packet d.category).2 := by
  obtain ⟨pool, hpool, said⟩ := say_fresh hs [d]
  refine ⟨pool, hpool, ?_⟩
  rw [said, List.map_singleton]
  unfold sendAll
  split
  · next u hu => rw [hu, sendAll]
  · next u hu => rw [hu]

theorem delivery_ofPacket (p : Packet) (bytes : Bytes) (category : Category) :
    (Outgoing.ofPacket p bytes category).delivery ≠ .resend := by
  unfold Outgoing.ofPacket
  split <;> simp

theorem send_leads {p : Packet} (hp : p.IsPlain ∨ given p)
    (category : Category) (s : Site) : Leads (Call given) s (s.send p category).2 := by
  by_cases hphase : s.circuit.phase = .closed
  · unfold send
    rw [if_pos hphase]
    exact (recycle_leads p s).trans (turnAway_leads p hphase)
  · obtain ⟨numbered, hn⟩ :
      ∃ numbered, { p with sequence := s.circuit.sequences.next.1 } = numbered := ⟨_, rfl⟩
    cases he : numbered.encode with
    | error e =>
      unfold send
      rw [if_neg hphase]
      dsimp only
      rw [hn, he]
      exact emit_leads (e := .unwritable numbered e) rfl
        (s.update fun c => { c with sequences := _ })
    | ok bytes =>
      obtain ⟨hpool, htraffic⟩ := send_of_encode category hphase hn he
      intro hs
      rw [hpool, htraffic]
      exact ⟨PacketPool.takeBack_sound hs _,
        .tail (.single (.note rfl)) (.queue hphase hp hn he)⟩

theorem close_leads (reason : CloseReason) (s : Site) : Leads (Call given) s (s.close reason) := by
  refine .of_step rfl ?_
  have ht : (s.close reason).traffic = Traffic.log (.closeCalled reason) { s.traffic with
      phase := if s.traffic.phase.isEnding then s.traffic.phase else .closing
      closeReason := if s.traffic.phase.isEnding then s.traffic.closeReason else some reason
      closed := true } := by
    rw [close, traffic_emit]
    cases he : s.circuit.phase.isEnding <;>
      simp [update, traffic, he, Queue.close_closed, Queue.close_incoming, Queue.close_outgoing]
  rw [ht]
  exact .close

theorem Deed.leads {pauses ends : Prop} (h : Deed given pauses ends s u) :
    Leads (Call given) s u := by
  cases h with
  | @remark e he _ =>
    refine emit_leads ?_ s
    cases e <;> first | rfl | cases he
  | recycle => exact recycle_leads _ s
  | draw hp => exact fun _ => ⟨hp, .refl⟩
  | send hp => exact send_leads hp _ s
  | close => exact close_leads _ s
  | _ => exact .of_eq rfl rfl

theorem Does.leads (h : Does given True True s u) : Leads (Call given) s u := by
  intro hs
  exact h.invariant (motive := Leads (Call given) s) hs (.refl s)
    (fun _ _ deed ih => ih.trans deed.leads) hs

end Site

/-- Calls are steps, at any time. -/
theorem Traffic.Call.step {given : Packet → Prop} {plain : Prop} {now : Nat} {t u : Traffic}
    (h : Call given t u) (hg : ∀ p, given p → plain → p.IsPlain) : Step plain now t u := by
  cases h with
  | note he => exact .note he
  | @queue p _ numbered bytes category hp hgiven hn he =>
    refine .queue hp (Site.delivery_ofPacket numbered bytes category) fun h => ?_
    obtain ⟨hk, ha⟩ : p.IsPlain := hgiven.elim id fun hgiven => hg p hgiven h
    have hacks : numbered.acks = [] := by rw [← hn]; exact ha
    have hkind : numbered.kind = p.kind := by rw [← hn]; rfl
    exact ⟨Site.bare_of_encode hacks he, fun hp => hk (hkind.symm.trans hp)⟩
  | turnAway hp => exact .turnAway hp
  | close => exact .close

end ViewerCircuit
