import Mathlib.Logic.Relation
import ViewerCircuit.Outbound.Messages

/-!
# Pooled packets

Nothing of its former use is left of a packet that comes from the pool, so a message that is sent
in a pooled packet is sent as in a new one.
-/
namespace ViewerCircuit

open Relation (ReflTransGen)

namespace PacketPool

/-- Every packet in the pool is a fresh one. -/
def Sound (pool : PacketPool) : Prop :=
  ∀ kind, ∀ p ∈ pool.pooled kind, p = .ofMessage (.empty kind)

theorem empty_sound (enabled : Bool) (maxPerKind : Nat) : Sound { enabled, maxPerKind } := by
  intro kind p hp
  simp [pooled, Table.get?] at hp

theorem pooled_put {pool : PacketPool} {kind other : MessageKind} {ps : List Packet}
    {hits : Nat} :
    pooled { pool with packets := pool.packets.put kind ps, hits } other =
      if other = kind then ps else pool.pooled other := by
  by_cases h : other = kind
  · subst h
    simp [pooled]
  · simp [pooled, Table.get?_put_of_ne h, h]

variable {pool : PacketPool}

theorem draw_fresh (h : pool.Sound) (kind : MessageKind) :
    (pool.draw kind).1 = .ofMessage (.empty kind) ∧ (pool.draw kind).2.Sound := by
  unfold draw
  split
  next p rest _ hp =>
    have hmem : ∀ q ∈ p :: rest, q = .ofMessage (.empty kind) := by
      intro q hq
      exact h kind q (by rw [hp]; exact hq)
    refine ⟨hmem p List.mem_cons_self, ?_⟩
    intro other q hq
    rw [pooled_put] at hq
    split at hq
    · next he =>
      subst he
      exact hmem q (List.mem_cons_of_mem p hq)
    · exact h other q hq
  · exact ⟨rfl, h⟩

theorem reset_eq {p : Packet} (h : p.kind ≠ .unknown) :
    p.reset = .ofMessage (.empty p.kind) := by
  have hmessage : p.message.clear = .empty p.kind := Message.clear_eq h
  simp only [Packet.reset, Packet.ofMessage, emptied_eq, Message.kind_empty, if_neg h,
    hmessage]

theorem takeBack_sound (h : pool.Sound) (p : Packet) : (pool.takeBack p).Sound := by
  unfold takeBack
  split
  · next hs =>
    have hk : p.kind ≠ .unknown := by
      intro hk
      simp [serves, hk] at hs
    by_cases hroom : (pool.pooled p.kind).length < pool.maxPerKind
    · rw [if_pos hroom]
      intro other q hq
      rw [pooled_put] at hq
      split at hq
      · next he =>
        subst he
        rcases List.mem_cons.1 hq with rfl | hq
        · exact reset_eq hk
        · exact h p.kind q hq
      · exact h other q hq
    · rw [if_neg hroom]
      exact h
  · exact h

theorem drawFor_fresh (h : pool.Sound) (m : Message) :
    (pool.drawFor m).1 = .ofMessage m ∧ (pool.drawFor m).2.Sound := by
  obtain ⟨hp, hs⟩ := draw_fresh h m.kind
  refine ⟨?_, hs⟩
  simp only [drawFor, hp, Packet.ofMessage, Message.kind_empty]

inductive Used : PacketPool → PacketPool → Prop
  | draw (pool kind) : Used pool (pool.draw kind).2
  | drawFor (pool message) : Used pool (pool.drawFor message).2
  | takeBack (pool p) : Used pool (pool.takeBack p)

def Reached (pool : PacketPool) : Prop :=
  ∃ enabled maxPerKind, ReflTransGen Used { enabled, maxPerKind } pool

theorem Reached.sound (h : pool.Reached) : pool.Sound := by
  obtain ⟨enabled, maxPerKind, used⟩ := h
  induction used with
  | refl => exact empty_sound enabled maxPerKind
  | tail _ step ih =>
    cases step with
    | draw kind => exact (draw_fresh ih kind).2
    | drawFor message => exact (drawFor_fresh ih message).2
    | takeBack p => exact takeBack_sound ih p

end PacketPool

namespace Draft

def packet (d : Draft) : Packet :=
  if d.reliable then .reliable d.message else .ofMessage d.message

theorem issue_fresh {pool : PacketPool} (h : pool.Sound) (d : Draft) :
    (d.issue pool).1 = d.packet ∧ (d.issue pool).2.Sound := by
  obtain ⟨hp, hs⟩ := PacketPool.drawFor_fresh h d.message
  refine ⟨?_, hs⟩
  simp only [issue, packet, Packet.reliable, hp]

theorem issueAll_fresh {pool : PacketPool} (h : pool.Sound) (drafts : List Draft) :
    (issueAll drafts pool).1 = drafts.map (fun d => (d.packet, d.category)) ∧
      (issueAll drafts pool).2.Sound := by
  induction drafts generalizing pool with
  | nil => exact ⟨rfl, h⟩
  | cons d drafts ih =>
    obtain ⟨hp, hs⟩ := issue_fresh h d
    obtain ⟨hps, hall⟩ := ih hs
    exact ⟨by simp only [issueAll, hp, hps, List.map_cons], hall⟩

end Draft
end ViewerCircuit
