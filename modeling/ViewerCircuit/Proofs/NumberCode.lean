import ViewerCircuit.Proofs.Layouts
import ViewerCircuit.Proofs.MessageArrival

/-!
# The code of message numbers

The numbers that can be written are a prefix code: none of them begins with the bytes of another
one, so that the reader takes exactly what the writer wrote, whatever follows. It refuses what
begins with a zero, and what ends inside of a number.
-/
namespace ViewerCircuit

namespace MessageNumber

variable {bytes rest : Bytes} {m n : MessageNumber}

theorem written_of_readLong (h : readLong bytes = (.ok n, rest)) :
    0xFF :: 0xFF :: bytes = n.write ++ rest ∧ n.Canonical := by
  rcases bytes with _ | ⟨a, _ | ⟨b, bytes⟩⟩
  · cases h
  · cases h
  rw [readLong] at h
  split at h
  · next ha =>
    cases h
    rw [ha]
    exact ⟨rfl, trivial⟩
  · next ha =>
    cases h
    have value : (UInt16.ofNat (ofBigEndian [a, b])).toNat = ofBigEndian [a, b] :=
      UInt16.toNat_ofNat_of_lt (ofBigEndian_lt [a, b])
    constructor
    · have back : bigEndian 2 (ofBigEndian [a, b]) = [a, b] := bigEndian_ofBigEndian [a, b]
      rw [write, value, back]
      rfl
    · intro high
      apply ha
      apply UInt8.toNat_inj.1
      have digits : ofBigEndian [a, b] = b.toNat + 256 * (a.toNat + 256 * 0) := rfl
      have := b.toNat_lt
      rw [value, digits] at high
      change a.toNat = 255
      omega

theorem written_of_readEscaped (h : readEscaped bytes = (.ok n, rest)) :
    0xFF :: bytes = n.write ++ rest ∧ n.Canonical := by
  rcases bytes with _ | ⟨b, bytes⟩
  · cases h
  rw [readEscaped] at h
  split at h
  · next hb =>
    rw [hb]
    exact written_of_readLong h
  · next hb =>
    cases h
    exact ⟨rfl, hb⟩

/-- What was read is canonical, and was there as the writer writes it. -/
theorem written_of_read (h : read bytes = (.ok n, rest)) :
    bytes = n.write ++ rest ∧ n.Canonical := by
  rcases bytes with _ | ⟨b, bytes⟩
  · cases h
  rw [read] at h
  split at h
  · cases h
  · next hzero =>
    split at h
    · next hb =>
      rw [hb]
      exact written_of_readEscaped h
    · next hb =>
      cases h
      exact ⟨rfl, hzero, hb⟩

theorem canonical_of_read (h : read bytes = (.ok n, rest)) : n.Canonical :=
  (written_of_read h).2

theorem read_iff : read bytes = (.ok n, rest) ↔ bytes = n.write ++ rest ∧ n.Canonical := by
  constructor
  · exact written_of_read
  · rintro ⟨rfl, canonical⟩
    exact read_write canonical rest

/-- The reader refuses what begins with no number. -/
theorem refused_iff :
    (∃ e, (read bytes).1 = .error e) ↔ ∀ n : MessageNumber, n.Canonical → ¬ n.write <+: bytes := by
  constructor
  · rintro ⟨e, refused⟩ n canonical ⟨rest, rfl⟩
    rw [read_write canonical rest] at refused
    cases refused
  · intro none
    rcases h : read bytes with ⟨_ | n, rest⟩
    · exact ⟨_, rfl⟩
    · obtain ⟨there, canonical⟩ := written_of_read h
      exact absurd ⟨rest, there.symm⟩ (none n canonical)

theorem prefix_free (hm : m.Canonical) (hn : n.Canonical) (h : m.write <+: n.write) : m = n := by
  obtain ⟨behind, there⟩ := h
  have long : read n.write = (.ok m, behind) := there ▸ read_write hm behind
  have whole := read_write hn []
  rw [List.append_nil, long] at whole
  cases whole
  rfl

-- A number that is not canonical would be written as another one.
example : (MessageNumber.low 0xFFFB).write = (MessageNumber.fixed 0xFB).write := rfl

/-- Bytes that are missing at the end complete a number. -/
theorem readLong_completed (h : (readLong bytes).1 = .error .underflow) :
    ∃ missing n, missing ≠ [] ∧ readLong (bytes ++ missing) = (.ok n, []) := by
  rcases bytes with _ | ⟨a, _ | ⟨b, bytes⟩⟩
  · exact ⟨[0xFF, 0], .fixed 0, List.cons_ne_nil _ _, rfl⟩
  · by_cases ha : a = 0xFF
    · exact ⟨[0], .fixed 0, List.cons_ne_nil _ _, by simp [readLong, ha]⟩
    · exact ⟨[0], .low (.ofNat (ofBigEndian [a, 0])), List.cons_ne_nil _ _, by simp [readLong, ha]⟩
  · rw [readLong] at h
    split at h <;> cases h

theorem readEscaped_completed (h : (readEscaped bytes).1 = .error .underflow) :
    ∃ missing n, missing ≠ [] ∧ readEscaped (bytes ++ missing) = (.ok n, []) := by
  rcases bytes with _ | ⟨b, bytes⟩
  · exact ⟨[0], .medium 0, List.cons_ne_nil _ _, rfl⟩
  · simp only [readEscaped, List.cons_append] at h ⊢
    split at h
    · next hb =>
      simp only [if_pos hb]
      exact readLong_completed h
    · cases h

theorem read_completed (h : (read bytes).1 = .error .underflow) :
    ∃ missing n, missing ≠ [] ∧ read (bytes ++ missing) = (.ok n, []) := by
  rcases bytes with _ | ⟨b, bytes⟩
  · exact ⟨[1], .high 1, List.cons_ne_nil _ _, rfl⟩
  · simp only [read, List.cons_append] at h ⊢
    split at h
    · cases h
    · next hzero =>
      simp only [if_neg hzero]
      split at h
      · next hb =>
        simp only [if_pos hb]
        exact readEscaped_completed h
      · cases h

theorem readLong_error {e : DecodeError} (h : (readLong bytes).1 = .error e) : e = .underflow := by
  rcases bytes with _ | ⟨a, _ | ⟨b, bytes⟩⟩
  · exact (Except.error.inj h).symm
  · exact (Except.error.inj h).symm
  · rw [readLong] at h
    split at h <;> cases h

theorem read_error {e : DecodeError} (h : (read bytes).1 = .error e) :
    e = .underflow ∨ e = .messageNumberZero ∧ bytes.head? = some 0 := by
  rcases bytes with _ | ⟨b, bytes⟩
  · exact .inl (Except.error.inj h).symm
  rw [read] at h
  split at h
  · next hzero => exact .inr ⟨(Except.error.inj h).symm, congrArg some hzero⟩
  split at h
  · rcases bytes with _ | ⟨c, bytes⟩
    · exact .inl (Except.error.inj h).symm
    rw [readEscaped] at h
    split at h
    · exact .inl (readLong_error h)
    · cases h
  · cases h

theorem head_write (h : n.Canonical) : n.write.head? ≠ some 0 := by
  cases n with
  | high b => exact fun zero => h.1 (Option.some.inj zero)
  | invalid => exact h.elim
  | _ => exact of_decide_eq_true rfl

/-- The reader runs out of bytes inside of a number, and nowhere else. -/
theorem underflow_iff : (read bytes).1 = .error .underflow ↔
    ∃ n : MessageNumber, n.Canonical ∧ bytes <+: n.write ∧ bytes ≠ n.write := by
  constructor
  · intro h
    obtain ⟨missing, n, some, completed⟩ := read_completed h
    obtain ⟨there, canonical⟩ := written_of_read completed
    rw [List.append_nil] at there
    refine ⟨n, canonical, ⟨missing, there⟩, ?_⟩
    intro whole
    rw [← there] at whole
    exact some (List.self_eq_append_right.1 whole)
  · rintro ⟨n, canonical, part, short⟩
    rcases h : read bytes with ⟨e | m, rest⟩
    · rcases read_error (congrArg Prod.fst h) with rfl | ⟨-, zero⟩
      · rfl
      · obtain ⟨missing, whole⟩ := part
        have front := head_write canonical
        rw [← whole, List.head?_append, zero] at front
        exact absurd rfl front
    · obtain ⟨there, same⟩ := written_of_read h
      have inside : m.write <+: bytes := ⟨rest, there.symm⟩
      obtain rfl := prefix_free same canonical (inside.trans part)
      exact absurd (part.eq_of_length_le inside.length_le) short

end MessageNumber

namespace Message

variable {bytes rest : Bytes} {m : Message} {n : MessageNumber}

theorem kind_of_readBody (h : readBody n bytes = (.ok m, rest)) :
    m.kind = MessageKind.ofNumber n := by
  cases hk : body? (MessageKind.ofNumber n) with
  | none =>
    have unknown : MessageKind.ofNumber n = .unknown := body?_eq_none.1 hk
    rw [readBody, unknown] at h
    obtain ⟨body, -, rfl⟩ := Reader.map_ok h
    exact unknown.symm
  | some body =>
    rw [body.read_eq n rfl] at h
    obtain ⟨v, -, rfl⟩ := Reader.map_ok h
    exact body.kind_eq v

/-- The number in front decides of which kind a message is. -/
theorem kind_of_read (hn : MessageNumber.read bytes = (.ok n, rest)) (h : read bytes = .ok m) :
    m.kind = MessageKind.ofNumber n := by
  rw [read, Reader.andThen_of_eq hn] at h
  exact kind_of_readBody (Prod.ext h rfl)

end Message

namespace MessageNumber

/-- In front of any body, the number leads back to this kind, and to no other one. -/
structure LeadsTo (n : MessageNumber) (k : MessageKind) : Prop where
  read_eq : ∀ body, read (n.write ++ body) = (.ok n, body)
  kind_eq : MessageKind.ofNumber n = k
  sole : ∀ j : MessageKind, j.number = some n → j = k
  message : ∀ {body m}, Message.read (n.write ++ body) = .ok m → m.kind = k

theorem leadsTo {k : MessageKind} {n : MessageNumber} (h : k.number = some n) : n.LeadsTo k := by
  have canonical : n.Canonical := MessageKind.canonical_number h
  have kind : MessageKind.ofNumber n = k := MessageKind.ofNumber_number h
  constructor
  · exact read_write canonical
  · exact kind
  · intro j hj
    rw [← kind, MessageKind.ofNumber_number hj]
  · intro body m hm
    rw [Message.kind_of_read (read_write canonical body) hm, kind]

theorem number_of_ne_unknown {k : MessageKind} (h : k ≠ .unknown) : ∃ n, k.number = some n := by
  cases k with
  | unknown => exact absurd rfl h
  | _ => exact ⟨_, rfl⟩

/-- The canonical numbers are a prefix code, and the reader decodes it. Apart from the zero, all
that it refuses is what ends inside of a number. -/
structure PrefixCode : Prop where
  read_iff : ∀ {bytes n rest},
    read bytes = (.ok n, rest) ↔ bytes = n.write ++ rest ∧ n.Canonical
  length_taken : ∀ {bytes n rest},
    read bytes = (.ok n, rest) → bytes.length = n.wireLength + rest.length
  refused_iff : ∀ {bytes}, (∃ e, (read bytes).1 = .error e) ↔
    ∀ n : MessageNumber, n.Canonical → ¬ n.write <+: bytes
  underflow_iff : ∀ {bytes}, (read bytes).1 = .error .underflow ↔
    ∃ n : MessageNumber, n.Canonical ∧ bytes <+: n.write ∧ bytes ≠ n.write
  refused_zero : ∀ {bytes e}, (read bytes).1 = .error e → e ≠ .underflow →
    e = .messageNumberZero ∧ bytes.head? = some 0
  prefix_free : ∀ {m n : MessageNumber}, m.Canonical → n.Canonical → m.write <+: n.write → m = n
  leadsTo : ∀ k : MessageKind, k ≠ .unknown → ∃ n, k.number = some n ∧ n.LeadsTo k

theorem numbers_are_prefix_code : PrefixCode := by
  constructor
  · exact read_iff
  · intro bytes n rest h
    rw [(written_of_read h).1, List.length_append, length_write]
  · exact refused_iff
  · exact underflow_iff
  · intro bytes e h other
    exact (read_error h).resolve_left other
  · exact prefix_free
  · intro k hk
    obtain ⟨n, hn⟩ := number_of_ne_unknown hk
    exact ⟨n, hn, leadsTo hn⟩

end MessageNumber
end ViewerCircuit
