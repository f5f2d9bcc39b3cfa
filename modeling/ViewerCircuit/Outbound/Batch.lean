import ViewerCircuit.Packet.Wire

/-!
# Batches

The entries of a variable block are spread over as many packets as they need. A batch is filled
until the next entry would not fit, and an entry that fits no packet is dropped.
-/
namespace ViewerCircuit

def entryLimit : Nat := 255

/-- The bytes that a packet leaves for the entries of a block whose message has `fixedLength`
other bytes, the count included. -/
def entryRoom (maxPacketSize : Nat) (kind : MessageKind) (fixedLength : Nat) : Nat :=
  maxPacketSize - (Packet.headerLength + (kind.number.elim 0 (·.wireLength)) + fixedLength)

variable {α : Type}

/-- Splits entries into batches behind a batch begun with the entries of `batch`, latest first,
which take `used` bytes. -/
def batchesAfter (budget : Nat) (size : α → Nat) (batch : List α) (used : Nat) :
    List α → List (List α)
  | [] => if batch.isEmpty then [] else [batch.reverse]
  | entry :: rest =>
    if budget < size entry then batchesAfter budget size batch used rest
    else if batch.length = entryLimit ∨ budget < used + size entry then
      batch.reverse :: batchesAfter budget size [entry] (size entry) rest
    else batchesAfter budget size (entry :: batch) (used + size entry) rest

def batches (budget : Nat) (size : α → Nat) (entries : List α) : List (List α) :=
  batchesAfter budget size [] 0 entries

end ViewerCircuit
