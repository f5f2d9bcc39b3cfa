/-!
# The buffer pool

Empty buffers for datagrams, known by their capacity. A buffer that is smaller than a fresh one is
not kept.
-/
namespace ViewerCircuit

structure BufferPool where
  bufferSize : Nat
  limit : Nat
  buffers : List Nat := []
  deriving DecidableEq, Repr

namespace BufferPool

def get (pool : BufferPool) : Nat × BufferPool :=
  match pool.buffers with
  | capacity :: rest => (capacity, { pool with buffers := rest })
  | [] => (pool.bufferSize, pool)

def put (pool : BufferPool) (capacity : Nat) : BufferPool :=
  if capacity < pool.bufferSize ∨ pool.limit ≤ pool.buffers.length then pool
  else { pool with buffers := capacity :: pool.buffers }

end BufferPool
end ViewerCircuit
