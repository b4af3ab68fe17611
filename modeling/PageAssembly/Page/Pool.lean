import PageAssembly.Text.Bytes

/-!
Buffers are kept for later use, up to a number and a size. A buffer from the pool is always empty.
-/

namespace PageAssembly

structure Buffer where
  content : Bytes
  capacity : Nat
deriving DecidableEq

namespace Buffer

def ofCapacity (capacity : Nat) : Buffer := ⟨[], capacity⟩

/-- A buffer that is too small at least doubles its capacity, from eight bytes on. -/
def append (buffer : Buffer) (bytes : Bytes) : Buffer :=
  let needed := buffer.content.length + bytes.length
  ⟨buffer.content ++ bytes,
    if needed ≤ buffer.capacity then buffer.capacity
    else max 8 (max (2 * buffer.capacity) needed)⟩

def appendAll (buffer : Buffer) (pieces : List Bytes) : Buffer :=
  pieces.foldl append buffer

def clear (buffer : Buffer) : Buffer :=
  { buffer with content := [] }

end Buffer

structure Pool where
  size : Nat
  idle : List Buffer
  cleared : ∀ buffer ∈ idle, buffer.content = []

namespace Pool

def maxCapacity : Nat := 0x100000

def standardSize : Nat := 64

def ofSize (size : Nat) : Pool := ⟨size, [], by simp⟩

/-- The buffer kept last, or a fresh one. -/
def get (pool : Pool) : Buffer × Pool :=
  match same : pool.idle with
  | [] => (.ofCapacity 0, pool)
  | buffer :: idle =>
      (buffer,
        { size := pool.size
          idle
          cleared := fun other member => pool.cleared other (same ▸ List.mem_cons_of_mem _ member) })

theorem get_empty (pool : Pool) : pool.get.1.content = [] := by
  rw [get]
  split
  · rfl
  · rename_i buffer idle same
    exact pool.cleared buffer (same ▸ List.mem_cons_self)

def put (pool : Pool) (buffer : Buffer) : Pool :=
  if buffer.capacity ≤ maxCapacity ∧ pool.idle.length < pool.size then
    { size := pool.size
      idle := buffer.clear :: pool.idle
      cleared := by
        intro other member
        rcases List.mem_cons.mp member with rfl | earlier
        · rfl
        · exact pool.cleared other earlier }
  else
    pool

end Pool

end PageAssembly
