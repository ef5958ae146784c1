import Mathlib.Data.List.Basic

/-!
# Memory that is acquired and given back

The blocks a program holds: those of the heap and the mappings of files. `free` and `unmap`
are partial: what is not held, or is held by the other kind of call, cannot be given back.
So a program that runs through has released nothing twice and nothing in the wrong way, and
one that ends with the blocks it began with has released all it acquired.

Blocks are numbered in the order in which they are acquired, which is what a fresh address
amounts to.
-/

set_option autoImplicit false

namespace Celeritas.Lib

/-- A block: of the heap, or a mapping with its length. -/
inductive Block
  | heap (id : ℕ)
  | mapping (id len : ℕ)
  deriving DecidableEq

def Block.id : Block → ℕ
  | .heap id => id
  | .mapping id _ => id

structure Memory where
  live : List Block
  next : ℕ
  id_lt : ∀ b ∈ live, b.id < next

namespace Memory

/-- No block is held. -/
def empty : Memory := ⟨[], 0, fun _ h => absurd h List.not_mem_nil⟩

/-- Hold one more block. -/
def acquire (m : Memory) (b : Block) (h : b.id = m.next) : Memory where
  live := b :: m.live
  next := m.next + 1
  id_lt := by
    intro c hc
    rcases List.mem_cons.mp hc with rfl | hc
    · omega
    · exact Nat.lt_succ_of_lt (m.id_lt c hc)

/-- `malloc` and `calloc` -/
def alloc (m : Memory) : ℕ × Memory := (m.next, m.acquire (.heap m.next) rfl)

/-- `mmap` -/
def map (m : Memory) (len : ℕ) : ℕ × Memory := (m.next, m.acquire (.mapping m.next len) rfl)

/-- Give a block back. -/
def release (m : Memory) (b : Block) : Option Memory :=
  if b ∈ m.live then
    some ⟨m.live.erase b, m.next, fun c hc => m.id_lt c (List.mem_of_mem_erase hc)⟩
  else none

def free (m : Memory) (id : ℕ) : Option Memory := m.release (.heap id)

/-- `munmap` -/
def unmap (m : Memory) (id len : ℕ) : Option Memory := m.release (.mapping id len)

@[simp] theorem acquire_live (m : Memory) (b : Block) (h : b.id = m.next) :
    (m.acquire b h).live = b :: m.live := rfl

/-- The block acquired last can be given back, and the others stay. -/
theorem release_head {m : Memory} {b : Block} {bs : List Block} (h : m.live = b :: bs) :
    ∃ m', m.release b = some m' ∧ m'.live = bs := by
  refine ⟨_, if_pos (by simp [h]), ?_⟩
  simp [h]

end Memory

end Celeritas.Lib
