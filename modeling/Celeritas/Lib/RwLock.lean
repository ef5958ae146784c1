import Mathlib.Data.Finset.Basic

/-!
# A reader-writer lock

Any number of readers, or the writer alone. The exclusion is a field of the structure, so a
lock in any other state does not exist. An operation that has to wait is `none`.
-/

set_option autoImplicit false

namespace Celeritas.Lib

variable {ι : Type*}

structure RwLock (ι : Type*) where
  holders : Finset ι
  writer : Bool
  excl : writer = true → holders = ∅

namespace RwLock

def unlocked : RwLock ι := ⟨∅, false, fun _ => rfl⟩

theorem not_writer {l : RwLock ι} {i : ι} (h : i ∈ l.holders) : l.writer = false := by
  cases hw : l.writer with
  | false => rfl
  | true =>
    rw [l.excl hw] at h
    exact absurd h (Finset.notMem_empty i)

variable [DecidableEq ι]

/-- The writer gets it if nobody has it. -/
def wrlock (l : RwLock ι) : Option (RwLock ι) :=
  if h : l.writer = false ∧ l.holders = ∅ then some ⟨l.holders, true, fun _ => h.2⟩ else none

def wrunlock (l : RwLock ι) : RwLock ι := ⟨l.holders, false, fun hw => absurd hw (by simp)⟩

theorem wrlock_some {l l' : RwLock ι} (h : l.wrlock = some l') :
    l'.holders = l.holders ∧ l.writer = false ∧ l'.writer = true := by
  unfold wrlock at h
  split at h
  · rename_i hfree
    obtain rfl := Option.some.inj h
    exact ⟨rfl, hfree.1, rfl⟩
  · cases h

/-- A reader gets the lock if the writer does not have it; no reader takes it twice. -/
def rdlock (l : RwLock ι) (i : ι) : Option (RwLock ι) :=
  if h : l.writer = false ∧ i ∉ l.holders then
    some ⟨insert i l.holders, false, fun hw => absurd hw (by simp)⟩
  else none

def rdunlock (l : RwLock ι) (i : ι) : RwLock ι where
  holders := l.holders.erase i
  writer := l.writer
  excl := by
    intro hw
    rw [l.excl hw, Finset.erase_empty]

theorem rdlock_some {l l' : RwLock ι} {i : ι} (h : l.rdlock i = some l') :
    l'.holders = insert i l.holders ∧ l.writer = false ∧ l'.writer = false := by
  unfold rdlock at h
  split at h
  · rename_i hfree
    obtain rfl := Option.some.inj h
    exact ⟨rfl, hfree.1, rfl⟩
  · cases h

end RwLock

end Celeritas.Lib
