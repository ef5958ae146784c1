import Celeritas.Types
import Celeritas.Lib.Bag

/-!
# The keep-alive pool

`conn_pool_t`: the first `count` slots of its array, as a list, and the capacity they stay
within. Only the wait-room thread touches it.
-/

set_option autoImplicit false

namespace Celeritas

open Lib

/-- `conn_pool_t`. `items` is `items[0 .. count)`. -/
structure ConnPool where
  items : List Conn
  capacity : ℕ
  length_le : items.length ≤ capacity
  deriving DecidableEq

namespace ConnPool

def count (p : ConnPool) : ℕ := p.items.length

/-- The array with the element at `i` replaced by the last one and dropped from the end. -/
def swapOut (p : ConnPool) (i : ℕ) : ConnPool where
  items := swapRemove p.items i
  capacity := p.capacity
  length_le := by
    rw [length_swapRemove]
    exact (Nat.sub_le _ _).trans p.length_le

end ConnPool

/-- `pool_init` -/
def poolInit (maxConns : ℕ) : ConnPool := ⟨[], maxConns, Nat.zero_le _⟩

/-- `pool_add`: `none` is the result `-1`. -/
def poolAdd (p : ConnPool) (c : Conn) : Option ConnPool :=
  if h : p.count ≥ p.capacity then none
  else some ⟨p.items ++ [c], p.capacity, by
    rw [List.length_append, List.length_singleton]
    exact Nat.not_le.mp h⟩

/-- `pool_remove_at` -/
def poolRemoveAt (p : ConnPool) (i : ℕ) : ConnPool := if i ≥ p.count then p else p.swapOut i

/-- `pool_remove_by_fd`: the connection copied to `out_conn`, and the pool without it;
`none` is the result `0`. -/
def poolRemoveByFd (p : ConnPool) (fd : ℕ) : Option (Conn × ConnPool) :=
  match p.items.findIdx? fun c => c.fd == fd with
  | none => none
  | some i => (p.items[i]?).map fun c => (c, p.swapOut i)

theorem poolAdd_some {p p' : ConnPool} {c : Conn} (h : poolAdd p c = some p') :
    p'.items = p.items ++ [c] ∧ p'.capacity = p.capacity ∧ p.count < p.capacity := by
  unfold poolAdd at h
  split at h
  · exact absurd h (by simp)
  · rename_i hlt
    rw [Option.some.injEq] at h
    subst h
    exact ⟨rfl, rfl, Nat.not_le.mp hlt⟩

theorem poolAdd_eq_none {p : ConnPool} {c : Conn} :
    poolAdd p c = none ↔ p.capacity ≤ p.count := by
  unfold poolAdd
  by_cases h : p.count ≥ p.capacity
  · rw [dif_pos h]
    exact iff_of_true rfl h
  · rw [dif_neg h]
    exact iff_of_false (Option.some_ne_none _) h

theorem ConnPool.coe_swapOut {p : ConnPool} {i : ℕ} (hi : i < p.items.length) :
    (p.items : Multiset Conn) = p.items[i] ::ₘ ((p.swapOut i).items : Multiset Conn) :=
  coe_swapRemove hi

/-- What is removed by descriptor has that descriptor, was in the pool, and is all that
leaves it. -/
theorem poolRemoveByFd_some {p p' : ConnPool} {fd : ℕ} {c : Conn}
    (h : poolRemoveByFd p fd = some (c, p')) :
    c.fd = fd ∧ (p.items : Multiset Conn) = c ::ₘ (p'.items : Multiset Conn) ∧
      p'.capacity = p.capacity := by
  unfold poolRemoveByFd at h
  cases hi : p.items.findIdx? fun c => c.fd == fd with
  | none => simp [hi] at h
  | some i =>
    obtain ⟨hlt, hfd, _⟩ := List.findIdx?_eq_some_iff_getElem.mp hi
    simp only [hi, List.getElem?_eq_getElem hlt, Option.map_some, Option.some.injEq,
      Prod.mk.injEq] at h
    obtain ⟨rfl, rfl⟩ := h
    exact ⟨by simpa using hfd, ConnPool.coe_swapOut hlt, rfl⟩

theorem poolRemoveByFd_eq_none {p : ConnPool} {fd : ℕ} :
    poolRemoveByFd p fd = none ↔ ∀ c ∈ p.items, c.fd ≠ fd := by
  unfold poolRemoveByFd
  cases hi : p.items.findIdx? fun c => c.fd == fd with
  | none => simpa using hi
  | some i =>
    obtain ⟨hlt, hfd, _⟩ := List.findIdx?_eq_some_iff_getElem.mp hi
    simp only [List.getElem?_eq_getElem hlt, Option.map_some, reduceCtorEq, false_iff]
    intro hall
    exact hall _ (List.getElem_mem hlt) (by simpa using hfd)

/-- Adding to an empty pool and removing by descriptor gives the connection back. -/
theorem poolRemoveByFd_singleton {p : ConnPool} {c : Conn} (h : p.items = [c]) :
    ∃ p', poolRemoveByFd p c.fd = some (c, p') ∧ p'.items = [] ∧ p'.capacity = p.capacity := by
  cases hrem : poolRemoveByFd p c.fd with
  | none => exact absurd rfl (poolRemoveByFd_eq_none.mp hrem c (by simp [h]))
  | some cp =>
    obtain ⟨c', p'⟩ := cp
    obtain ⟨_, hperm, hcap⟩ := poolRemoveByFd_some hrem
    rw [h, Multiset.coe_singleton, Multiset.singleton_eq_cons_iff] at hperm
    obtain ⟨rfl, hnil⟩ := hperm
    exact ⟨p', rfl, by simpa using hnil, hcap⟩

end Celeritas
