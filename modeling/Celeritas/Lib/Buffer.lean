import Mathlib.Data.List.Basic

/-!
# Arrays that cannot be left

An array is the list of its cells, and a write of which a part would fall outside of it has no
result: a program that has one has stayed within its arrays.

Programs fill an array from the front. Two pictures of one that is being filled are enough:
what has been written is at the front of it and nothing is known of the rest
(`writeAt_of_prefix`), or the rest is what was there in the beginning (`padded`).
-/

set_option autoImplicit false

namespace Celeritas.Lib

variable {α : Type*}

/-- The cells from `i` on become `xs`. -/
def writeAt (cells : List α) (i : ℕ) (xs : List α) : Option (List α) :=
  if i + xs.length ≤ cells.length then
    some (cells.take i ++ xs ++ cells.drop (i + xs.length))
  else none

theorem writeAt_of_le {cells xs : List α} {i : ℕ} (h : i + xs.length ≤ cells.length) :
    writeAt cells i xs = some (cells.take i ++ xs ++ cells.drop (i + xs.length)) := if_pos h

theorem writeAt_eq_none {cells xs : List α} {i : ℕ} :
    writeAt cells i xs = none ↔ cells.length < i + xs.length := by
  rw [writeAt, ite_eq_right_iff, ← Nat.not_le]
  simp

theorem length_writeAt {cells cells' xs : List α} {i : ℕ} (h : writeAt cells i xs = some cells') :
    cells'.length = cells.length := by
  unfold writeAt at h
  split at h
  · obtain rfl := Option.some.inj h
    simp only [List.length_append, List.length_take, List.length_drop]
    omega
  · cases h

/-- Writing behind what is at the front. -/
theorem writeAt_of_prefix {cells xs : List α} (hxs : xs <+: cells) (ys : List α)
    (hfit : xs.length + ys.length ≤ cells.length) :
    ∃ cells', writeAt cells xs.length ys = some cells' ∧ xs ++ ys <+: cells' ∧
      cells'.length = cells.length := by
  have hw := writeAt_of_le hfit
  refine ⟨_, hw, ?_, length_writeAt hw⟩
  rw [← List.prefix_iff_eq_take.mp hxs]
  exact List.prefix_append _ _

/-! ## Arrays with a background -/

/-- `n` cells, of which the first are `xs` and the others `pad`. -/
def padded (n : ℕ) (pad : α) (xs : List α) : List α := xs ++ List.replicate (n - xs.length) pad

theorem length_padded {n : ℕ} {pad : α} {xs : List α} (h : xs.length ≤ n) :
    (padded n pad xs).length = n := by
  rw [padded, List.length_append, List.length_replicate]
  omega

theorem writeAt_padded {n : ℕ} {pad : α} {xs ys : List α} (h : xs.length + ys.length ≤ n) :
    writeAt (padded n pad xs) xs.length ys = some (padded n pad (xs ++ ys)) := by
  have hlen : (padded n pad xs).length = n := length_padded (by omega)
  rw [writeAt_of_le (by omega), padded, List.take_left, List.drop_append,
    List.drop_eq_nil_of_le (Nat.le_add_right _ _), List.nil_append, List.drop_replicate, padded,
    List.length_append]
  congr 3
  omega

/-- Writing the background where it is already. -/
theorem writeAt_padded_pad {n : ℕ} {pad : α} {xs : List α} (h : xs.length < n) :
    writeAt (padded n pad xs) xs.length [pad] = some (padded n pad xs) := by
  rw [writeAt_padded h, padded, padded, List.append_assoc, List.singleton_append,
    ← List.replicate_succ, List.length_append, List.length_singleton]
  congr 3
  omega

end Celeritas.Lib
