import Mathlib.Logic.Function.Basic
import Mathlib.Data.Nat.ModEq

/-!
# Circular buffers

A circular buffer is an array `buf` of `cap` slots read from `head` round the end. What
it *holds* is the list `window buf cap head n` of the `n` slots from `head`; everything a
queue does to its array is a statement about that list, and this file makes the four of
them (grow at the tail, shrink at the head, write outside, take a batch).

Buffers that keep no element count and compare `head` with `tail` instead hold
`span cap head tail` elements. One slot of such a buffer stays empty, because `head = tail`
already means that nothing is held (`span_eq_zero`); `span_lt` is that remark.
-/

set_option autoImplicit false

namespace Celeritas.Lib

variable {α : Type*}

/-- The `n` elements held from slot `head` on. -/
def window (buf : ℕ → α) (cap head n : ℕ) : List α :=
  (List.range n).map fun i => buf ((head + i) % cap)

@[simp] theorem window_zero (buf : ℕ → α) (cap head : ℕ) : window buf cap head 0 = [] := rfl

@[simp] theorem length_window (buf : ℕ → α) (cap head n : ℕ) :
    (window buf cap head n).length = n := by simp [window]

theorem window_succ_last (buf : ℕ → α) (cap head n : ℕ) :
    window buf cap head (n + 1) = window buf cap head n ++ [buf ((head + n) % cap)] := by
  simp [window, List.range_succ]

theorem window_succ_head (buf : ℕ → α) (cap head n : ℕ) :
    window buf cap head (n + 1)
      = buf (head % cap) :: window buf cap ((head + 1) % cap) n := by
  simp only [window, List.range_succ_eq_map, List.map_cons, List.map_map, Nat.add_zero]
  refine congrArg _ (List.map_congr_left fun i _ => ?_)
  simp only [Function.comp, Nat.succ_eq_add_one, Nat.mod_add_mod]
  rw [show head + (i + 1) = head + 1 + i by omega]

/-- Two slots less than a round apart are different. -/
theorem slot_inj {cap head i j : ℕ} (hi : i < cap) (hj : j < cap)
    (h : (head + i) % cap = (head + j) % cap) : i = j := by
  have hm : i ≡ j [MOD cap] := Nat.ModEq.add_left_cancel' head h
  rwa [Nat.ModEq, Nat.mod_eq_of_lt hi, Nat.mod_eq_of_lt hj] at hm

/-- A write to a slot beyond the held ones changes nothing that is held. -/
theorem window_update {buf : ℕ → α} {cap head n m : ℕ} (x : α) (hn : n ≤ m) (hm : m < cap) :
    window (Function.update buf ((head + m) % cap) x) cap head n = window buf cap head n := by
  refine List.map_congr_left fun i hi => Function.update_of_ne (fun h => ?_) _ _
  have hin : i < n := List.mem_range.mp hi
  have := slot_inj (by omega) hm h
  omega

/-- Storing at the tail of a buffer with a free slot appends. -/
theorem window_push (buf : ℕ → α) {cap n : ℕ} (head : ℕ) (x : α) (hn : n < cap) :
    window (Function.update buf ((head + n) % cap) x) cap head (n + 1)
      = window buf cap head n ++ [x] := by
  rw [window_succ_last, window_update x (Nat.le_refl n) hn, Function.update_self]

/-! ## Buffers without a count -/

/-- The number of elements between `head` and `tail`. -/
def span (cap head tail : ℕ) : ℕ := (tail + cap - head) % cap

section Span

variable {cap head tail : ℕ} (hh : head < cap) (ht : tail < cap)

include hh ht

/-- `span` without the remainder: the tail is either past the head or has wrapped. -/
theorem span_cases : (head ≤ tail ∧ span cap head tail = tail - head) ∨
    (tail < head ∧ span cap head tail = tail + cap - head) := by
  unfold span
  rcases Nat.lt_or_ge tail head with h | h
  · exact .inr ⟨h, Nat.mod_eq_of_lt (by omega)⟩
  · refine .inl ⟨h, ?_⟩
    rw [show tail + cap - head = (tail - head) + cap by omega, Nat.add_mod_right,
      Nat.mod_eq_of_lt (by omega)]

omit hh in
theorem span_lt : span cap head tail < cap := Nat.mod_lt _ (by omega)

theorem span_eq_zero : span cap head tail = 0 ↔ tail = head := by
  rcases span_cases hh ht with ⟨h, e⟩ | ⟨h, e⟩ <;> omega

/-- The slot `span` elements after the head is the tail. -/
theorem head_add_span : (head + span cap head tail) % cap = tail := by
  rcases span_cases hh ht with ⟨h, e⟩ | ⟨h, e⟩
  · rw [e, show head + (tail - head) = tail by omega, Nat.mod_eq_of_lt ht]
  · rw [e, show head + (tail + cap - head) = tail + cap by omega, Nat.add_mod_right,
      Nat.mod_eq_of_lt ht]

omit hh in
theorem succ_cases : (tail + 1 < cap ∧ (tail + 1) % cap = tail + 1) ∨
    (tail + 1 = cap ∧ (tail + 1) % cap = 0) := by
  rcases Nat.lt_or_ge (tail + 1) cap with h | h
  · exact .inl ⟨h, Nat.mod_eq_of_lt h⟩
  · have : tail + 1 = cap := by omega
    exact .inr ⟨this, by rw [this, Nat.mod_self]⟩

/-- Where the next tail is not the head, moving there holds one element more. -/
theorem span_succ_tail (hf : (tail + 1) % cap ≠ head) :
    span cap head ((tail + 1) % cap) = span cap head tail + 1 := by
  have ht' : (tail + 1) % cap < cap := Nat.mod_lt _ (by omega)
  rcases succ_cases ht with ⟨_, e⟩ | ⟨_, e⟩ <;>
    rcases span_cases hh ht with ⟨_, e₁⟩ | ⟨_, e₁⟩ <;>
      rcases span_cases hh ht' with ⟨_, e₂⟩ | ⟨_, e₂⟩ <;> omega

/-- The tail is determined by how many elements it leaves between itself and the head. -/
theorem span_eq_succ {tail' : ℕ} (ht' : tail' < cap)
    (h : span cap head tail' = span cap head tail + 1) : tail' = (tail + 1) % cap := by
  rcases succ_cases ht with ⟨_, e⟩ | ⟨_, e⟩ <;>
    rcases span_cases hh ht with ⟨_, e₁⟩ | ⟨_, e₁⟩ <;>
      rcases span_cases hh ht' with ⟨_, e₂⟩ | ⟨_, e₂⟩ <;> omega

/-- Moving the head over `k` held elements holds `k` fewer. -/
theorem span_drop {k : ℕ} (hk : k ≤ span cap head tail) :
    span cap ((head + k) % cap) tail = span cap head tail - k := by
  have hh' : (head + k) % cap < cap := Nat.mod_lt _ (by omega)
  have hm : (head + k < cap ∧ (head + k) % cap = head + k) ∨
      (cap ≤ head + k ∧ (head + k) % cap = head + k - cap) := by
    rcases Nat.lt_or_ge (head + k) cap with h | h
    · exact .inl ⟨h, Nat.mod_eq_of_lt h⟩
    · have hlt : span cap head tail < cap := span_lt ht
      refine .inr ⟨h, ?_⟩
      rw [Nat.mod_eq_sub_mod h, Nat.mod_eq_of_lt (by omega)]
  rcases hm with ⟨_, e⟩ | ⟨_, e⟩ <;>
    rcases span_cases hh ht with ⟨_, e₁⟩ | ⟨_, e₁⟩ <;>
      rcases span_cases hh' ht with ⟨_, e₂⟩ | ⟨_, e₂⟩ <;> omega

end Span

/-- Masking with a power of two less one is the remainder that wraps an index round. -/
theorem and_mask {size k : ℕ} (hs : size = 2 ^ k) (x : ℕ) : x &&& (size - 1) = x % size := by
  rw [hs, Nat.and_two_pow_sub_one_eq_mod]

end Celeritas.Lib
