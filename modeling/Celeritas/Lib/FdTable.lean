import Mathlib.Data.List.Basic
import Mathlib.Data.Nat.Notation
import Mathlib.Tactic.Common

/-!
# Descriptor tables

A table from small numbers to what they name, in which a new entry gets the lowest number that
is free. Of entries made one after the other, each gets the number with as many free ones below
it as there were entries before (`TakesAll.closedBelow`). So which of them come to lie below a
given number is decided by how many are free there at the start (`TakesAll.lt_iff`).
-/

set_option autoImplicit false

namespace Celeritas.Lib

/-- A number that names nothing is `none`, or lies behind the end of the list. -/
structure FdTable (F : Type*) where
  slots : List (Option F) := []
  deriving DecidableEq

namespace FdTable

variable {F : Type*} {t t' t'' : FdTable F} {n m k i : ℕ} {f : F} {l : List (ℕ × F)}

/-- What a number names. -/
def get (t : FdTable F) (n : ℕ) : Option F := t.slots[n]?.join

def put (t : FdTable F) (n : ℕ) (x : Option F) : FdTable F :=
  ⟨(t.slots ++ List.replicate (n + 1 - t.slots.length) none).set n x⟩

/-- The lowest number that is free. -/
def lowest (t : FdTable F) : ℕ := t.slots.findIdx Option.isNone

def alloc (t : FdTable F) (f : F) : ℕ × FdTable F := (t.lowest, t.put t.lowest (some f))

def close (t : FdTable F) (n : ℕ) : FdTable F := t.put n none

/-- The second number names what the first one does, and nothing else any more. -/
def dup2 (t : FdTable F) (n m : ℕ) : FdTable F :=
  match t.get n with
  | none => t
  | some f => t.put m (some f)

/-- How many numbers below `n` are free. -/
def closedBelow (t : FdTable F) (n : ℕ) : ℕ := (List.range n).countP fun m => (t.get m).isNone

/-! ## The operations, number by number -/

@[simp] theorem get_put (t : FdTable F) (n m : ℕ) (x : Option F) :
    (t.put n x).get m = if m = n then x else t.get m := by
  simp only [get, put, List.getElem?_set, List.length_append, List.length_replicate]
  by_cases hm : m = n
  · subst hm
    rw [if_pos rfl, if_pos (by omega), if_pos rfl]
    rfl
  · rw [if_neg (Ne.symm hm), if_neg hm, List.getElem?_append]
    split
    · rfl
    · rename_i hlen
      rw [List.getElem?_eq_none (Nat.not_lt.mp hlen), List.getElem?_replicate]
      split <;> rfl

@[simp] theorem get_close (t : FdTable F) (n m : ℕ) :
    (t.close n).get m = if m = n then none else t.get m := get_put t n m none

theorem get_dup2 (h : t.get n = some f) :
    (t.dup2 n m).get k = if k = m then some f else t.get k := by
  simp only [dup2, h, get_put]

theorem get_lowest (t : FdTable F) : t.get t.lowest = none := by
  unfold get lowest
  cases hx : t.slots[t.slots.findIdx Option.isNone]? with
  | none => rfl
  | some x =>
    obtain ⟨hlt, rfl⟩ := List.getElem?_eq_some_iff.mp hx
    exact Option.isNone_iff_eq_none.mp (List.findIdx_getElem (w := hlt))

theorem get_of_lt_lowest (h : n < t.lowest) : t.get n ≠ none := by
  have hlen : n < t.slots.length := Nat.lt_of_lt_of_le h List.findIdx_le_length
  have hsome := List.not_of_lt_findIdx h
  rw [get, List.getElem?_eq_getElem hlen, Option.join_some]
  intro hnone
  simp [hnone] at hsome

/-! ## The lowest number that is free -/

/-- `t'` is `t` with one more entry, at the lowest number that was free. -/
structure Takes (t : FdTable F) (n : ℕ) (f : F) (t' : FdTable F) : Prop where
  free : t.get n = none
  below : ∀ m < n, t.get m ≠ none
  get : ∀ m, t'.get m = if m = n then some f else t.get m

theorem takes_alloc (t : FdTable F) (f : F) : t.Takes (t.alloc f).1 f (t.alloc f).2 :=
  ⟨t.get_lowest, fun _ => get_of_lt_lowest, fun m => t.get_put _ m _⟩

theorem Takes.get_self (h : t.Takes n f t') : t'.get n = some f := by rw [h.get, if_pos rfl]

/-- Closing it again leaves nothing behind. -/
theorem Takes.get_close (h : t.Takes n f t') : (t'.close n).get m = t.get m := by
  rw [FdTable.get_close, h.get]
  split
  · rename_i hm
    rw [hm, h.free]
  · rfl

/-- The entry may change while it has the number. -/
theorem Takes.put {g : F} (h : t.Takes n f t') : t.Takes n g (t'.put n (some g)) := by
  refine ⟨h.free, h.below, fun m => ?_⟩
  rw [get_put, h.get]
  split <;> rfl

theorem Takes.congr {s : FdTable F} (hs : ∀ m, s.get m = t.get m) (h : s.Takes n f t') :
    t.Takes n f t' :=
  ⟨hs n ▸ h.free, fun m hm => hs m ▸ h.below m hm, fun m => hs m ▸ h.get m⟩

theorem closedBelow_succ (t : FdTable F) (n : ℕ) :
    t.closedBelow (n + 1) = t.closedBelow n + if t.get n = none then 1 else 0 := by
  simp only [closedBelow, List.range_succ, List.countP_append, List.countP_singleton,
    Option.isNone_iff_eq_none]

theorem closedBelow_mono (t : FdTable F) (h : n ≤ m) : t.closedBelow n ≤ t.closedBelow m := by
  induction h with
  | refl => exact Nat.le_refl _
  | step _ ih => exact Nat.le_trans ih (by rw [closedBelow_succ]; exact Nat.le_add_right _ _)

theorem Takes.closedBelow_self (h : t.Takes n f t') : t.closedBelow n = 0 := by
  simp only [FdTable.closedBelow, List.countP_eq_zero, List.mem_range, Option.isNone_iff_eq_none]
  exact h.below

theorem Takes.closedBelow (h : t.Takes n f t') (k : ℕ) :
    t.closedBelow k = t'.closedBelow k + if n < k then 1 else 0 := by
  induction k with
  | zero => rfl
  | succ k ih =>
    rw [closedBelow_succ, closedBelow_succ, ih, h.get]
    by_cases hk : k = n
    · subst hk
      simp [h.free]
    · have hlt : n < k + 1 ↔ n < k := by omega
      simp only [if_neg hk, hlt]
      omega

/-! ## One after the other -/

/-- `t'` is `t` with these entries, each at the lowest number that was free at its time. -/
inductive TakesAll : FdTable F → List (ℕ × F) → FdTable F → Prop
  | nil {t : FdTable F} : TakesAll t [] t
  | cons {t t' t'' : FdTable F} {n : ℕ} {f : F} {l : List (ℕ × F)} (h : t.Takes n f t')
      (hs : TakesAll t' l t'') : TakesAll t ((n, f) :: l) t''

theorem Takes.of_get_eq_none (h : t.Takes n f t') (hm : t'.get m = none) :
    t.get m = none ∧ n < m := by
  rw [h.get] at hm
  split at hm
  · exact absurd hm (Option.some_ne_none f)
  · rename_i hne
    have hle : n ≤ m := Nat.le_of_not_lt fun hlt => h.below m hlt hm
    exact ⟨hm, by omega⟩

theorem TakesAll.free (h : t.TakesAll l t') : ∀ p ∈ l, t.get p.1 = none := by
  induction h with
  | nil => simp
  | cons h _ ih => exact List.forall_mem_cons.mpr ⟨h.free, fun p hp => (h.of_get_eq_none (ih p hp)).1⟩

/-- Every other number names what it did. -/
theorem TakesAll.get_of_notMem (h : t.TakesAll l t') (hn : ∀ p ∈ l, p.1 ≠ n) :
    t'.get n = t.get n := by
  induction h with
  | nil => rfl
  | cons h _ ih =>
    rw [List.forall_mem_cons] at hn
    rw [ih hn.2, h.get, if_neg (Ne.symm hn.1)]

theorem TakesAll.get_of_mem (h : t.TakesAll l t') (hn : (n, f) ∈ l) : t'.get n = some f := by
  induction h with
  | nil => simp at hn
  | cons h hs ih =>
    cases List.mem_cons.mp hn with
    | inr htail => exact ih htail
    | inl heq =>
      obtain ⟨rfl, rfl⟩ := Prod.mk.inj heq
      rw [hs.get_of_notMem, h.get_self]
      exact fun p hp => Nat.ne_of_gt (h.of_get_eq_none (hs.free p hp)).2

/-- Each entry has as many free numbers below its own as there are entries before it. -/
theorem TakesAll.closedBelow (h : t.TakesAll l t') (hi : l[i]? = some (n, f)) :
    t.closedBelow n = i := by
  induction h generalizing i with
  | nil => simp at hi
  | cons h hs ih =>
    cases i with
    | zero =>
      obtain ⟨rfl, rfl⟩ := Prod.mk.inj (Option.some.inj hi)
      exact h.closedBelow_self
    | succ i =>
      have hfree := hs.free _ (List.mem_of_getElem? hi)
      rw [h.closedBelow, ih hi, if_pos (h.of_get_eq_none hfree).2]

theorem TakesAll.lt_iff (h : t.TakesAll l t') (hi : l[i]? = some (n, f)) :
    n < k ↔ i < t.closedBelow k := by
  have hn := h.closedBelow hi
  constructor
  · intro hlt
    have hle := t.closedBelow_mono hlt
    have hfree := h.free _ (List.mem_of_getElem? hi)
    rw [closedBelow_succ, if_pos hfree] at hle
    omega
  · intro hlt
    by_contra hge
    have hle := t.closedBelow_mono (Nat.le_of_not_lt hge)
    omega

end FdTable

end Celeritas.Lib
