import Mathlib.Algebra.BigOperators.Group.Finset.Piecewise
import Mathlib.Algebra.Order.Group.Multiset
import Mathlib.Data.Multiset.Basic
import Mathlib.Tactic.Abel

/-!
# Bags kept in arrays and spread over threads

Two ways a program keeps a bag of things it must neither lose nor duplicate: an array from
which an element is removed by moving the last one into its place, and one variable in
each of a family of threads. In both the order means nothing, and what has to be known of
an update is which element left and which came. A bag with a bound is known by its answers:
its books (`BoundedBag.Accounts`) say that nothing is lost in it.
-/

set_option autoImplicit false

namespace Celeritas.Lib

/-! ## Removal by moving the last element -/

section SwapRemove

variable {α : Type*}

/-- `items[i] = items[count - 1]; count--` -/
def swapRemove (l : List α) (i : ℕ) : List α :=
  match l.getLast? with
  | none => l
  | some x => (l.set i x).dropLast

@[simp] theorem length_swapRemove (l : List α) (i : ℕ) :
    (swapRemove l i).length = l.length - 1 := by
  unfold swapRemove
  cases h : l.getLast? with
  | none => simp [List.getLast?_eq_none_iff.mp h]
  | some x => simp

theorem swapRemove_perm {l : List α} {i : ℕ} (hi : i < l.length) :
    (swapRemove l i).Perm (l.eraseIdx i) := by
  obtain ⟨init, x, rfl⟩ := (List.eq_nil_or_concat l).resolve_left
    (fun h => by simp [h] at hi)
  rw [List.concat_eq_append] at hi ⊢
  have hlast : swapRemove (init ++ [x]) i = ((init ++ [x]).set i x).dropLast := by
    simp [swapRemove]
  rw [hlast]
  rcases Nat.lt_or_ge i init.length with h | h
  · rw [List.set_append_left _ _ h, List.dropLast_concat,
      List.eraseIdx_append_of_lt_length h, List.set_eq_take_append_cons_drop, if_pos h,
      List.eraseIdx_eq_take_drop_succ, List.append_assoc]
    exact List.Perm.append_left _ (List.perm_append_singleton x _).symm
  · have hi' : i = init.length := by
      rw [List.length_append, List.length_singleton] at hi
      omega
    subst hi'
    rw [List.set_append_right _ _ (Nat.le_refl _), Nat.sub_self,
      List.eraseIdx_append_of_length_le (Nat.le_refl _), Nat.sub_self]
    simp

/-- The removed element and what stays make up the bag. -/
theorem coe_swapRemove {l : List α} {i : ℕ} (hi : i < l.length) :
    (l : Multiset α) = l[i] ::ₘ (swapRemove l i : Multiset α) := by
  rw [Multiset.cons_coe, Multiset.coe_eq_coe]
  have h := (List.getElem_cons_eraseIdx_perm hi).symm
  exact h.trans ((swapRemove_perm hi).symm.cons _)

/-- What comes before the gap stays where it is. -/
theorem take_swapRemove {l : List α} {i : ℕ} (hi : i < l.length) :
    (swapRemove l i).take i = l.take i := by
  unfold swapRemove
  cases h : l.getLast? with
  | none => rfl
  | some x =>
    have hle : i ≤ l.length - 1 := by omega
    simp only [List.dropLast_eq_take, List.length_set, List.take_take, Nat.min_eq_left hle]
    rw [List.take_set_of_le (Nat.le_refl i)]

end SwapRemove

/-! ## A bag with a bound -/

section BoundedBag

variable {α : Type*}

structure BoundedBag (α : Type*) where
  items : Multiset α
  capacity : ℕ

namespace BoundedBag

/-- What a call on a bag has done to it. -/
inductive Answer (α : Type*)
  | put (x : α)
  | full
  | taken (xs : Multiset α)

/-- An answer, and the bag after it, that a bag with a bound may give. -/
def Gives (b : BoundedBag α) : Answer α → BoundedBag α → Prop
  | .put x, b' => b.items.card < b.capacity ∧ b' = { b with items := x ::ₘ b.items }
  | .full, b' => b.items.card = b.capacity ∧ b' = b
  | .taken xs, b' => b.items = xs + b'.items ∧ b'.capacity = b.capacity

def Answer.entered : Answer α → Multiset α
  | .put x => {x}
  | _ => 0

def Answer.left : Answer α → Multiset α
  | .taken xs => xs
  | _ => 0

/-- The books of a bag that was empty: what is in it and what has left it is what has
entered it, and there is never more in it than the bound. -/
structure Accounts (b : BoundedBag α) (answers : List (Answer α)) : Prop where
  card_le : b.items.card ≤ b.capacity
  balance : b.items + (answers.map Answer.left).sum = (answers.map Answer.entered).sum

theorem accounts_nil (capacity : ℕ) : (⟨0, capacity⟩ : BoundedBag α).Accounts [] where
  card_le := Nat.zero_le _
  balance := by simp

/-- **The books stay in balance.** -/
theorem Accounts.gives {b b' : BoundedBag α} {answers : List (Answer α)} {a : Answer α}
    (h : b.Accounts answers) (hg : b.Gives a b') : b'.Accounts (answers ++ [a]) := by
  have hbal := h.balance
  cases a with
  | put x =>
    obtain ⟨hlt, rfl⟩ := hg
    refine ⟨(Multiset.card_cons x b.items).symm ▸ hlt, ?_⟩
    simp only [List.map_append, List.sum_append, List.map_singleton, List.sum_singleton,
      Answer.entered, Answer.left, add_zero, ← hbal, ← Multiset.singleton_add]
    abel
  | full =>
    obtain ⟨-, rfl⟩ := hg
    refine ⟨h.card_le, ?_⟩
    simpa [Answer.entered, Answer.left] using hbal
  | taken xs =>
    obtain ⟨hitems, hcap⟩ := hg
    refine ⟨?_, ?_⟩
    · have hle := h.card_le
      rw [hitems, Multiset.card_add] at hle
      omega
    · simp only [List.map_append, List.sum_append, List.map_singleton, List.sum_singleton,
        Answer.entered, Answer.left, add_zero, ← hbal, hitems]
      abel

end BoundedBag

end BoundedBag

/-! ## A family of holdings, one of which changes -/

section Family

variable {ι α β : Type*} [Fintype ι] [DecidableEq ι]

/-- Changing what one member of a family holds changes the total by the difference. -/
theorem sum_update_add [AddCommMonoid β] (f : α → β) (g : ι → α) (i : ι) (x : α) :
    (∑ j, f (Function.update g i x j)) + f (g i) = (∑ j, f (g j)) + f x := by
  rw [← Finset.add_sum_erase _ _ (Finset.mem_univ i),
    ← Finset.add_sum_erase Finset.univ (fun j => f (g j)) (Finset.mem_univ i)]
  have h : ∑ j ∈ Finset.univ.erase i, f (Function.update g i x j)
      = ∑ j ∈ Finset.univ.erase i, f (g j) :=
    Finset.sum_congr rfl fun j hj => by rw [Function.update_of_ne (Finset.ne_of_mem_erase hj)]
  rw [h, Function.update_self]
  abel

/-- And so does counting the members of which something is true. -/
theorem card_filter_update (P : α → Bool) (g : ι → α) (i : ι) (x : α) :
    (Finset.univ.filter fun j => P (Function.update g i x j) = true).card + (P (g i)).toNat =
      (Finset.univ.filter fun j => P (g j) = true).card + (P x).toNat := by
  have hcount : ∀ h : ι → α, (Finset.univ.filter fun j => P (h j) = true).card =
      ∑ j, (P (h j)).toNat := by
    intro h
    rw [Finset.card_filter]
    apply Finset.sum_congr rfl
    intro j _
    cases P (h j) <;> rfl
  rw [hcount, hcount]
  exact sum_update_add (fun a => (P a).toNat) g i x

end Family

end Celeritas.Lib
