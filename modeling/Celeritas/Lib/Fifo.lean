import Mathlib.Data.List.Basic

/-!
# The bounded queue one would like to have

A list with a bound and a flag that says that it is closed, the calls on it and their
answers. A call that would have to wait is not enabled (`none`). What such a queue promises
is a statement about the answers it has given (`Fifo.Follows`): what left is what entered,
in that order, and nobody is turned away from a closed queue while it holds anything.

Nothing here says how the list is kept.
-/

set_option autoImplicit false

namespace Celeritas.Lib

structure Fifo (α : Type*) where
  items : List α
  capacity : ℕ
  closed : Bool

namespace Fifo

variable {α : Type*}

inductive Call (α : Type*)
  | push (x : α)
  /-- waits for an element -/
  | pop
  /-- does not wait for one -/
  | trypop
  | close

inductive Answer (α : Type*)
  | pushed (x : α)
  | item (x : α)
  | empty
  | closed
  /-- that of `Call.close` -/
  | closing

def exec (f : Fifo α) : Call α → Option (Answer α × Fifo α)
  | .push x =>
    if f.items.length = f.capacity then none
    else some (.pushed x, { f with items := f.items ++ [x] })
  | .pop =>
    match f.items with
    | x :: rest => some (.item x, { f with items := rest })
    | [] => if f.closed then some (.closed, f) else none
  | .trypop =>
    match f.items with
    | x :: rest => some (.item x, { f with items := rest })
    | [] => some (if f.closed then .closed else .empty, f)
  | .close => some (.closing, { f with closed := true })

def Answer.entered? : Answer α → Option α
  | .pushed x => some x
  | _ => none

def Answer.left? : Answer α → Option α
  | .item x => some x
  | _ => none

/-- What has been pushed, the first one first. -/
def entered (answers : List (Answer α)) : List α := answers.filterMap Answer.entered?

/-- What has been popped, the first one first. -/
def left (answers : List (Answer α)) : List α := answers.filterMap Answer.left?

theorem entered_snoc (answers : List (Answer α)) (r : Answer α) :
    entered (answers ++ [r]) = entered answers ++ r.entered?.toList := by
  rw [entered, List.filterMap_append]
  cases h : r.entered? with
  | none => simp [h, entered]
  | some x => simp [h, entered]

theorem left_snoc (answers : List (Answer α)) (r : Answer α) :
    left (answers ++ [r]) = left answers ++ r.left?.toList := by
  rw [left, List.filterMap_append]
  cases h : r.left? with
  | none => simp [h, left]
  | some x => simp [h, left]

/-- The queue holds what has entered and not left, and whoever was told that it is closed
was told so when nothing was left in it. -/
structure Follows (f : Fifo α) (answers : List (Answer α)) : Prop where
  items : left answers ++ f.items = entered answers
  closed : f.closed = true ↔ Answer.closing ∈ answers
  drained : ∀ before after, answers = before ++ Answer.closed :: after →
    left before = entered before ∧ Answer.closing ∈ before

theorem follows_nil (capacity : ℕ) : Follows (⟨[], capacity, false⟩ : Fifo α) [] where
  items := rfl
  closed := by simp
  drained := by
    intro before after h
    exact absurd h.symm (List.append_ne_nil_of_right_ne_nil _ (List.cons_ne_nil _ _))

/-- An answer that turns nobody away. -/
theorem Follows.drained_snoc {f : Fifo α} {answers : List (Answer α)} (h : f.Follows answers)
    {r : Answer α} (hr : r = .closed → left answers = entered answers ∧ Answer.closing ∈ answers)
    (before after : List (Answer α)) (he : answers ++ [r] = before ++ Answer.closed :: after) :
    left before = entered before ∧ Answer.closing ∈ before := by
  rcases List.eq_nil_or_concat after with rfl | ⟨init, x, rfl⟩
  · obtain ⟨rfl, hlast⟩ := List.append_inj' he rfl
    exact hr (List.cons.inj hlast).1
  · rw [List.concat_eq_append, ← List.cons_append, ← List.append_assoc] at he
    exact h.drained before init (List.append_inj' he rfl).1

theorem Follows.item {f : Fifo α} {answers : List (Answer α)} (h : f.Follows answers) {x : α}
    {rest : List α} (hitems : f.items = x :: rest) :
    ({ f with items := rest } : Fifo α).Follows (answers ++ [.item x]) where
  items := by
    rw [entered_snoc, left_snoc, ← h.items, hitems]
    simp [Answer.entered?, Answer.left?]
  closed := by simpa using h.closed
  drained := h.drained_snoc fun hr => nomatch hr

/-- Telling that there is nothing. -/
theorem Follows.none {f : Fifo α} {answers : List (Answer α)} (h : f.Follows answers)
    (hitems : f.items = []) :
    f.Follows (answers ++ [.empty]) ∧ (f.closed = true → f.Follows (answers ++ [.closed])) := by
  have hleft : left answers = entered answers := by
    rw [← h.items, hitems, List.append_nil]
  refine ⟨⟨?_, by simpa using h.closed, h.drained_snoc fun hr => nomatch hr⟩, fun hclosed =>
    ⟨?_, by simpa using h.closed, h.drained_snoc fun _ => ⟨hleft, h.closed.mp hclosed⟩⟩⟩
  · rw [entered_snoc, left_snoc, hitems, hleft]
    simp [Answer.entered?, Answer.left?]
  · rw [entered_snoc, left_snoc, hitems, hleft]
    simp [Answer.entered?, Answer.left?]

/-- **A queue answers truthfully.** -/
theorem Follows.exec {f f' : Fifo α} {answers : List (Answer α)} {call : Call α} {r : Answer α}
    (h : f.Follows answers) (he : f.exec call = some (r, f')) : f'.Follows (answers ++ [r]) := by
  cases call with
  | push x =>
    simp only [Fifo.exec] at he
    split_ifs at he
    obtain ⟨rfl, rfl⟩ := Prod.mk.inj (Option.some.inj he)
    refine ⟨?_, by simpa using h.closed, h.drained_snoc fun hr => nomatch hr⟩
    rw [entered_snoc, left_snoc, ← h.items]
    simp [Answer.entered?, Answer.left?]
  | pop =>
    cases hitems : f.items with
    | nil =>
      simp only [Fifo.exec, hitems] at he
      split_ifs at he with hclosed
      obtain ⟨rfl, rfl⟩ := Prod.mk.inj (Option.some.inj he)
      exact (h.none hitems).2 hclosed
    | cons x rest =>
      simp only [Fifo.exec, hitems] at he
      obtain ⟨rfl, rfl⟩ := Prod.mk.inj (Option.some.inj he)
      exact h.item hitems
  | trypop =>
    cases hitems : f.items with
    | nil =>
      simp only [Fifo.exec, hitems] at he
      obtain ⟨rfl, rfl⟩ := Prod.mk.inj (Option.some.inj he)
      split_ifs with hclosed
      · exact (h.none hitems).2 hclosed
      · exact (h.none hitems).1
    | cons x rest =>
      simp only [Fifo.exec, hitems] at he
      obtain ⟨rfl, rfl⟩ := Prod.mk.inj (Option.some.inj he)
      exact h.item hitems
  | close =>
    obtain ⟨rfl, rfl⟩ := Prod.mk.inj (Option.some.inj he)
    refine ⟨?_, by simp, h.drained_snoc fun hr => nomatch hr⟩
    rw [entered_snoc, left_snoc, ← h.items]
    simp [Answer.entered?, Answer.left?]

end Fifo

end Celeritas.Lib
