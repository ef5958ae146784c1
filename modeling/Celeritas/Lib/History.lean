import Mathlib.Data.List.Induction
import Mathlib.Data.List.Count

/-!
# What events say about those before them

A trace that grows at its end is right if each event was allowed by what had happened
before. Such a condition is an invariant like any other (`historic_concat`), and what it says
of the whole trace is read off afterwards.
-/

set_option autoImplicit false

namespace Celeritas.Lib

variable {α : Type*} {P : List α → α → Prop}

/-- Every event of the trace was allowed by the events before it. -/
def Historic (P : List α → α → Prop) (trace : List α) : Prop :=
  ∀ pre e post, trace = pre ++ e :: post → P pre e

theorem Historic.nil : Historic P [] := by
  intro pre e post h
  simp at h

/-- One more event. -/
theorem historic_concat {trace : List α} {e : α} :
    Historic P (trace ++ [e]) ↔ Historic P trace ∧ P trace e := by
  constructor
  · intro h
    refine ⟨?_, h trace e [] rfl⟩
    rintro pre d post rfl
    exact h pre d (post ++ [e]) (by simp)
  · rintro ⟨h, he⟩ pre d post heq
    cases post using List.reverseRecOn with
    | nil =>
      obtain ⟨rfl, hde⟩ := List.append_inj' heq rfl
      obtain rfl := List.singleton_inj.mp hde
      exact he
    | append_singleton post c =>
      rw [← List.cons_append, ← List.append_assoc] at heq
      exact h pre d post (List.append_inj' heq rfl).1

/-- What is only allowed when it has not happened happens once at most. -/
theorem Historic.count_le_one [DecidableEq α] {trace : List α} (h : Historic P trace) {e : α}
    (he : ∀ pre, P pre e → e ∉ pre) : trace.count e ≤ 1 := by
  induction trace using List.reverseRecOn with
  | nil => exact Nat.zero_le _
  | append_singleton trace d ih =>
    rw [historic_concat] at h
    rw [List.count_append]
    by_cases hde : d = e
    · subst hde
      have hbefore : trace.count d = 0 := List.count_eq_zero.mpr (he trace h.2)
      have hnow : [d].count d = 1 := List.count_singleton_self
      omega
    · rw [List.count_singleton, if_neg (by simpa using hde)]
      exact ih h.1

end Celeritas.Lib
