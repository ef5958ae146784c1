import Celeritas.Lib.Run

/-!
# Runs that end

A rank that every step lowers bounds the length of the runs. Where some steps cost more than
they lower it, a second count that they raise pays for them, and the bound says how often
(`length_le_of_rank`).
-/

set_option autoImplicit false

namespace Celeritas.Lib

variable {σ α : Type*} {step : σ → α → Option σ} {I : σ → Prop} {A : α → Prop}

/-- Steps that each lower the rank, or raise the credit by more than the rank. -/
theorem length_le_of_rank {rank credit : σ → ℕ}
    (hI : ∀ s a s', I s → A a → step s a = some s' → I s')
    (hstep : ∀ s a s', I s → A a → step s a = some s' →
      rank s' + 1 + credit s ≤ rank s + credit s')
    {as : List α} (hA : ∀ a ∈ as, A a) {s t : σ} (hs : I s) (h : run step s as = some t) :
    as.length + rank t + credit s ≤ rank s + credit t := by
  induction as generalizing s with
  | nil =>
    obtain rfl := Option.some.inj h
    simp
  | cons a as ih =>
    rw [List.forall_mem_cons] at hA
    obtain ⟨s', hs', hrun⟩ := Option.bind_eq_some_iff.mp h
    have hone := hstep s a s' hs hA.1 hs'
    have hrest := ih hA.2 (hI s a s' hs hA.1 hs') hrun
    rw [List.length_cons]
    omega

/-- What such steps keep holds at the end of a run of them. -/
theorem inv_of_run (hI : ∀ s a s', I s → A a → step s a = some s' → I s') {as : List α}
    (hA : ∀ a ∈ as, A a) {s t : σ} (hs : I s) (h : run step s as = some t) : I t := by
  induction as generalizing s with
  | nil =>
    obtain rfl := Option.some.inj h
    exact hs
  | cons a as ih =>
    rw [List.forall_mem_cons] at hA
    obtain ⟨s', hs', hrun⟩ := Option.bind_eq_some_iff.mp h
    exact ih hA.2 (hI s a s' hs hA.1 hs') hrun

end Celeritas.Lib
