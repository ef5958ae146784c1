import Mathlib.Data.List.Basic

/-!
# Runs of a labelled step function

Every concurrent part of this development is a step function `σ → α → Option σ`: the
state, one action of one thread, and the state after it (`none` where the action is not
enabled). This file has the little theory of such functions that the rest of the
development spends, and it names nothing of the program.

Two views of a run are needed and neither is derived from the other for free:

* `Reach step C s t` — some run leads from `s` to `t`, every step of which satisfies the
  step condition `C`. Invariants are proved over it (`Reach.inv`).
* `Along step P s as` / `EachStep step C s as` — the run that a *given* list of actions
  takes, all its states satisfying `P`, all its steps satisfying `C`. An exactness result
  ("the run is good if and only if each step was") needs the list, and
  `along_iff_eachStep` is the one induction it costs.

A list whose next action is disabled stops there: what follows is no run, and neither
predicate says anything about it.
-/

set_option autoImplicit false

namespace Celeritas.Lib

variable {σ α : Type*} {step : σ → α → Option σ}

/-- Take the actions in order; `none` as soon as one of them is disabled. -/
def run (step : σ → α → Option σ) : σ → List α → Option σ
  | s, [] => some s
  | s, a :: as => (step s a).bind fun s' => run step s' as

theorem run_append (as bs : List α) (s : σ) :
    run step s (as ++ bs) = (run step s as).bind fun t => run step t bs := by
  induction as generalizing s with
  | nil => rfl
  | cons a as ih =>
    cases hs : step s a with
    | none => simp [run, hs]
    | some s' =>
      simp only [List.cons_append, run, hs, Option.bind_some]
      exact ih s'

/-- Every state the run passes through satisfies `P`, the first and the last included. -/
def Along (step : σ → α → Option σ) (P : σ → Prop) : σ → List α → Prop
  | s, [] => P s
  | s, a :: as => P s ∧ ∀ s', step s a = some s' → Along step P s' as

/-- Every step the run takes satisfies `C`. -/
def EachStep (step : σ → α → Option σ) (C : σ → α → σ → Prop) : σ → List α → Prop
  | _, [] => True
  | s, a :: as => ∀ s', step s a = some s' → C s a s' ∧ EachStep step C s' as

/-- `t` is reached from `s` by steps that all satisfy `C`. -/
inductive Reach (step : σ → α → Option σ) (C : σ → α → σ → Prop) (s : σ) : σ → Prop
  | refl : Reach step C s s
  | tail {t u : σ} (a : α) (h : Reach step C s t) (hs : step t a = some u) (hc : C t a u) :
      Reach step C s u

/-- Reachability with no condition on the steps. -/
abbrev Reachable (step : σ → α → Option σ) (s t : σ) : Prop :=
  Reach step (fun _ _ _ => True) s t

/-- The step function of an object that is called and answers, with the answers it has
given. -/
def answering {ρ : Type*} (exec : σ → α → Option (ρ × σ)) (s : σ × List ρ) (a : α) :
    Option (σ × List ρ) :=
  (exec s.1 a).map fun r => (r.2, s.2 ++ [r.1])

/-! ## Reachability -/

theorem Reach.trans {C : σ → α → σ → Prop} {s t u : σ} (h₁ : Reach step C s t)
    (h₂ : Reach step C t u) : Reach step C s u := by
  induction h₂ with
  | refl => exact h₁
  | tail a _ hs hc ih => exact .tail a ih hs hc

theorem Reach.single {C : σ → α → σ → Prop} {s t : σ} (a : α) (hs : step s a = some t)
    (hc : C s a t) : Reach step C s t := .tail a .refl hs hc

theorem Reach.head {C : σ → α → σ → Prop} {s t u : σ} (a : α) (hs : step s a = some t)
    (hc : C s a t) (h : Reach step C t u) : Reach step C s u := (Reach.single a hs hc).trans h

/-- **The invariant rule.** What holds at the start and is kept by every step that
satisfies `C` holds wherever such steps lead. -/
theorem Reach.inv {C : σ → α → σ → Prop} {I : σ → Prop} {s t : σ} (h : Reach step C s t)
    (h₀ : I s) (hI : ∀ t a u, I t → step t a = some u → C t a u → I u) : I t := by
  induction h with
  | refl => exact h₀
  | tail a _ hs hc ih => exact hI _ _ _ ih hs hc

/-- A successful `run` is a path of `Reach`, with the step conditions it met. -/
theorem Reach.of_run {C : σ → α → σ → Prop} {as : List α} {s t : σ}
    (h : run step s as = some t) (hc : EachStep step C s as) : Reach step C s t := by
  induction as generalizing s with
  | nil =>
    simp only [run, Option.some.injEq] at h
    exact h ▸ .refl
  | cons a as ih =>
    obtain ⟨s', hs, hr⟩ := Option.bind_eq_some_iff.mp h
    obtain ⟨hca, hcs⟩ := hc s' hs
    exact .head a hs hca (ih hr hcs)

/-- A condition on the actions alone. -/
theorem EachStep.of_forall_mem {A : α → Prop} {as : List α} (h : ∀ a ∈ as, A a) (s : σ) :
    EachStep step (fun _ a _ => A a) s as := by
  induction as generalizing s with
  | nil => trivial
  | cons a as ih =>
    intro s' _
    exact ⟨h a List.mem_cons_self, ih (fun b hb => h b (List.mem_cons_of_mem _ hb)) s'⟩

theorem EachStep.trivially (as : List α) (s : σ) : EachStep step (fun _ _ _ => True) s as := by
  induction as generalizing s with
  | nil => trivial
  | cons a as ih =>
    intro s' _
    exact ⟨trivial, ih s'⟩

theorem Reachable.of_run (as : List α) {s t : σ} (h : run step s as = some t) :
    Reachable step s t :=
  Reach.of_run h (EachStep.trivially as s)

/-! ## Runs of a given list of actions -/

theorem Along.head {P : σ → Prop} {s : σ} {as : List α} (h : Along step P s as) : P s := by
  cases as with
  | nil => exact h
  | cons a as => exact h.1

theorem Along.last {P : σ → Prop} {as : List α} {s t : σ} (h : Along step P s as)
    (hr : run step s as = some t) : P t := by
  induction as generalizing s with
  | nil =>
    simp only [run, Option.some.injEq] at hr
    exact hr ▸ h
  | cons a as ih =>
    obtain ⟨s', hs, hr'⟩ := Option.bind_eq_some_iff.mp hr
    exact ih (h.2 s' hs) hr'

/-- An invariant of the conditioned steps holds all along a run whose steps meet the
condition. -/
theorem EachStep.along {C : σ → α → σ → Prop} {I : σ → Prop}
    (hI : ∀ s a s', I s → step s a = some s' → C s a s' → I s') {as : List α} {s : σ}
    (h₀ : I s) (h : EachStep step C s as) : Along step I s as := by
  induction as generalizing s with
  | nil => exact h₀
  | cons a as ih =>
    refine ⟨h₀, ?_⟩
    intro s' hs
    obtain ⟨hc, hrest⟩ := h s' hs
    exact ih (hI s a s' h₀ hs hc) hrest

theorem EachStep.and {C D : σ → α → σ → Prop} {as : List α} {s : σ} (hc : EachStep step C s as)
    (hd : EachStep step D s as) : EachStep step (fun s a s' => C s a s' ∧ D s a s') s as := by
  induction as generalizing s with
  | nil => trivial
  | cons a as ih =>
    intro s' hs
    obtain ⟨hca, hcs⟩ := hc s' hs
    obtain ⟨hda, hds⟩ := hd s' hs
    exact ⟨⟨hca, hda⟩, ih hcs hds⟩

/-- Under an invariant of the steps that satisfy it, a step condition may be traded for one
that follows from it. -/
theorem EachStep.imp {C D : σ → α → σ → Prop} {J : σ → Prop}
    (hJ : ∀ s a s', J s → step s a = some s' → C s a s' → J s')
    (hCD : ∀ s a s', J s → step s a = some s' → C s a s' → D s a s') (as : List α) {s : σ}
    (hj : J s) (h : EachStep step C s as) : EachStep step D s as := by
  induction as generalizing s with
  | nil => trivial
  | cons a as ih =>
    intro s' hs
    obtain ⟨hc, hrest⟩ := h s' hs
    exact ⟨hCD s a s' hj hs hc, ih (hJ s a s' hj hs hc) hrest⟩

/-- A step condition may be traded for a weaker one. -/
theorem EachStep.mono {C D : σ → α → σ → Prop} (hCD : ∀ s a s', C s a s' → D s a s')
    {as : List α} {s : σ} (h : EachStep step C s as) : EachStep step D s as := by
  refine h.imp (J := fun _ => True) ?_ ?_ as trivial
  · exact fun _ _ _ _ _ _ => trivial
  · exact fun s a s' _ _ => hCD s a s'

theorem Along.mono {P Q : σ → Prop} (h : ∀ s, P s → Q s) {as : List α} {s : σ}
    (hp : Along step P s as) : Along step Q s as := by
  induction as generalizing s with
  | nil => exact h s hp
  | cons a as ih =>
    refine ⟨h s hp.1, ?_⟩
    intro s' hs
    exact ih (hp.2 s' hs)

theorem Along.and {P Q : σ → Prop} {as : List α} {s : σ} (hp : Along step P s as)
    (hq : Along step Q s as) : Along step (fun s => P s ∧ Q s) s as := by
  induction as generalizing s with
  | nil => exact ⟨hp, hq⟩
  | cons a as ih =>
    refine ⟨⟨hp.1, hq.1⟩, ?_⟩
    intro s' hs
    exact ih (hp.2 s' hs) (hq.2 s' hs)

/-- An invariant holds all along every run. -/
theorem along_of_inv {I : σ → Prop} (hI : ∀ s a s', I s → step s a = some s' → I s')
    (as : List α) {s : σ} (h₀ : I s) : Along step I s as :=
  EachStep.along (fun s a s' hi hs _ => hI s a s' hi hs) h₀ (EachStep.trivially as s)

/-- **Exactness of a step condition.** Under an unconditional invariant `J`, if a step
from a good state leads to a good state exactly when it meets `C`, then a run from a good
state is good throughout exactly when each of its steps meets `C`. -/
theorem along_iff_eachStep {C : σ → α → σ → Prop} {J P : σ → Prop}
    (hJ : ∀ s a s', J s → step s a = some s' → J s')
    (hP : ∀ s a s', J s → P s → step s a = some s' → (P s' ↔ C s a s')) (as : List α) {s : σ}
    (hj : J s) (hp : P s) : Along step P s as ↔ EachStep step C s as := by
  induction as generalizing s with
  | nil => exact ⟨fun _ => trivial, fun _ => hp⟩
  | cons a as ih =>
    constructor
    · intro h s' hs
      have hp' : P s' := (h.2 s' hs).head
      exact ⟨(hP s a s' hj hp hs).mp hp', (ih (hJ s a s' hj hs) hp').mp (h.2 s' hs)⟩
    · intro h
      refine ⟨hp, ?_⟩
      intro s' hs
      -- the condition makes `s'` good, and only then does the rest of the run count
      have hp' : P s' := (hP s a s' hj hp hs).mpr (h s' hs).1
      exact (ih (hJ s a s' hj hs) hp').mpr (h s' hs).2

/-- The same for a condition on the actions, where every action can be taken. -/
theorem along_iff_forall_mem {A : α → Prop} {P : σ → Prop} {as : List α} {s : σ}
    (hstep : ∀ s, ∀ a ∈ as, P s → ∃ s', step s a = some s' ∧ (P s' ↔ A a)) (hp : P s) :
    Along step P s as ↔ ∀ a ∈ as, A a := by
  induction as generalizing s with
  | nil => exact iff_of_true hp fun a ha => absurd ha List.not_mem_nil
  | cons a as ih =>
    obtain ⟨s', hs, ha⟩ := hstep s a List.mem_cons_self hp
    have hrest : P s' → (Along step P s' as ↔ ∀ b ∈ as, A b) :=
      ih fun t b hb => hstep t b (List.mem_cons_of_mem a hb)
    rw [List.forall_mem_cons, ← ha]
    constructor
    · intro h
      have hnext := h.2 s' hs
      exact ⟨hnext.head, (hrest hnext.head).mp hnext⟩
    · rintro ⟨hp', hall⟩
      refine ⟨hp, ?_⟩
      intro t ht
      obtain rfl := Option.some.inj (hs.symm.trans ht)
      exact (hrest hp').mpr hall

end Celeritas.Lib
