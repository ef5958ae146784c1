import Mathlib.Algebra.Group.Pi.Basic
import Mathlib.Algebra.BigOperators.Group.Multiset.Basic
import Mathlib.Data.Multiset.AddSub

/-!
# Tokens at places

A state as a marking: which tokens are at which place, as bags. What a step does to it is an
equation between markings, in which a token is added on one side where it goes and on the
other where it comes from (`Moves`), so that the equations of the parts of a state add up.

When no token is in two places the equation says where every token is before and after
(`Moves.at_src`, `Moves.at_dst`, `Moves.at_other`).
-/

set_option autoImplicit false

namespace Celeritas.Lib

variable {P T : Type*}

abbrev Marking (P T : Type*) := P → Multiset T

namespace Marking

/-- Where the token `t` is. -/
def At (m : Marking P T) (t : T) : Option P → Prop
  | some q => t ∈ m q
  | none => ∀ q, t ∉ m q

/-- No token is there twice. -/
structure Single (m : Marking P T) : Prop where
  nodup : ∀ q, (m q).Nodup
  unique : ∀ q r t, t ∈ m q → t ∈ m r → q = r

variable {m m' : Marking P T} {t : T}

/-- A token is in one place, or outside. -/
theorem At.unique (hm : m.Single) {o o' : Option P} (h : m.At t o) (h' : m.At t o') : o = o' := by
  cases o with
  | none =>
    cases o' with
    | none => rfl
    | some r => exact absurd h' (h r)
  | some q =>
    cases o' with
    | none => exact absurd h (h' q)
    | some r => exact congrArg some (hm.unique q r t h h')

theorem mem_sum_of_mem {qs : List P} {q : P} (hq : q ∈ qs) (ht : t ∈ m q) :
    t ∈ (qs.map m).sum := by
  induction qs with
  | nil => cases hq
  | cons r qs ih =>
    rw [List.map_cons, List.sum_cons, Multiset.mem_add]
    rcases List.mem_cons.mp hq with rfl | hqs
    · exact .inl ht
    · exact .inr (ih hqs)

/-- No token is twice in the bags of a list of places. -/
theorem single_on {qs : List P} (h : (qs.map m).sum.Nodup) : (∀ q ∈ qs, (m q).Nodup) ∧
    ∀ q ∈ qs, ∀ r ∈ qs, ∀ t, t ∈ m q → t ∈ m r → q = r := by
  induction qs with
  | nil => exact ⟨by simp, by simp⟩
  | cons a qs ih =>
    rw [List.map_cons, List.sum_cons, Multiset.nodup_add] at h
    obtain ⟨ha, hqs, hdisj⟩ := h
    obtain ⟨hnodup, hunique⟩ := ih hqs
    have hrest : ∀ q ∈ qs, ∀ t, t ∈ m q → t ∉ m a := fun q hq t ht hta =>
      Multiset.disjoint_left.mp hdisj hta (mem_sum_of_mem hq ht)
    refine ⟨List.forall_mem_cons.mpr ⟨ha, hnodup⟩, ?_⟩
    intro q hq r hr t htq htr
    rcases List.mem_cons.mp hq with rfl | hqs
    · rcases List.mem_cons.mp hr with rfl | hrs
      · rfl
      · exact absurd htq (hrest r hrs t htr)
    · rcases List.mem_cons.mp hr with rfl | hrs
      · exact absurd htr (hrest q hqs t htq)
      · exact hunique q hqs r hrs t htq htr

theorem single_of_nodup {qs : List P} (hall : ∀ q, q ∈ qs) (h : (qs.map m).sum.Nodup) :
    m.Single :=
  ⟨fun q => (single_on h).1 q (hall q), fun q r => (single_on h).2 q (hall q) r (hall r)⟩

/-! ## A token that goes from one place to another -/

variable [DecidableEq P] {src dst : Option P}

/-- One token at a place; `none` is outside. -/
def token (o : Option P) (t : T) : Marking P T := o.elim 0 fun q => Pi.single q {t}

/-- The token `t` goes from `src` to `dst`, and no other token anywhere. -/
def Moves (m m' : Marking P T) (t : T) (src dst : Option P) : Prop :=
  m + token dst t = m' + token src t

@[simp] theorem token_none (t : T) : token (none : Option P) t = 0 := rfl

@[simp] theorem token_some_self (q : P) (t : T) : token (some q) t q = {t} := Pi.single_eq_same _ _

@[simp] theorem token_of_ne {o : Option P} {q : P} (h : o ≠ some q) (t : T) : token o t q = 0 := by
  cases o with
  | none => rfl
  | some r => exact Pi.single_eq_of_ne (fun hq => h (congrArg some hq.symm)) _

/-- A place that held a token and holds nothing. -/
theorem Moves.leave {q : P} (h : m' + Pi.single q {t} = m + Pi.single q 0) :
    Moves m m' t (some q) none := by
  rw [Pi.single_zero, add_zero] at h
  exact (add_zero m).trans h.symm

/-- A place that held nothing and holds a token. -/
theorem Moves.arrive {q : P} (h : m' + Pi.single q 0 = m + Pi.single q {t}) :
    Moves m m' t none (some q) := by
  rw [Pi.single_zero, add_zero] at h
  exact h.symm.trans (add_zero m').symm

theorem Moves.trans {k : Marking P T} {mid : Option P} (h₁ : Moves m k t src mid)
    (h₂ : Moves k m' t mid dst) : Moves m m' t src dst := by
  refine add_right_cancel (b := token mid t) ?_
  calc m + token dst t + token mid t
      = m + token mid t + token dst t := add_right_comm _ _ _
    _ = k + token src t + token dst t := by rw [h₁]
    _ = k + token dst t + token src t := add_right_comm _ _ _
    _ = m' + token mid t + token src t := by rw [h₂]
    _ = m' + token src t + token mid t := add_right_comm _ _ _

/-- A token that arrives where it goes before it leaves where it was. -/
theorem Moves.copied {k : Marking P T} (h₁ : Moves m k t none dst)
    (h₂ : Moves k m' t src none) : Moves m m' t src dst := by
  calc m + token dst t
      = k + 0 := h₁
    _ = m' + token src t := h₂

theorem Moves.symm (h : Moves m m' t src dst) : Moves m' m t dst src := Eq.symm h

theorem Moves.mem_dst {q : P} (h : Moves m m' t src (some q)) (hne : src ≠ some q) : t ∈ m' q := by
  have hq := congrFun h q
  rw [Pi.add_apply, Pi.add_apply, token_some_self, token_of_ne hne, add_zero] at hq
  rw [← hq]
  exact Multiset.mem_add.mpr (.inr (Multiset.mem_singleton_self t))

theorem Moves.mem_src {q : P} (h : Moves m m' t (some q) dst) (hne : dst ≠ some q) : t ∈ m q :=
  h.symm.mem_dst hne

/-- A token that goes somewhere is there afterwards. -/
theorem Moves.at_dst (h : Moves m m' t src dst) (hne : src ≠ dst) (hm : m.Single) :
    m'.At t dst := by
  cases dst with
  | some q => exact h.mem_dst hne
  | none =>
    obtain ⟨r, rfl⟩ := Option.ne_none_iff_exists'.mp hne
    have hr : m r = m' r + {t} := by
      have := congrFun h r
      rwa [Pi.add_apply, Pi.add_apply, token_none, token_some_self, Pi.zero_apply, add_zero] at this
    have hmem : t ∈ m r := h.mem_src (by simp)
    intro q hq
    by_cases hqr : q = r
    · subst hqr
      have hn := hm.nodup q
      rw [hr, Multiset.nodup_add] at hn
      exact Multiset.disjoint_left.mp hn.2.2 hq (Multiset.mem_singleton_self t)
    · have hsame : m q = m' q := by
        have := congrFun h q
        rwa [Pi.add_apply, Pi.add_apply, token_none, token_of_ne (by simpa using Ne.symm hqr),
          Pi.zero_apply, add_zero, add_zero] at this
      exact hqr (hm.unique q r t (hsame ▸ hq) hmem)

theorem Moves.at_src (h : Moves m m' t src dst) (hne : src ≠ dst) (hm' : m'.Single) :
    m.At t src := h.symm.at_dst hne.symm hm'

/-- The other tokens stay where they are. -/
theorem Moves.at_other (h : Moves m m' t src dst) {u : T} (hu : u ≠ t) (o : Option P) :
    m'.At u o ↔ m.At u o := by
  have hmem : ∀ q, u ∈ m' q ↔ u ∈ m q := by
    intro q
    have hnot : ∀ o : Option P, u ∉ token o t q := by
      intro o
      by_cases ho : o = some q
      · subst ho
        rw [token_some_self, Multiset.mem_singleton]
        exact hu
      · rw [token_of_ne ho]
        exact Multiset.notMem_zero u
    have hq : u ∈ m q + token dst t q ↔ u ∈ m' q + token src t q := by
      rw [show m q + token dst t q = m' q + token src t q from congrFun h q]
    rw [Multiset.mem_add, Multiset.mem_add, or_iff_left (hnot dst), or_iff_left (hnot src)] at hq
    exact hq.symm
  cases o with
  | some q => exact hmem q
  | none => exact forall_congr' fun q => not_congr (hmem q)

/-- What the tokens are called makes no difference. -/
theorem Moves.map {U : Type*} (f : T → U) (h : Moves m m' t src dst) :
    Moves (fun q => (m q).map f) (fun q => (m' q).map f) (f t) src dst := by
  have htoken : ∀ (o : Option P) (q : P), (token o t q).map f = token o (f t) q := by
    intro o q
    by_cases ho : o = some q
    · subst ho
      rw [token_some_self, token_some_self, Multiset.map_singleton]
    · rw [token_of_ne ho, token_of_ne ho, Multiset.map_zero]
  funext q
  have hq := congrArg (Multiset.map f) (congrFun h q)
  rw [Pi.add_apply, Pi.add_apply, Multiset.map_add, Multiset.map_add, htoken, htoken] at hq
  exact hq

end Marking

end Celeritas.Lib
