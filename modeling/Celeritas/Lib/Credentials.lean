import Celeritas.Lib.Run

/-!
# The identity of a process

The user and group ids of a process and the system calls that change them. A call that
fails changes nothing, so that only the others are steps. Without an effective user id of
zero all of them have one thing in common: they choose among the ids the process already
has (`confined_of_reachable`). A process that has no zero among them does not get one again.
-/

set_option autoImplicit false

namespace Celeritas.Lib

/-- The real, the effective and the saved id. -/
structure Ids where
  real : ℕ
  effective : ℕ
  saved : ℕ
  deriving DecidableEq

def Ids.all (i : ℕ) : Ids := ⟨i, i, i⟩

def Ids.toList (ids : Ids) : List ℕ := [ids.real, ids.effective, ids.saved]

structure Credentials where
  user : Ids
  group : Ids
  /-- the supplementary groups -/
  groups : List ℕ
  deriving DecidableEq

def Credentials.Privileged (c : Credentials) : Prop := c.user.effective = 0

instance (c : Credentials) : Decidable c.Privileged :=
  inferInstanceAs (Decidable (c.user.effective = 0))

/-- `setuid`, and `setgid` of the group ids. -/
def Ids.set (ids : Ids) (privileged : Bool) (i : ℕ) : Option Ids :=
  if privileged then some (.all i)
  else if i = ids.real ∨ i = ids.saved then some { ids with effective := i }
  else none

/-- `seteuid` -/
def Ids.setEffective (ids : Ids) (privileged : Bool) (i : ℕ) : Option Ids :=
  if privileged ∨ i ∈ ids.toList then some { ids with effective := i } else none

/-- `setreuid`; `none` is the argument `-1`. The saved id follows the effective one if the
real id is set, or the effective one to something else than the real id was. -/
def Ids.setRealEffective (ids : Ids) (privileged : Bool) (r e : Option ℕ) : Option Ids :=
  if privileged ∨ (∀ i ∈ r, i = ids.real ∨ i = ids.effective) ∧ ∀ i ∈ e, i ∈ ids.toList then
    let effective := e.getD ids.effective
    some ⟨r.getD ids.real, effective,
      if r.isSome ∨ ∃ i ∈ e, i ≠ ids.real then effective else ids.saved⟩
  else none

/-- `setresuid`; `none` is the argument `-1`. -/
def Ids.setAll (ids : Ids) (privileged : Bool) (r e s : Option ℕ) : Option Ids :=
  if privileged ∨ (∀ i ∈ r, i ∈ ids.toList) ∧ (∀ i ∈ e, i ∈ ids.toList) ∧
      ∀ i ∈ s, i ∈ ids.toList then
    some ⟨r.getD ids.real, e.getD ids.effective, s.getD ids.saved⟩
  else none

/-- The calls on one of the two kinds of ids. -/
inductive IdCall
  | set (i : ℕ)
  | setEffective (i : ℕ)
  | setRealEffective (r e : Option ℕ)
  | setAll (r e s : Option ℕ)
  deriving DecidableEq

def Ids.exec (ids : Ids) (privileged : Bool) : IdCall → Option Ids
  | .set i => ids.set privileged i
  | .setEffective i => ids.setEffective privileged i
  | .setRealEffective r e => ids.setRealEffective privileged r e
  | .setAll r e s => ids.setAll privileged r e s

inductive CredCall
  | user (call : IdCall)
  | group (call : IdCall)
  /-- `setgroups` -/
  | groups (gs : List ℕ)
  deriving DecidableEq

/-- A call as the process makes it. -/
def Credentials.exec (c : Credentials) : CredCall → Option Credentials
  | .user call => (c.user.exec c.Privileged call).map fun ids => { c with user := ids }
  | .group call => (c.group.exec c.Privileged call).map fun ids => { c with group := ids }
  | .groups gs => if c.Privileged then some { c with groups := gs } else none

/-! ## Without privileges -/

/-- A default, or one of a list. -/
theorem getD_mem {l : List ℕ} {o : Option ℕ} {i : ℕ} (ho : ∀ j ∈ o, j ∈ l) (hi : i ∈ l) :
    o.getD i ∈ l := by
  cases o with
  | none => exact hi
  | some j => exact ho j rfl

theorem Ids.real_mem (ids : Ids) : ids.real ∈ ids.toList := by simp [toList]

theorem Ids.effective_mem (ids : Ids) : ids.effective ∈ ids.toList := by simp [toList]

theorem Ids.saved_mem (ids : Ids) : ids.saved ∈ ids.toList := by simp [toList]

/-- Three ids of a process are all it has. -/
theorem Ids.subset_of_mem {ids : Ids} {r e s : ℕ} (hr : r ∈ ids.toList) (he : e ∈ ids.toList)
    (hs : s ∈ ids.toList) : (Ids.mk r e s).toList ⊆ ids.toList := by
  intro i hi
  simp only [toList, List.mem_cons, List.not_mem_nil, or_false] at hi
  rcases hi with rfl | rfl | rfl
  · exact hr
  · exact he
  · exact hs

/-- **A call without privileges** only rearranges the ids. -/
theorem Ids.exec_subset {ids ids' : Ids} {call : IdCall} (h : ids.exec false call = some ids') :
    ids'.toList ⊆ ids.toList := by
  cases call with
  | set i =>
    simp only [exec, set, Bool.false_eq_true, if_false, Option.ite_none_right_eq_some,
      Option.some.injEq] at h
    obtain ⟨hi, rfl⟩ := h
    refine subset_of_mem ids.real_mem ?_ ids.saved_mem
    rcases hi with rfl | rfl
    · exact ids.real_mem
    · exact ids.saved_mem
  | setEffective i =>
    simp only [exec, setEffective, Bool.false_eq_true, false_or, Option.ite_none_right_eq_some,
      Option.some.injEq] at h
    obtain ⟨hi, rfl⟩ := h
    exact subset_of_mem ids.real_mem hi ids.saved_mem
  | setRealEffective r e =>
    simp only [exec, setRealEffective, Bool.false_eq_true, false_or,
      Option.ite_none_right_eq_some, Option.some.injEq] at h
    obtain ⟨⟨hr, he⟩, rfl⟩ := h
    have heff : e.getD ids.effective ∈ ids.toList := getD_mem he ids.effective_mem
    refine subset_of_mem (getD_mem ?_ ids.real_mem) heff ?_
    · intro i hi
      rcases hr i hi with rfl | rfl
      · exact ids.real_mem
      · exact ids.effective_mem
    · split_ifs
      · exact heff
      · exact ids.saved_mem
  | setAll r e s =>
    simp only [exec, setAll, Bool.false_eq_true, false_or, Option.ite_none_right_eq_some,
      Option.some.injEq] at h
    obtain ⟨⟨hr, he, hs⟩, rfl⟩ := h
    exact subset_of_mem (getD_mem hr ids.real_mem) (getD_mem he ids.effective_mem)
      (getD_mem hs ids.saved_mem)

/-- All ids are among those of `c`, and the supplementary groups are the same. -/
structure Confined (c c' : Credentials) : Prop where
  user : c'.user.toList ⊆ c.user.toList
  group : c'.group.toList ⊆ c.group.toList
  groups : c'.groups = c.groups

theorem Confined.refl (c : Credentials) : Confined c c := ⟨fun _ h => h, fun _ h => h, rfl⟩

theorem Confined.trans {a b c : Credentials} (h : Confined a b) (h' : Confined b c) :
    Confined a c :=
  ⟨List.Subset.trans h'.user h.user, List.Subset.trans h'.group h.group, h'.groups.trans h.groups⟩

/-- No id of the user is zero. -/
def Credentials.NonRoot (c : Credentials) : Prop := 0 ∉ c.user.toList

theorem Credentials.NonRoot.not_privileged {c : Credentials} (h : c.NonRoot) : ¬ c.Privileged :=
  fun hp => h (hp ▸ c.user.effective_mem)

theorem Confined.nonRoot {c c' : Credentials} (h : Confined c c') (hc : c.NonRoot) : c'.NonRoot :=
  fun h0 => hc (h.user h0)

theorem Credentials.NonRoot.exec {c c' : Credentials} {call : CredCall} (hc : c.NonRoot)
    (h : c.exec call = some c') : Confined c c' := by
  have hp : decide c.Privileged = false := decide_eq_false hc.not_privileged
  cases call with
  | user call =>
    simp only [Credentials.exec, hp] at h
    obtain ⟨ids, hids, rfl⟩ := Option.map_eq_some_iff.mp h
    exact ⟨Ids.exec_subset hids, fun _ h => h, rfl⟩
  | group call =>
    simp only [Credentials.exec, hp] at h
    obtain ⟨ids, hids, rfl⟩ := Option.map_eq_some_iff.mp h
    exact ⟨fun _ h => h, Ids.exec_subset hids, rfl⟩
  | groups gs =>
    simp only [Credentials.exec, if_neg hc.not_privileged] at h
    cases h

/-- **No sequence of calls leads back to zero**, or to an id or a group that was given up. -/
theorem confined_of_reachable {c c' : Credentials} (hc : c.NonRoot)
    (h : Reachable Credentials.exec c c') : Confined c c' := by
  refine h.inv (I := Confined c) (.refl c) ?_
  intro d call d' hd hs _
  exact hd.trans ((hd.nonRoot hc).exec hs)

/-- A zero that is left is enough to become root. -/
theorem reachable_root {c : Credentials} (h : ¬ c.NonRoot) :
    ∃ c', Reachable Credentials.exec c c' ∧ c'.Privileged := by
  by_cases hp : c.Privileged
  · exact ⟨c, .refl, hp⟩
  have hmem : 0 ∈ c.user.toList := not_not.mp h
  refine ⟨{ c with user := { c.user with effective := 0 } }, ?_, rfl⟩
  refine Reach.single (.user (.setEffective 0)) ?_ trivial
  simp only [Credentials.exec, Ids.exec, Ids.setEffective, hmem, or_true, if_true,
    Option.map_some]

end Celeritas.Lib
