import Mathlib.Data.Nat.Notation
import Mathlib.Logic.Function.Basic

/-!
# A name, its files and their locks

A lock is on a file, and a process comes to the file by its name. Between the two the name
may be taken away and given to another file, so that two processes hold "the" lock. Here are
one name of a directory, all files it has ever been given to, and the calls on them; the lock
is that of `fcntl`, which belongs to the process and not to the descriptor.
-/

set_option autoImplicit false

namespace Celeritas.Lib

/-- `P` are the processes. The files are numbered in the order of their creation. -/
structure LockedName (P β : Type*) where
  name : Option ℕ
  count : ℕ
  owner : ℕ → Option P
  content : ℕ → List β

namespace LockedName

variable {P β : Type*}

/-- The file that the name is given to before any process is there. -/
def start (stale : Option (List β)) : LockedName P β where
  name := stale.map fun _ => 0
  count := 1
  owner _ := none
  content _ := stale.getD []

/-- What `open` with `O_CREAT` opens. -/
def target (d : LockedName P β) : ℕ := d.name.getD d.count

/-- `open` with `O_CREAT` -/
def openCreat (d : LockedName P β) : LockedName P β :=
  match d.name with
  | some _ => d
  | none => { d with
      name := some d.count
      count := d.count + 1
      content := Function.update d.content d.count [] }

def unlink (d : LockedName P β) : LockedName P β := { d with name := none }

def truncate (d : LockedName P β) (i : ℕ) : LockedName P β :=
  { d with content := Function.update d.content i [] }

/-- `write` at the start of the file. -/
def write (d : LockedName P β) (i : ℕ) (bytes : List β) : LockedName P β :=
  { d with content := Function.update d.content i (bytes ++ (d.content i).drop bytes.length) }

variable [DecidableEq P]

/-- `fcntl` with `F_SETLK` and `F_WRLCK` -/
def setLock (d : LockedName P β) (p : P) (i : ℕ) : Option (LockedName P β) :=
  if ∀ q ∈ d.owner i, q = p then some { d with owner := Function.update d.owner i (some p) }
  else none

/-- `close` of a descriptor of the file, whichever: the process loses its lock. -/
def close (d : LockedName P β) (p : P) (i : ℕ) : LockedName P β :=
  { d with owner := fun j => if j = i ∧ d.owner j = some p then none else d.owner j }

/-- The end of the process. -/
def closeAll (d : LockedName P β) (p : P) : LockedName P β :=
  { d with owner := fun j => if d.owner j = some p then none else d.owner j }

omit [DecidableEq P] in
@[simp] theorem openCreat_owner (d : LockedName P β) : d.openCreat.owner = d.owner := by
  unfold openCreat
  split <;> rfl

omit [DecidableEq P] in
@[simp] theorem openCreat_name (d : LockedName P β) : d.openCreat.name = some d.target := by
  unfold openCreat target
  split <;> simp_all

omit [DecidableEq P] in
theorem target_eq {d : LockedName P β} {i : ℕ} (h : d.name = some i) : d.target = i := by
  simp [target, h]

omit [DecidableEq P] in
/-- A new file is not one that there was. -/
theorem openCreat_content {d : LockedName P β} {i : ℕ} (h : i < d.count) :
    d.openCreat.content i = d.content i := by
  unfold openCreat
  split
  · rfl
  · exact Function.update_of_ne (Nat.ne_of_lt h) _ _

omit [DecidableEq P] in
theorem count_le_openCreat (d : LockedName P β) : d.count ≤ d.openCreat.count := by
  unfold openCreat
  split
  · exact Nat.le_refl d.count
  · exact Nat.le_succ d.count

omit [DecidableEq P] in
theorem target_lt {d : LockedName P β} (h : ∀ i ∈ d.name, i < d.count) :
    d.target < d.openCreat.count := by
  cases hn : d.name with
  | none => simp [target, openCreat, hn]
  | some i =>
    rw [target_eq hn]
    exact Nat.lt_of_lt_of_le (h i hn) d.count_le_openCreat

/-- What a lock that is given changes. -/
structure Locks (p : P) (i : ℕ) (d d' : LockedName P β) : Prop where
  name : d'.name = d.name
  count : d'.count = d.count
  content : d'.content = d.content
  self : d'.owner i = some p
  of_ne : ∀ j ≠ i, d'.owner j = d.owner j
  free : ∀ q ∈ d.owner i, q = p

theorem setLock_eq_some {d d' : LockedName P β} {p : P} {i : ℕ} (h : d.setLock p i = some d') :
    Locks p i d d' := by
  simp only [setLock, Option.ite_none_right_eq_some, Option.some.injEq] at h
  obtain ⟨hfree, rfl⟩ := h
  exact ⟨rfl, rfl, rfl, Function.update_self .., fun j hj => Function.update_of_ne hj _ _, hfree⟩

theorem setLock_eq_none {d : LockedName P β} {p : P} {i : ℕ} :
    d.setLock p i = none ↔ ∃ q, d.owner i = some q ∧ q ≠ p := by
  simp [setLock]

theorem closeAll_owner {d : LockedName P β} {p q : P} {i : ℕ} :
    (d.closeAll p).owner i = some q ↔ d.owner i = some q ∧ q ≠ p := by
  simp only [closeAll]
  split
  · rename_i h
    simp [h, eq_comm]
  · rename_i h
    refine (and_iff_left_of_imp ?_).symm
    rintro hq rfl
    exact h hq

theorem close_owner {d : LockedName P β} {p q : P} {i j : ℕ} :
    (d.close p i).owner j = some q ↔ d.owner j = some q ∧ ¬ (j = i ∧ q = p) := by
  simp only [close]
  split
  · rename_i h
    obtain ⟨rfl, hp⟩ := h
    simp [hp, eq_comm]
  · rename_i h
    refine (and_iff_left_of_imp ?_).symm
    rintro hq ⟨hj, rfl⟩
    exact h ⟨hj, hq⟩

end LockedName

end Celeritas.Lib
