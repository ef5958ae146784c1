import Celeritas.CLib.Str
import Celeritas.Lib.LockedName
import Celeritas.Lib.Run

/-!
# `already_running`

The lock file keeps a second server from running, and the lock is taken in two calls: `open`,
which gives the file that has the name at this moment, and `fcntl`, which locks this file.
`server_shutdown` removes the name while it has the lock. A server that has opened the file
and not yet locked it is then left with one that no other will find, and may have it to itself
beside the next one.

Here are any number of processes in any order of their calls, with crashes and with the pids
used again. `sound_iff` tells what must not happen in between; what follows of it is
`at_most_one`. That a crashed server is not in the way of the next one is `start_refused_iff`.
-/

set_option autoImplicit false

namespace Celeritas

open CLib Lib

/-- Where a process is on its way through `already_running` and to its end. `i` is the file
that it has opened, `clean` whether `ftruncate` has succeeded. -/
inductive Phase
  | gone
  | opened (i : ℕ)
  | locked (i : ℕ)
  | truncated (i : ℕ) (clean : Bool)
  | serving (i : ℕ) (clean : Bool)
  | leaving (i : ℕ)
  deriving DecidableEq

/-- The file of a process that has not come to the `unlink`. -/
def Phase.file : Phase → Option ℕ
  | .opened i | .locked i | .truncated i _ | .serving i _ => some i
  | .gone | .leaving _ => none

/-- The file of a process that `lockfile` has let pass. -/
def Phase.lockFile : Phase → Option ℕ
  | .locked i | .truncated i _ | .serving i _ | .leaving i => some i
  | .gone | .opened _ => none

structure Instances where
  dir : LockedName ℕ UInt8
  phase : ℕ → Phase := fun _ => .gone

inductive InstanceAction
  /-- `open` in `already_running` -/
  | openFile (p : ℕ)
  | lockfile (p : ℕ)
  | ftruncate (p : ℕ) (ok : Bool)
  | write (p : ℕ)
  /-- the server opens and closes the file once more, for a client whose request names it -/
  | reread (p : ℕ)
  /-- the last lines of `server_shutdown` -/
  | unlink (p : ℕ) (ok : Bool)
  /-- the end of the process, for whatever reason: the end of `server_shutdown`, a signal, or
  a failed call at startup -/
  | exit (p : ℕ)
  deriving DecidableEq

def InstanceAction.proc : InstanceAction → ℕ
  | .openFile p | .lockfile p | .ftruncate p _ | .write p | .reread p | .unlink p _ | .exit p => p

/-- `snprintf` into `buf[16]` -/
def pidText (p : ℕ) : Bytes := snprintfStored 16 (decimalNat p)

namespace Instances

/-- Before any process is there; the file may have been left by an earlier boot. -/
def start (stale : Option Bytes) : Instances := { dir := .start stale }

def set (s : Instances) (p : ℕ) (ph : Phase) (d : LockedName ℕ UInt8) : Instances :=
  ⟨d, Function.update s.phase p ph⟩

def step (s : Instances) : InstanceAction → Option Instances
  | .openFile p => match s.phase p with
    | .gone => some (s.set p (.opened s.dir.target) s.dir.openCreat)
    | _ => none
  | .lockfile p => match s.phase p with
    | .opened i => match s.dir.setLock p i with
      | some d => some (s.set p (.locked i) d)
      -- `main` ends: "server already running"
      | none => some (s.set p .gone s.dir)
    | _ => none
  | .ftruncate p ok => match s.phase p with
    | .locked i => some (s.set p (.truncated i ok) (if ok then s.dir.truncate i else s.dir))
    | _ => none
  | .write p => match s.phase p with
    | .truncated i clean => some (s.set p (.serving i clean) (s.dir.write i (pidText p)))
    | _ => none
  | .reread p => match s.phase p with
    | .serving i clean => some (s.set p (.serving i clean) (s.dir.close p i))
    | _ => none
  | .unlink p ok => match s.phase p with
    | .serving i _ => some (s.set p (.leaving i) (if ok then s.dir.unlink else s.dir))
    | _ => none
  | .exit p => match s.phase p with
    | .gone => none
    | _ => some (s.set p .gone (s.dir.closeAll p))

@[simp] theorem set_dir (s : Instances) (p : ℕ) (ph : Phase) (d : LockedName ℕ UInt8) :
    (s.set p ph d).dir = d := rfl

@[simp] theorem set_phase_self (s : Instances) (p : ℕ) (ph : Phase) (d : LockedName ℕ UInt8) :
    (s.set p ph d).phase p = ph := Function.update_self ..

theorem set_phase_of_ne (s : Instances) {p q : ℕ} (h : q ≠ p) (ph : Phase)
    (d : LockedName ℕ UInt8) : (s.set p ph d).phase q = s.phase q := Function.update_of_ne h _ _

/-! ## One process

What a process can rely on, and what it needs of the calls of the others to do so. -/

/-- Its own lock is the one on its file, and its file is one of those there are. -/
structure Placed (d : LockedName ℕ UInt8) (p : ℕ) (ph : Phase) : Prop where
  owner : ∀ i, d.owner i = some p → ph.lockFile = some i
  file : ∀ i ∈ ph.file, i < d.count
  lockFile : ∀ i ∈ ph.lockFile, i < d.count

/-- The process has the lock that `fcntl` has given it. -/
def Locked (d : LockedName ℕ UInt8) (p : ℕ) (ph : Phase) : Prop :=
  ∀ i ∈ ph.lockFile, d.owner i = some p

/-- What is in the file of a process that could truncate it. -/
def Text (d : LockedName ℕ UInt8) (p : ℕ) : Phase → Prop
  | .truncated i true => d.content i = []
  | .serving i true => d.content i = pidText p
  | _ => True

/-- The file is the one that has the name, and the process has the lock. -/
structure Good (d : LockedName ℕ UInt8) (p : ℕ) (ph : Phase) : Prop where
  named : ∀ i ∈ ph.file, d.name = some i
  locked : Locked d p ph
  text : Text d p ph

theorem Placed.frame {d d' : LockedName ℕ UInt8} {q : ℕ} {ph : Phase} (h : Placed d q ph)
    (howner : ∀ i, d'.owner i = some q → d.owner i = some q) (hcount : d.count ≤ d'.count) :
    Placed d' q ph where
  owner i hi := h.owner i (howner i hi)
  file i hi := Nat.lt_of_lt_of_le (h.file i hi) hcount
  lockFile i hi := Nat.lt_of_lt_of_le (h.lockFile i hi) hcount

theorem Text.frame {d d' : LockedName ℕ UInt8} {q : ℕ} {ph : Phase} (h : Text d q ph)
    (hcontent : ∀ i ∈ ph.lockFile, d'.content i = d.content i) : Text d' q ph := by
  unfold Text at h ⊢
  split
  · exact (hcontent _ rfl).trans h
  · exact (hcontent _ rfl).trans h
  · trivial

theorem Good.frame {d d' : LockedName ℕ UInt8} {q : ℕ} {ph : Phase} (h : Good d q ph)
    (hname : ∀ i ∈ ph.file, d'.name = some i)
    (howner : ∀ i ∈ ph.lockFile, d.owner i = some q → d'.owner i = some q)
    (hcontent : ∀ i ∈ ph.lockFile, d'.content i = d.content i) : Good d' q ph where
  named := hname
  locked i hi := howner i hi (h.locked i hi)
  text := h.text.frame hcontent

theorem Good.gone (d : LockedName ℕ UInt8) (p : ℕ) : Good d p .gone :=
  ⟨(fun _ h => nomatch h), (fun _ h => nomatch h), trivial⟩

/-! ## All processes -/

structure Wf (s : Instances) : Prop where
  name : ∀ i ∈ s.dir.name, i < s.dir.count
  placed : ∀ p, Placed s.dir p (s.phase p)

/-- Every process has the file it should have. -/
def Sound (s : Instances) : Prop := ∀ p, Good s.dir p (s.phase p)

/-- What a step of `p` does to the file and to the other processes: `ph` and `d` are what `p`
and the file are after it. -/
structure Step (s : Instances) (a : InstanceAction) (p : ℕ) (ph : Phase)
    (d : LockedName ℕ UInt8) : Prop where
  name_lt : ∀ i ∈ d.name, i < d.count
  count : s.dir.count ≤ d.count
  owner : ∀ q ≠ p, ∀ i, d.owner i = some q ↔ s.dir.owner i = some q
  placed : Placed d p ph
  name : a ≠ .unlink p true → ∀ i ∈ s.dir.name, d.name = some i
  content : Locked s.dir p (s.phase p) → ∀ q ≠ p, ∀ i < s.dir.count, s.dir.owner i = some q →
    d.content i = s.dir.content i
  named : (∀ i ∈ (s.phase p).file, s.dir.name = some i) → ∀ i ∈ ph.file, d.name = some i
  locked : a ≠ .reread p → Locked s.dir p (s.phase p) → Locked d p ph
  text : Text s.dir p (s.phase p) → Text d p ph

theorem Step.wf {s : Instances} {a : InstanceAction} {p : ℕ} {ph : Phase}
    {d : LockedName ℕ UInt8} (hw : s.Wf) (h : Step s a p ph d) : (s.set p ph d).Wf where
  name := h.name_lt
  placed q := by
    by_cases hq : q = p
    · subst hq
      rw [set_phase_self]
      exact h.placed
    · rw [set_phase_of_ne s hq]
      exact (hw.placed q).frame (fun i => (h.owner q hq i).mp) h.count

/-- The other processes keep what they have, if the name keeps its file. -/
theorem Step.sound {s : Instances} {a : InstanceAction} {p : ℕ} {ph : Phase}
    {d : LockedName ℕ UInt8} (hw : s.Wf) (hs : s.Sound) (h : Step s a p ph d)
    (hgood : Good d p ph)
    (hname : ∀ q ≠ p, ∀ i ∈ (s.phase q).file, d.name = some i) : (s.set p ph d).Sound := by
  intro q
  by_cases hq : q = p
  · subst hq
    rw [set_phase_self]
    exact hgood
  · rw [set_phase_of_ne s hq]
    refine (hs q).frame (hname q hq) ?_ ?_
    · intro i _ hi
      exact (h.owner q hq i).mpr hi
    · intro i hi
      exact h.content (hs p).locked q hq i ((hw.placed q).lockFile i hi) ((hs q).locked i hi)

theorem Wf.start (stale : Option Bytes) : (start stale).Wf where
  name := by
    intro i hi
    obtain ⟨_, _, rfl⟩ := Option.map_eq_some_iff.mp hi
    exact Nat.zero_lt_one
  placed _ := ⟨(fun _ h => nomatch h), (fun _ h => nomatch h), (fun _ h => nomatch h)⟩

theorem Sound.start (stale : Option Bytes) : (start stale).Sound := fun p => .gone _ p

/-! ## One step -/

variable {s s' : Instances} {p : ℕ} {i : ℕ}

theorem step_openFile (hw : s.Wf) (hp : s.phase p = .gone) :
    Step s (.openFile p) p (.opened s.dir.target) s.dir.openCreat where
  name_lt := by
    intro i hi
    rw [LockedName.openCreat_name] at hi
    exact Option.some.inj hi ▸ LockedName.target_lt hw.name
  count := s.dir.count_le_openCreat
  owner := by simp
  placed := by
    refine ⟨?_, ?_, fun _ h => nomatch h⟩
    · intro i hi
      rw [LockedName.openCreat_owner] at hi
      have hnone := (hw.placed p).owner i hi
      rw [hp] at hnone
      cases hnone
    · intro i hi
      exact Option.some.inj hi ▸ LockedName.target_lt hw.name
  name := by
    intro _ i hi
    rw [LockedName.openCreat_name, LockedName.target_eq hi]
  content _ _ _ _ hi _ := LockedName.openCreat_content hi
  named _ _ hi := s.dir.openCreat_name.trans hi
  locked _ _ _ h := nomatch h
  text _ := trivial

theorem step_locked {d : LockedName ℕ UInt8} (hw : s.Wf) (hp : s.phase p = .opened i)
    (hd : s.dir.setLock p i = some d) : Step s (.lockfile p) p (.locked i) d := by
  have hl := LockedName.setLock_eq_some hd
  have hplaced := hw.placed p
  rw [hp] at hplaced
  constructor
  · rw [hl.name, hl.count]
    exact hw.name
  · exact hl.count.ge
  · intro q hq j
    by_cases hj : j = i
    · subst hj
      refine iff_of_false ?_ fun h => hq (hl.free q h)
      rw [hl.self, Option.some.injEq]
      exact Ne.symm hq
    · rw [hl.of_ne j hj]
  · refine ⟨?_, ?_, ?_⟩
    · intro j hj
      by_cases hji : j = i
      · exact congrArg some hji.symm
      · rw [hl.of_ne j hji] at hj
        cases hplaced.owner j hj
    · rw [hl.count]
      exact hplaced.file
    · rw [hl.count]
      exact hplaced.file
  · intro _ j hj
    rw [hl.name]
    exact hj
  · intro _ q _ j _ _
    rw [hl.content]
  · rw [hl.name, hp]
    exact id
  · rintro _ _ j ⟨⟩
    exact hl.self
  · exact fun _ => trivial

theorem step_refused (hw : s.Wf) (hp : s.phase p = .opened i) :
    Step s (.lockfile p) p .gone s.dir where
  name_lt := hw.name
  count := Nat.le_refl _
  owner _ _ _ := Iff.rfl
  placed := by
    have howner := (hw.placed p).owner
    rw [hp] at howner
    exact ⟨howner, (fun _ h => nomatch h), (fun _ h => nomatch h)⟩
  name _ _ := id
  content _ _ _ _ _ _ := rfl
  named _ _ h := nomatch h
  locked _ _ _ h := nomatch h
  text _ := trivial

/-- A step that changes what is in the file of `p`, or not even that. -/
theorem step_content {a : InstanceAction} {ph : Phase} {d : LockedName ℕ UInt8} (hw : s.Wf)
    (hp : (s.phase p).lockFile = some i) (hph : ph.lockFile = some i)
    (hfile : ∀ j ∈ ph.file, j ∈ (s.phase p).file) (hname : d.name = s.dir.name)
    (hcount : d.count = s.dir.count) (howner : d.owner = s.dir.owner)
    (hcontent : ∀ j ≠ i, d.content j = s.dir.content j)
    (htext : Text s.dir p (s.phase p) → Text d p ph) : Step s a p ph d where
  name_lt := by
    rw [hname, hcount]
    exact hw.name
  count := hcount.ge
  owner q _ j := by rw [howner]
  placed := by
    refine ⟨?_, ?_, ?_⟩
    · rw [howner, hph, ← hp]
      exact (hw.placed p).owner
    · rw [hcount]
      exact fun j hj => (hw.placed p).file j (hfile j hj)
    · rw [hcount, hph, ← hp]
      exact (hw.placed p).lockFile
  name _ j hj := hname.trans hj
  content := by
    intro hl q hq j _ hj
    refine hcontent j ?_
    -- the lock of `p` is not that of `q`
    rintro rfl
    exact hq (Option.some.inj (hj.symm.trans (hl j hp)))
  named h j hj := hname.trans (h j (hfile j hj))
  locked _ hl j hj := by
    rw [howner]
    exact hl j (hp.trans (hph.symm.trans hj))
  text := htext

theorem step_ftruncate (hw : s.Wf) (hp : s.phase p = .locked i) (ok : Bool) :
    Step s (.ftruncate p ok) p (.truncated i ok) (if ok then s.dir.truncate i else s.dir) := by
  cases ok with
  | false =>
    refine step_content hw (by rw [hp]; rfl) rfl (by rw [hp]; exact fun _ => id) rfl rfl rfl ?_ ?_
    · exact fun _ _ => rfl
    · exact fun _ => trivial
  | true =>
    refine step_content hw (by rw [hp]; rfl) rfl (by rw [hp]; exact fun _ => id) rfl rfl rfl ?_ ?_
    · exact fun j hj => Function.update_of_ne hj _ _
    · exact fun _ => Function.update_self ..

theorem step_write {clean : Bool} (hw : s.Wf) (hp : s.phase p = .truncated i clean) :
    Step s (.write p) p (.serving i clean) (s.dir.write i (pidText p)) := by
  refine step_content hw (by rw [hp]; rfl) rfl (by rw [hp]; exact fun _ => id) rfl rfl rfl ?_ ?_
  · exact fun j hj => Function.update_of_ne hj _ _
  · cases clean with
    | false => exact fun _ => trivial
    | true =>
      intro hnil
      rw [hp] at hnil
      have hempty : s.dir.content i = [] := hnil
      simp [Text, LockedName.write, hempty]

theorem step_unlink {clean : Bool} (hw : s.Wf) (hp : s.phase p = .serving i clean) (ok : Bool) :
    Step s (.unlink p ok) p (.leaving i) (if ok then s.dir.unlink else s.dir) := by
  cases ok with
  | false =>
    refine step_content hw (by rw [hp]; rfl) rfl (fun _ h => nomatch h) rfl rfl rfl ?_ ?_
    · exact fun _ _ => rfl
    · exact fun _ => trivial
  | true =>
    have hplaced := hw.placed p
    rw [hp] at hplaced
    refine ⟨(fun _ h => nomatch h), Nat.le_refl _, fun _ _ _ => Iff.rfl,
      ⟨hplaced.owner, (fun _ h => nomatch h), hplaced.lockFile⟩, fun h => absurd rfl h,
      fun _ _ _ _ _ _ => rfl, (fun _ _ h => nomatch h), ?_, fun _ => trivial⟩
    rw [hp]
    exact fun _ => id

theorem step_reread {clean : Bool} (hw : s.Wf) (hp : s.phase p = .serving i clean) :
    Step s (.reread p) p (.serving i clean) (s.dir.close p i) := by
  have hplaced := hw.placed p
  rw [hp] at hplaced
  refine ⟨hw.name, Nat.le_refl _, ?_, ⟨?_, hplaced.file, hplaced.lockFile⟩, fun _ _ => id,
    fun _ _ _ _ _ _ => rfl, ?_, fun h => absurd rfl h, ?_⟩
  · intro q hq j
    rw [LockedName.close_owner]
    exact and_iff_left fun h => hq h.2
  · intro j hj
    exact hplaced.owner j (LockedName.close_owner.mp hj).1
  · rw [hp]
    exact id
  · rw [hp]
    exact id

theorem step_exit (hw : s.Wf) : Step s (.exit p) p .gone (s.dir.closeAll p) := by
  refine ⟨hw.name, Nat.le_refl _, ?_, ⟨?_, (fun _ h => nomatch h), (fun _ h => nomatch h)⟩,
    fun _ _ => id, fun _ _ _ _ _ _ => rfl, (fun _ _ h => nomatch h), (fun _ _ _ h => nomatch h),
    fun _ => trivial⟩
  · intro q hq j
    rw [LockedName.closeAll_owner]
    exact and_iff_left hq
  · intro j hj
    exact absurd rfl (LockedName.closeAll_owner.mp hj).2

/-- **Every step** is one of these. -/
theorem step_spec {a : InstanceAction} (hw : s.Wf) (hs : s.step a = some s') :
    ∃ ph d, s' = s.set a.proc ph d ∧ Step s a a.proc ph d := by
  cases a with
  | openFile p =>
    simp only [Instances.step] at hs
    split at hs
    · rename_i hp
      exact ⟨_, _, (Option.some.inj hs).symm, step_openFile hw hp⟩
    · cases hs
  | lockfile p =>
    simp only [Instances.step] at hs
    split at hs
    · rename_i i hp
      split at hs
      · rename_i d hd
        exact ⟨_, d, (Option.some.inj hs).symm, step_locked hw hp hd⟩
      · exact ⟨_, _, (Option.some.inj hs).symm, step_refused hw hp⟩
    · cases hs
  | ftruncate p ok =>
    simp only [Instances.step] at hs
    split at hs
    · rename_i i hp
      exact ⟨_, _, (Option.some.inj hs).symm, step_ftruncate hw hp ok⟩
    · cases hs
  | write p =>
    simp only [Instances.step] at hs
    split at hs
    · rename_i i clean hp
      exact ⟨_, _, (Option.some.inj hs).symm, step_write hw hp⟩
    · cases hs
  | reread p =>
    simp only [Instances.step] at hs
    split at hs
    · rename_i i clean hp
      exact ⟨_, _, (Option.some.inj hs).symm, step_reread hw hp⟩
    · cases hs
  | unlink p ok =>
    simp only [Instances.step] at hs
    split at hs
    · rename_i i clean hp
      exact ⟨_, _, (Option.some.inj hs).symm, step_unlink hw hp ok⟩
    · cases hs
  | exit p =>
    simp only [Instances.step] at hs
    split at hs
    · cases hs
    · exact ⟨_, _, (Option.some.inj hs).symm, step_exit hw⟩

theorem Wf.step {a : InstanceAction} (hw : s.Wf) (hs : s.step a = some s') : s'.Wf := by
  obtain ⟨ph, d, rfl, hstep⟩ := step_spec hw hs
  exact hstep.wf hw

/-! ## A lock file that is not disturbed -/

/-- What nobody may do to the file of the others: no `unlink` while one of them has opened it
and has not tried to lock it, and no `close` but at the end. -/
def Undisturbed (s : Instances) : InstanceAction → Instances → Prop
  | .unlink _ true, _ => ∀ q i, s.phase q ≠ .opened i
  | .reread _, _ => False
  | _, _ => True

theorem Undisturbed.ne_reread {a : InstanceAction} (h : Undisturbed s a s') (p : ℕ) :
    a ≠ .reread p := by
  rintro rfl
  exact h

theorem phase_of_unlink {ok : Bool} (hs : s.step (.unlink p ok) = some s') :
    ∃ i clean, s.phase p = .serving i clean ∧
      s' = s.set p (.leaving i) (if ok then s.dir.unlink else s.dir) := by
  simp only [Instances.step] at hs
  split at hs
  · rename_i i clean hp
    exact ⟨i, clean, hp, (Option.some.inj hs).symm⟩
  · cases hs

theorem Phase.file_cases {ph : Phase} (h : ph.file = some i) :
    ph = .opened i ∨ ph.lockFile = some i := by
  cases ph with
  | opened j => exact .inl (congrArg _ (Option.some.inj h))
  | gone => cases h
  | leaving j => cases h
  | locked j => exact .inr h
  | truncated j clean => exact .inr h
  | serving j clean => exact .inr h

/-- Nobody else is left with the name that `p` removes. -/
theorem Sound.no_other_file (hs : s.Sound) {clean : Bool} (hp : s.phase p = .serving i clean)
    (hopened : ∀ q j, s.phase q ≠ .opened j) {q : ℕ} (hq : q ≠ p) : (s.phase q).file = none := by
  by_contra hfile
  obtain ⟨j, hj⟩ := Option.ne_none_iff_exists'.mp hfile
  have hpgood := hs p
  rw [hp] at hpgood
  obtain rfl : i = j := Option.some.inj ((hpgood.named i rfl).symm.trans ((hs q).named j hj))
  rcases Phase.file_cases hj with ho | hl
  · exact hopened q i ho
  · exact hq (Option.some.inj (((hs q).locked i hl).symm.trans (hpgood.locked i rfl)))

theorem sound_step_iff {a : InstanceAction} (hw : s.Wf) (hsound : s.Sound)
    (hs : s.step a = some s') : s'.Sound ↔ Undisturbed s a s' := by
  constructor
  · intro h'
    cases a with
    | unlink p ok =>
      cases ok with
      | false => trivial
      | true =>
        obtain ⟨i, clean, hp, rfl⟩ := phase_of_unlink hs
        intro q j hq
        have hne : q ≠ p := by
          rintro rfl
          rw [hp] at hq
          cases hq
        have hgood := h' q
        rw [set_phase_of_ne s hne, hq] at hgood
        cases hgood.named j rfl
    | reread p =>
      simp only [Instances.step] at hs
      split at hs
      · rename_i i clean hp
        obtain rfl := Option.some.inj hs
        have hgood := h' p
        rw [set_phase_self] at hgood
        exact (LockedName.close_owner.mp (hgood.locked i rfl)).2 ⟨rfl, rfl⟩
      · cases hs
    | _ => trivial
  · intro hund
    obtain ⟨ph, d, rfl, hstep⟩ := step_spec hw hs
    have hp := hsound a.proc
    refine hstep.sound hw hsound ⟨hstep.named hp.named,
      hstep.locked (hund.ne_reread _) hp.locked, hstep.text hp.text⟩ ?_
    intro q hq i hi
    have hname := (hsound q).named i hi
    by_cases ha : a = .unlink a.proc true
    · -- then nobody else has a file
      rw [ha] at hs hund
      obtain ⟨j, clean, hp, -⟩ := phase_of_unlink hs
      rw [hsound.no_other_file hp hund hq] at hi
      cases hi
    · exact hstep.name ha i hname

/-- **Exactness.** In a run every server has the file that the name leads to, and the lock on
it, if and only if no step disturbs the file. -/
theorem sound_iff (stale : Option Bytes) (as : List InstanceAction) :
    Along step Sound (start stale) as ↔ EachStep step Undisturbed (start stale) as :=
  along_iff_eachStep (J := Wf) (fun _ _ _ hw hs => hw.step hs)
    (fun _ _ _ hw hsound hs => sound_step_iff hw hsound hs) as (.start stale) (.start stale)

/-- **There is at most one server**, and the file with the name has its pid in it, unless it
could not be truncated. -/
theorem at_most_one (stale : Option Bytes) {as : List InstanceAction}
    (h : EachStep step Undisturbed (start stale) as) (hr : run step (start stale) as = some s)
    {clean : Bool} (hp : s.phase p = .serving i clean) :
    s.dir.name = some i ∧ s.dir.owner i = some p ∧
      (clean = true → s.dir.content i = pidText p) ∧
      ∀ q j c, s.phase q = .serving j c → q = p := by
  have hsound : s.Sound := ((sound_iff stale as).mpr h).last hr
  have hgood := hsound p
  rw [hp] at hgood
  refine ⟨hgood.named i rfl, hgood.locked i rfl, ?_, ?_⟩
  · rintro rfl
    exact hgood.text
  · intro q j c hq
    have hgood' := hsound q
    rw [hq] at hgood'
    obtain rfl : i = j :=
      Option.some.inj ((hgood.named i rfl).symm.trans (hgood'.named j rfl))
    exact Option.some.inj ((hgood'.locked i rfl).symm.trans (hgood.locked i rfl))

theorem undisturbed_of_forall_mem (as : List InstanceAction)
    (h : ∀ a ∈ as, a ≠ .unlink a.proc true ∧ a ≠ .reread a.proc) (s : Instances) :
    EachStep step Undisturbed s as := by
  refine (EachStep.of_forall_mem h s).mono ?_
  intro s a s' ha
  cases a with
  | reread p => exact ha.2 rfl
  | unlink p ok =>
    cases ok with
    | false => trivial
    | true => exact absurd rfl ha.1
  | _ => trivial

/-- A server is running, and another one is started. -/
def secondStart : List InstanceAction :=
  [.openFile 7, .lockfile 7, .ftruncate 7 true, .write 7, .openFile 8, .lockfile 8]

theorem at_most_one_secondStart : ∃ s : Instances,
    run step (start (some (lit "123456"))) secondStart = some s ∧ s.phase 8 = .gone ∧
      s.dir.content 0 = lit "7" ∧ ∀ q j c, s.phase q = .serving j c → q = 7 := by
  have hund := undisturbed_of_forall_mem secondStart (by decide) (start (some (lit "123456")))
  have hserving : ∃ s : Instances, run step (start (some (lit "123456"))) secondStart = some s ∧
      s.phase 7 = .serving 0 true := ⟨_, rfl, rfl⟩
  obtain ⟨s, hr, hp⟩ := hserving
  have hmain := at_most_one (some (lit "123456")) hund hr hp
  refine ⟨s, hr, ?_, hmain.2.2.1 rfl, hmain.2.2.2⟩
  exact (Option.some.inj hr) ▸ rfl

/-- The first server removes the name between the two calls of the second one. It and the third
one are both running then. -/
example : ∃ s : Instances,
    run step (start none) [.openFile 7, .lockfile 7, .ftruncate 7 true, .write 7,
      .openFile 8, .unlink 7 true, .exit 7, .lockfile 8, .ftruncate 8 true, .write 8,
      .openFile 9, .lockfile 9, .ftruncate 9 true, .write 9] = some s ∧
      s.phase 8 = .serving 1 true ∧ s.phase 9 = .serving 2 true :=
  ⟨_, rfl, rfl, rfl⟩

/-! ## The next start -/

/-- Nobody has lost a lock. -/
def Held (s : Instances) : Prop := ∀ p, Locked s.dir p (s.phase p)

theorem Held.step {a : InstanceAction} (hw : s.Wf) (hh : s.Held) (ha : ∀ p, a ≠ .reread p)
    (hs : s.step a = some s') : s'.Held := by
  obtain ⟨ph, d, rfl, hstep⟩ := step_spec hw hs
  intro q
  by_cases hq : q = a.proc
  · subst hq
    rw [set_phase_self]
    exact hstep.locked (ha _) (hh a.proc)
  · rw [set_phase_of_ne s hq]
    exact fun i hi => (hstep.owner q hq i).mpr (hh q i hi)

theorem held_of_run {as : List InstanceAction} (ha : ∀ a ∈ as, ∀ p, a ≠ .reread p)
    (hw : s.Wf) (hh : s.Held) (hr : run step s as = some s') : s'.Wf ∧ s'.Held := by
  induction as generalizing s with
  | nil =>
    obtain rfl := Option.some.inj hr
    exact ⟨hw, hh⟩
  | cons a as ih =>
    obtain ⟨s₁, hs, hr⟩ := Option.bind_eq_some_iff.mp hr
    exact ih (fun b hb => ha b (List.mem_cons_of_mem a hb)) (hw.step hs)
      (hh.step hw (ha a List.mem_cons_self) hs) hr

/-- Somebody has the file with the name locked. -/
def Taken (s : Instances) : Prop := ∃ q i, s.dir.name = some i ∧ (s.phase q).lockFile = some i

theorem set_set (s : Instances) (p : ℕ) (ph ph' : Phase) (d d' : LockedName ℕ UInt8) :
    (s.set p ph d).set p ph' d' = s.set p ph' d' := by
  simp [Instances.set, Function.update_idem]

theorem set_self (hp : s.phase p = .gone) : s.set p .gone s.dir = s := by
  simp [Instances.set, ← hp]

theorem openCreat_of_named (hn : s.dir.name = some i) : s.dir.openCreat = s.dir := by
  simp [LockedName.openCreat, hn]

/-- The file that `open` gives is locked only if it has the name already. -/
theorem taken_of_owner {q : ℕ} (hw : s.Wf) (hq : s.dir.owner s.dir.target = some q) :
    s.dir.name = some s.dir.target ∧ (s.phase q).lockFile = some s.dir.target := by
  have hlock := (hw.placed q).owner _ hq
  refine ⟨?_, hlock⟩
  cases hn : s.dir.name with
  | some i => rw [LockedName.target_eq hn]
  | none =>
    have hlt := (hw.placed q).lockFile _ hlock
    simp [LockedName.target, hn] at hlt

/-- **A start is refused exactly while somebody has the file with the name locked**, and leaves
nothing behind then; what a crash has left is not in the way. -/
theorem start_refused_iff (stale : Option Bytes) {as : List InstanceAction}
    (ha : ∀ a ∈ as, ∀ q, a ≠ .reread q) (hr : run step (start stale) as = some s)
    (hp : s.phase p = .gone) : ∃ s', run step s [.openFile p, .lockfile p] = some s' ∧
      (s.Taken → s' = s) ∧
      (¬ s.Taken → s'.phase p = .locked s.dir.target ∧ s'.dir.name = some s.dir.target ∧
        s'.dir.owner s.dir.target = some p) := by
  obtain ⟨hw, hh⟩ := held_of_run ha (.start stale) (fun _ _ h => nomatch h) hr
  cases hlock : s.dir.openCreat.setLock p s.dir.target with
  | none =>
    obtain ⟨q, hq, -⟩ := LockedName.setLock_eq_none.mp hlock
    rw [LockedName.openCreat_owner] at hq
    have htaken := taken_of_owner hw hq
    refine ⟨s.set p .gone s.dir.openCreat, ?_, ?_, fun h => absurd ⟨q, _, htaken⟩ h⟩
    · simp [run, Instances.step, hp, hlock, set_set]
    · intro _
      rw [openCreat_of_named htaken.1]
      exact set_self hp
  | some d =>
    have hl := LockedName.setLock_eq_some hlock
    refine ⟨s.set p (.locked s.dir.target) d, ?_, ?_, ?_⟩
    · simp [run, Instances.step, hp, hlock, set_set]
    · rintro ⟨q, i, hn, hq⟩
      -- the lock of `q` would have kept `p` from getting it
      have hfree := hl.free q
      rw [LockedName.openCreat_owner, LockedName.target_eq hn] at hfree
      rw [hfree (hh q i hq), hp] at hq
      cases hq
    · intro _
      refine ⟨set_phase_self .., ?_, hl.self⟩
      rw [set_dir, hl.name, LockedName.openCreat_name]

/-- A server is killed. -/
def crash : List InstanceAction :=
  [.openFile 7, .lockfile 7, .ftruncate 7 true, .write 7, .exit 7]

theorem start_after_crash : ∃ s s' : Instances, run step (start none) crash = some s ∧
      s.dir.content 1 = lit "7" ∧ run step s [.openFile 8, .lockfile 8] = some s' ∧
      s'.phase 8 = .locked 1 := by
  have hcrash : ∀ a ∈ crash, ∀ q, a ≠ .reread q := by simp [crash]
  obtain ⟨s', hrun, -, hfree⟩ := start_refused_iff none hcrash rfl (p := 8) rfl
  refine ⟨_, s', rfl, rfl, hrun, (hfree ?_).1⟩
  rintro ⟨q, i, -, hq⟩
  by_cases h7 : q = 7
  · subst h7
    cases hq
  · simp [start, set, Phase.lockFile] at hq

end Instances

end Celeritas
