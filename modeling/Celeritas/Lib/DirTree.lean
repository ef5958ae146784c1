import Mathlib.Data.List.Basic
import Mathlib.Data.List.Induction
import Mathlib.Logic.Function.Basic
import Mathlib.Tactic.Common

/-!
# Directories

A tree of directories and files without links, as a process sees it: what is there, and what
the process may do with it. A place is the list of names on the way to it, the last name
first. Paths are lists of components and are resolved one component after the other (`walk`);
`mkdir`, `openCreat` and `access` are what the system calls come to.

`ensure` is what `mkdir -p` is for, with names and places in the place of paths.
-/

set_option autoImplicit false

namespace Celeritas.Lib

/-- What is there, and which of the permissions the process has. -/
inductive Node
  | dir (search write : Bool)
  | file (read write exec : Bool)
  deriving DecidableEq

def Node.isDir : Node → Bool
  | .dir _ _ => true
  | .file _ _ _ => false

inductive PathError
  | ENOENT
  | ENOTDIR
  | EACCES
  | EEXIST
  | EISDIR
  deriving DecidableEq

/-- What stands between two slashes: nothing, a dot, two dots or a name. -/
inductive Component (N : Type)
  | skip
  | self
  | up
  | name (n : N)
  deriving DecidableEq

/-- Every entry is in a directory. -/
structure DirTree (N : Type) where
  node : List N → Option Node
  root : (node []).any Node.isDir = true
  parent : ∀ n p, node (n :: p) ≠ none → (node p).any Node.isDir = true

namespace DirTree

variable {N : Type}

/-! ## Paths -/

/-- The process looks something up in the directory. -/
def search (t : DirTree N) (p : List N) : Except PathError Unit :=
  match t.node p with
  | some (.dir true _) => .ok ()
  | some (.dir false _) => .error .EACCES
  | some (.file _ _ _) => .error .ENOTDIR
  | none => .error .ENOENT

def enter (t : DirTree N) (p : List N) : Component N → Except PathError (List N)
  | .skip => if (t.node p).any Node.isDir then .ok p else .error .ENOTDIR
  | .self => do
    t.search p
    return p
  | .up => do
    t.search p
    return p.tail
  | .name n => do
    t.search p
    if (t.node (n :: p)).isSome then return n :: p else throw .ENOENT

def walk (t : DirTree N) (p : List N) (cs : List (Component N)) : Except PathError (List N) :=
  cs.foldlM t.enter p

def stat (t : DirTree N) (p : List N) (cs : List (Component N)) : Except PathError Node := do
  let q ← t.walk p cs
  match t.node q with
  | some x => return x
  | none => throw .ENOENT

/-! ## System calls -/

section

variable [DecidableEq N]

/-- One more entry, where there is a directory for it and none yet. -/
def add (t : DirTree N) (n : N) (p : List N) (x : Node) : DirTree N :=
  if h : (t.node p).any Node.isDir = true ∧ t.node (n :: p) = none then
    { node := Function.update t.node (n :: p) (some x)
      root := by
        rw [Function.update_of_ne (List.cons_ne_nil n p).symm]
        exact t.root
      parent := by
        intro m q hm
        have hp : p ≠ n :: p := fun hp => by simpa using congrArg List.length hp
        by_cases hq : m :: q = n :: p
        · obtain ⟨rfl, rfl⟩ := List.cons.inj hq
          rw [Function.update_of_ne hp]
          exact h.1
        · rw [Function.update_of_ne hq] at hm
          have hdir := t.parent m q hm
          have hne : q ≠ n :: p := by
            rintro rfl
            rw [h.2] at hdir
            cases hdir
          rwa [Function.update_of_ne hne] }
  else t

/-- `mkdir`, with the components from the last one on. A process may do everything in a
directory that it has made. -/
def mkdirRev (t : DirTree N) (s : List N) : List (Component N) → Except PathError (DirTree N)
  | [] => .error .EEXIST
  | .skip :: cs => t.mkdirRev s cs
  | .name n :: cs => do
    let p ← t.walk s cs.reverse
    t.search p
    match t.node (n :: p), t.node p with
    | some _, _ => throw .EEXIST
    | none, some (.dir _ true) => return t.add n p (.dir true true)
    | none, _ => throw .EACCES
  | _ :: cs => do
    let p ← t.walk s cs.reverse
    t.search p
    throw .EEXIST

def mkdir (t : DirTree N) (s : List N) (cs : List (Component N)) : Except PathError (DirTree N) :=
  t.mkdirRev s cs.reverse

/-- `open` for writing, with `O_CREAT`. -/
def openCreat (t : DirTree N) (s : List N) (cs : List (Component N)) :
    Except PathError (DirTree N) :=
  match cs.reverse with
  | .name n :: cs => do
    let p ← t.walk s cs.reverse
    t.search p
    match t.node (n :: p), t.node p with
    | some (.file _ true _), _ => return t
    | some (.file _ false _), _ => throw .EACCES
    | some (.dir _ _), _ => throw .EISDIR
    | none, some (.dir _ true) => return t.add n p (.file true true false)
    | none, _ => throw .EACCES
  | _ => .error .EISDIR

end

/-! ## What the calls are for -/

section

variable [DecidableEq N]

/-- There is an entry of this name afterwards, if the process may look for it, and make it. -/
def entry (t : DirTree N) (p : List N) (n : N) (new : Node) : Option (DirTree N) :=
  match t.node p with
  | some (.dir true w) =>
    if (t.node (n :: p)).isSome then some t else if w then some (t.add n p new) else none
  | _ => none

/-- All directories on the way. -/
def ensure (t : DirTree N) (p : List N) : List N → Option (DirTree N)
  | [] => some t
  | n :: ns => (t.entry p n (.dir true true)).bind fun t' => t'.ensure (n :: p) ns

/-- A file to read and write, and all directories on the way. -/
def ensureFile (t : DirTree N) (p : List N) (ns : List N) (n : N) : Option (DirTree N) := do
  let t ← t.ensure p ns
  let t ← t.entry (ns.reverse ++ p) n (.file true true false)
  match t.node (n :: (ns.reverse ++ p)) with
  | some (.file true true _) => return t
  | _ => none

end

/-! ## Paths of names -/

variable {t t' t'' : DirTree N} {s p q : List N} {n : N} {cs : List (Component N)} {x : Node}

theorem search_eq_ok : t.search p = .ok () ↔ ∃ w, t.node p = some (.dir true w) := by
  unfold search
  split <;> simp_all

theorem search_ne_missing (hp : t.node p ≠ none) : t.search p ≠ .error .ENOENT := by
  unfold search
  split
  · exact fun h => nomatch h
  · exact fun h => nomatch h
  · exact fun h => nomatch h
  · rename_i hnone
    exact absurd hnone hp

theorem walk_cons (c : Component N) (cs : List (Component N)) :
    t.walk s (c :: cs) = (t.enter s c).bind fun p => t.walk p cs := List.foldlM_cons

theorem walk_append (cs ds : List (Component N)) :
    t.walk s (cs ++ ds) = (t.walk s cs).bind fun p => t.walk p ds := List.foldlM_append

theorem walk_concat (h : t.walk s cs = .ok p) (c : Component N) :
    t.walk s (cs ++ [c]) = t.enter p c := by
  rw [walk_append, h]
  show (t.enter p c >>= pure) = _
  cases t.enter p c <;> rfl

theorem walk_singleton (c : Component N) : t.walk s [c] = t.enter s c :=
  have hnil : t.walk s [] = .ok s := rfl
  walk_concat hnil c

theorem exists_of_walk_concat {c : Component N} (h : t.walk s (cs ++ [c]) = .ok q) :
    ∃ p, t.walk s cs = .ok p ∧ t.enter p c = .ok q := by
  cases hp : t.walk s cs with
  | error e =>
    rw [walk_append, hp] at h
    cases h
  | ok p => exact ⟨p, rfl, (walk_concat hp c).symm.trans h⟩

theorem enter_name_eq_ok : t.enter p (.name n) = .ok q ↔
    (∃ w, t.node p = some (.dir true w)) ∧ t.node (n :: p) ≠ none ∧ q = n :: p := by
  rw [← search_eq_ok, ← Option.isSome_iff_ne_none]
  cases hs : t.search p with
  | error e => simp [enter, hs, bind, Except.bind]
  | ok u =>
    by_cases hn : (t.node (n :: p)).isSome = true
    · simp [enter, hs, hn, bind, Except.bind, pure, Except.pure, eq_comm]
    · simp [enter, hs, hn, bind, Except.bind, throw, throwThe, MonadExceptOf.throw]

theorem enter_skip_eq_ok : t.enter p .skip = .ok q ↔
    (t.node p).any Node.isDir = true ∧ q = p := by
  simp only [enter]
  split
  · rename_i h
    rw [Except.ok.injEq, eq_comm, and_iff_right h]
  · rename_i h
    exact iff_of_false (fun h' => nomatch h') fun h' => h h'.1

/-- A path without dots. -/
def NoDots (cs : List (Component N)) : Prop := ∀ c ∈ cs, c = .skip ∨ ∃ n, c = .name n

/-- Its names. -/
def names : List (Component N) → List N
  | [] => []
  | .name n :: cs => n :: names cs
  | _ :: cs => names cs

theorem NoDots.concat {c : Component N} (h : NoDots (cs ++ [c])) :
    NoDots cs ∧ (c = .skip ∨ ∃ n, c = .name n) := by
  rw [NoDots, List.forall_mem_append] at h
  exact ⟨h.1, h.2 c (List.mem_singleton_self c)⟩

theorem names_append (cs ds : List (Component N)) : names (cs ++ ds) = names cs ++ names ds := by
  induction cs with
  | nil => rfl
  | cons c cs ih =>
    cases c with
    | name n => exact congrArg (n :: ·) ih
    | _ => exact ih

/-- A path without dots leads nowhere else but to the place of its names. -/
theorem place_of_walk (hcs : NoDots cs) (h : t.walk s cs = .ok p) :
    p = (names cs).reverse ++ s := by
  induction cs using List.reverseRecOn generalizing p with
  | nil => exact (Except.ok.inj h).symm
  | append_singleton cs c ih =>
    obtain ⟨q, hq, hc⟩ := exists_of_walk_concat h
    obtain ⟨hplain, hskip | ⟨n, hname⟩⟩ := hcs.concat
    · subst hskip
      rw [(enter_skip_eq_ok.mp hc).2, ih hplain hq, names_append]
      simp [names]
    · subst hname
      rw [(enter_name_eq_ok.mp hc).2.2, ih hplain hq, names_append]
      simp [names]

theorem node_of_walk (hcs : NoDots cs) (hs : t.node s ≠ none) (h : t.walk s cs = .ok p) :
    t.node p ≠ none := by
  induction cs using List.reverseRecOn generalizing p with
  | nil =>
    obtain rfl := Except.ok.inj h
    exact hs
  | append_singleton cs c ih =>
    obtain ⟨q, hq, hc⟩ := exists_of_walk_concat h
    obtain ⟨hplain, rfl | ⟨n, rfl⟩⟩ := hcs.concat
    · obtain ⟨-, rfl⟩ := enter_skip_eq_ok.mp hc
      exact ih hplain hq
    · obtain ⟨-, hn, rfl⟩ := enter_name_eq_ok.mp hc
      exact hn

theorem stat_eq_ok : t.stat s cs = .ok x ↔ ∃ q, t.walk s cs = .ok q ∧ t.node q = some x := by
  unfold stat
  cases t.walk s cs with
  | error e => simp [bind, Except.bind]
  | ok q =>
    cases hq : t.node q <;>
      simp [bind, Except.bind, pure, Except.pure, throw, throwThe, MonadExceptOf.throw, hq]

theorem stat_of_error {e : PathError} (h : t.walk s cs = .error e) : t.stat s cs = .error e := by
  rw [stat, h]
  rfl

/-- The last name of a path. -/
theorem stat_name (h : t.walk s cs = .ok p) : t.stat s (cs ++ [.name n]) =
    (t.search p).bind fun _ => (t.node (n :: p)).elim (.error .ENOENT) .ok := by
  rw [stat, walk_concat h]
  simp only [enter, bind, Except.bind]
  cases t.search p with
  | error e => rfl
  | ok u => cases hn : t.node (n :: p) <;> simp [pure, Except.pure, throw, throwThe,
      MonadExceptOf.throw, hn]

/-! ## What is there stays -/

/-- Nothing that is there is changed. -/
def Extends (t t' : DirTree N) : Prop := ∀ q, t.node q ≠ none → t'.node q = t.node q

theorem Extends.refl (t : DirTree N) : t.Extends t := fun _ _ => rfl

theorem Extends.trans (h : t.Extends t') (h' : t'.Extends t'') : t.Extends t'' := by
  intro q hq
  rw [h' q (h q hq ▸ hq), h q hq]

theorem Extends.enter {c : Component N} (h : t.Extends t') (hc : c = .skip ∨ ∃ n, c = .name n)
    (hp : t.enter s c = .ok p) : t'.enter s c = .ok p := by
  rcases hc with rfl | ⟨n, rfl⟩
  · obtain ⟨hdir, rfl⟩ := enter_skip_eq_ok.mp hp
    have hsome : t.node p ≠ none := by
      intro hnone
      rw [hnone] at hdir
      cases hdir
    exact enter_skip_eq_ok.mpr ⟨h p hsome ▸ hdir, rfl⟩
  · obtain ⟨⟨w, hw⟩, hnode, rfl⟩ := enter_name_eq_ok.mp hp
    exact enter_name_eq_ok.mpr ⟨⟨w, (h s (by simp [hw])).trans hw⟩, h _ hnode ▸ hnode, rfl⟩

theorem Extends.walk (h : t.Extends t') (hcs : NoDots cs) (hp : t.walk s cs = .ok p) :
    t'.walk s cs = .ok p := by
  induction cs using List.reverseRecOn generalizing p with
  | nil => exact hp
  | append_singleton cs c ih =>
    obtain ⟨q, hq, hc⟩ := exists_of_walk_concat hp
    rw [walk_concat (ih hcs.concat.1 hq)]
    exact h.enter hcs.concat.2 hc

section

variable [DecidableEq N]

theorem node_add (hp : (t.node p).any Node.isDir = true) (hn : t.node (n :: p) = none) :
    (t.add n p x).node q = if q = n :: p then some x else t.node q := by
  rw [add, dif_pos ⟨hp, hn⟩]
  exact Function.update_apply ..

/-- The entry is there, or is made. -/
theorem entry_eq_some : t.entry p n x = some t' ↔ ∃ w, t.node p = some (.dir true w) ∧
    (t.node (n :: p) ≠ none ∧ t' = t ∨
      t.node (n :: p) = none ∧ w = true ∧ t' = t.add n p x) := by
  unfold entry
  split
  · rename_i w hw
    cases hn : t.node (n :: p) with
    | some y => simp [hw, eq_comm]
    | none => cases w <;> simp [hw, eq_comm]
  · rename_i hno
    simp only [reduceCtorEq, false_iff, not_exists, not_and]
    exact fun w hw => absurd hw (hno w)

theorem entry_of_found {y : Node} {w : Bool} (hp : t.node p = some (.dir true w))
    (hn : t.node (n :: p) = some y) : t.entry p n x = some t :=
  entry_eq_some.mpr ⟨w, hp, .inl ⟨by simp [hn], rfl⟩⟩

theorem entry_of_missing {w : Bool} (hp : t.node p = some (.dir true w))
    (hn : t.node (n :: p) = none) :
    t.entry p n x = some t' ↔ w = true ∧ t' = t.add n p x := by
  rw [entry, hp, hn]
  cases w <;> simp [eq_comm]

/-- Of the entry's node nothing else changes. -/
theorem node_entry (h : t.entry p n x = some t') :
    t'.node q = if q = n :: p ∧ t.node q = none then some x else t.node q := by
  obtain ⟨w, hw, ⟨hsome, rfl⟩ | ⟨hnone, -, rfl⟩⟩ := entry_eq_some.mp h
  · rw [if_neg]
    rintro ⟨rfl, hnone⟩
    exact hsome hnone
  · rw [node_add (by simp [hw, Node.isDir]) hnone]
    by_cases hq : q = n :: p
    · subst hq
      simp [hnone]
    · simp [hq]

theorem extends_entry (h : t.entry p n x = some t') : t.Extends t' := by
  intro q hq
  rw [node_entry h, if_neg fun hc => hq hc.2]

theorem extends_ensure {ns : List N} (h : t.ensure p ns = some t') : t.Extends t' := by
  induction ns generalizing t p with
  | nil =>
    obtain rfl := Option.some.inj h
    exact .refl t
  | cons n ns ih =>
    obtain ⟨u, hu, hrest⟩ := Option.bind_eq_some_iff.mp h
    exact (extends_entry hu).trans (ih hrest)

/-! ## The calls along a path -/

/-- What a path leads to cannot be made. -/
theorem mkdir_of_walk (hcs : NoDots cs) (h : t.walk s cs = .ok p) :
    t.mkdir s cs = .error .EEXIST := by
  induction cs using List.reverseRecOn generalizing p with
  | nil => rfl
  | append_singleton cs c ih =>
    obtain ⟨q, hq, hc⟩ := exists_of_walk_concat h
    obtain ⟨hplain, hskip | ⟨n, hname⟩⟩ := hcs.concat
    · subst hskip
      rw [mkdir, List.reverse_concat]
      exact ih hplain hq
    · subst hname
      obtain ⟨hdir, hnode, -⟩ := enter_name_eq_ok.mp hc
      obtain ⟨y, hy⟩ := Option.ne_none_iff_exists'.mp hnode
      rw [mkdir, List.reverse_concat, mkdirRev, List.reverse_reverse, hq]
      simp only [bind, Except.bind, search_eq_ok.mpr hdir, hy]
      rfl

/-- `mkdir`, where it does not matter if the directory is there. -/
def mkdirP (t : DirTree N) (s : List N) (cs : List (Component N)) : Option (DirTree N) :=
  match t.mkdir s cs with
  | .ok t' => some t'
  | .error .EEXIST => some t
  | .error _ => none

theorem mkdirP_skip (hcs : NoDots cs) (h : t.walk s cs = .ok p) :
    t.mkdirP s (cs ++ [.skip]) = some t := by
  have hsame : t.mkdir s (cs ++ [.skip]) = t.mkdir s cs := by
    rw [mkdir, List.reverse_concat]
    rfl
  rw [mkdirP, hsame, mkdir_of_walk hcs h]

theorem mkdirP_name (h : t.walk s cs = .ok p) :
    t.mkdirP s (cs ++ [.name n]) = t.entry p n (.dir true true) := by
  rw [mkdirP, mkdir, List.reverse_concat, mkdirRev, List.reverse_reverse, h]
  simp only [bind, Except.bind, search, entry]
  cases t.node p with
  | none => rfl
  | some y =>
    cases y with
    | file r w e => rfl
    | dir x w => cases x <;> cases w <;> cases t.node (n :: p) <;> rfl

/-- One component of a path that leads somewhere up to it. -/
theorem mkdirP_concat {c : Component N} (hcs : NoDots cs) (hc : c = .skip ∨ ∃ n, c = .name n)
    (h : t.walk s cs = .ok p) : t.mkdirP s (cs ++ [c]) = t.ensure p (names [c]) := by
  rcases hc with rfl | ⟨n, rfl⟩
  · exact mkdirP_skip hcs h
  · rw [mkdirP_name h, names, ensure]
    cases t.entry p n (.dir true true) <;> rfl

theorem openCreat_name (h : t.walk s cs = .ok p) {w : Bool}
    (hp : t.node p = some (.dir true w)) : t.openCreat s (cs ++ [.name n]) = .ok t' ↔
      (∃ r e, t.node (n :: p) = some (.file r true e)) ∧ t' = t ∨
        t.node (n :: p) = none ∧ w = true ∧ t' = t.add n p (.file true true false) := by
  rw [openCreat, List.reverse_concat]
  simp only [List.reverse_reverse, h, bind, Except.bind, search_eq_ok.mpr ⟨w, hp⟩]
  cases hn : t.node (n :: p) with
  | none => cases w <;> simp [hp, pure, Except.pure, throw, throwThe, MonadExceptOf.throw, eq_comm]
  | some y =>
    cases y with
    | dir x w' => simp [throw, throwThe, MonadExceptOf.throw]
    | file r w' e =>
      cases w' <;> simp [pure, Except.pure, throw, throwThe, MonadExceptOf.throw, eq_comm]

/-! ## All of a path -/

/-- Where a path leads somewhere nothing has to be made. -/
theorem ensure_of_walk (hcs : NoDots cs) (h : t.walk s cs = .ok p) :
    t.ensure s (names cs) = some t := by
  induction cs generalizing s with
  | nil => rfl
  | cons c cs ih =>
    obtain ⟨hc, hplain⟩ := List.forall_mem_cons.mp hcs
    rw [walk_cons] at h
    cases hq : t.enter s c with
    | error e =>
      rw [hq] at h
      cases h
    | ok q =>
      rw [hq] at h
      rcases hc with rfl | ⟨n, rfl⟩
      · obtain ⟨-, rfl⟩ := enter_skip_eq_ok.mp hq
        exact ih hplain h
      · obtain ⟨⟨w, hw⟩, hnode, rfl⟩ := enter_name_eq_ok.mp hq
        have hentry : t.entry s n (.dir true true) = some t :=
          entry_eq_some.mpr ⟨w, hw, .inl ⟨hnode, rfl⟩⟩
        rw [names, ensure, hentry]
        exact ih hplain h

/-- An empty directory, in which everything may be done. -/
structure Empty (t : DirTree N) (p : List N) : Prop where
  node : t.node p = some (.dir true true)
  empty : ∀ n, t.node (n :: p) = none

theorem empty_entry (hn : t.node (n :: p) = none)
    (h : t.entry p n (.dir true true) = some t') : t'.Empty (n :: p) := by
  constructor
  · rw [node_entry h, if_pos ⟨rfl, hn⟩]
  · intro m
    have hnone : t.node (m :: n :: p) = none := by
      by_contra hm
      have hdir := t.parent m (n :: p) hm
      rw [hn] at hdir
      cases hdir
    rw [node_entry h, if_neg fun hc => by simpa using congrArg List.length hc.1, hnone]

theorem ensure_cons (c : Component N) (cs : List (Component N)) : t.ensure s (names (c :: cs)) =
    (t.ensure s (names [c])).bind fun u => u.ensure ((names [c]).reverse ++ s) (names cs) := by
  cases c with
  | name n =>
    simp only [names, ensure, List.reverse_cons, List.reverse_nil, List.nil_append,
      List.singleton_append]
    cases t.entry s n (.dir true true) <;> rfl
  | _ => rfl

/-- Something is missing on the way from here, or is no longer, because all of it has been made
that far. -/
def Ready (t : DirTree N) (s : List N) (cs : List (Component N)) : Prop :=
  t.Empty s ∨ t.node s ≠ none ∧ t.walk s cs = .error .ENOENT

/-- One component on. -/
theorem Ready.step {c : Component N} (h : t.Ready s (c :: cs)) (hc : c = .skip ∨ ∃ n, c = .name n)
    (hu : t.ensure s (names [c]) = some t') :
    t'.enter s c = .ok ((names [c]).reverse ++ s) ∧ t'.Ready ((names [c]).reverse ++ s) cs := by
  rcases hc with rfl | ⟨n, rfl⟩
  · obtain rfl := Option.some.inj hu
    rcases h with hempty | ⟨hs, hmissing⟩
    · exact ⟨enter_skip_eq_ok.mpr ⟨by simp [hempty.node, Node.isDir], rfl⟩, .inl hempty⟩
    · rw [walk_cons] at hmissing
      cases hq : t.enter s .skip with
      | error e =>
        -- what is no directory is not missing
        rw [hq] at hmissing
        cases hmissing
        simp only [DirTree.enter] at hq
        split at hq <;> cases hq
      | ok q =>
        obtain ⟨hdir, rfl⟩ := enter_skip_eq_ok.mp hq
        rw [hq] at hmissing
        exact ⟨rfl, .inr ⟨hs, hmissing⟩⟩
  · obtain ⟨u, hentry, hlast⟩ := Option.bind_eq_some_iff.mp hu
    obtain rfl := Option.some.inj hlast
    obtain ⟨w, hw, hcase⟩ := entry_eq_some.mp hentry
    have hs : t.node s ≠ none := by simp [hw]
    have hdir : u.node s = some (.dir true w) := (extends_entry hentry s hs).trans hw
    by_cases hn : t.node (n :: s) = none
    · have hnew := empty_entry hn hentry
      exact ⟨enter_name_eq_ok.mpr ⟨⟨w, hdir⟩, by simp [hnew.node], rfl⟩, .inl hnew⟩
    · have henter : t.enter s (.name n) = .ok (n :: s) := enter_name_eq_ok.mpr ⟨⟨w, hw⟩, hn, rfl⟩
      refine ⟨(extends_entry hentry).enter (.inr ⟨n, rfl⟩) henter, .inr ⟨?_, ?_⟩⟩
      · exact fun hnone => hn ((extends_entry hentry _ hn).symm.trans hnone)
      · rcases h with hempty | ⟨-, hmissing⟩
        · exact absurd (hempty.empty n) hn
        · rw [walk_cons, henter] at hmissing
          obtain ⟨-, rfl⟩ | ⟨hnone, -⟩ := hcase
          · exact hmissing
          · exact absurd hnone hn

/-- What is at the end has been made. -/
theorem Ready.ensure (h : t.Ready s cs) (hcs : NoDots cs) (he : t.ensure s (names cs) = some t') :
    ∃ p, t'.walk s cs = .ok p ∧ t'.Empty p := by
  induction cs generalizing t s with
  | nil =>
    obtain rfl := Option.some.inj he
    rcases h with hempty | ⟨-, hmissing⟩
    · exact ⟨s, rfl, hempty⟩
    · cases hmissing
  | cons c cs ih =>
    obtain ⟨hc, hplain⟩ := List.forall_mem_cons.mp hcs
    rw [ensure_cons] at he
    obtain ⟨u, hu, hrest⟩ := Option.bind_eq_some_iff.mp he
    obtain ⟨henter, hready⟩ := h.step hc hu
    obtain ⟨p, hp, hempty⟩ := ih hready hplain hrest
    refine ⟨p, ?_, hempty⟩
    rw [walk_cons, (extends_ensure hrest).enter hc henter]
    exact hp

/-! ## The file at the end -/

theorem ensureFile_cons (m : N) (ns : List N) (n : N) : t.ensureFile s (m :: ns) n =
    (t.entry s m (.dir true true)).bind fun t' => t'.ensureFile (m :: s) ns n := by
  simp only [ensureFile, ensure, List.reverse_cons, List.append_assoc, List.singleton_append]
  cases t.entry s m (.dir true true) <;> rfl

theorem entry_of_blocked (h : t.search p ≠ .ok ()) : t.entry p n x = none := by
  cases hentry : t.entry p n x with
  | none => rfl
  | some t' =>
    obtain ⟨w, hw, -⟩ := entry_eq_some.mp hentry
    exact absurd (search_eq_ok.mpr ⟨w, hw⟩) h

theorem ensureFile_of_blocked (h : t.search s ≠ .ok ()) (ns : List N) (n : N) :
    t.ensureFile s ns n = none := by
  cases ns with
  | nil =>
    show ((t.entry s n (.file true true false)).bind fun _ => _) = none
    rw [entry_of_blocked h]
    rfl
  | cons m ns =>
    rw [ensureFile_cons, entry_of_blocked h]
    rfl

/-- What is in the way of a path is in the way of the file. -/
theorem ensureFile_of_error {e : PathError} (hcs : NoDots cs) (hs : t.node s ≠ none)
    (h : t.walk s cs = .error e) (he : e ≠ .ENOENT) (n : N) :
    t.ensureFile s (names cs) n = none := by
  induction cs generalizing s with
  | nil => cases h
  | cons c cs ih =>
    obtain ⟨hc, hplain⟩ := List.forall_mem_cons.mp hcs
    by_cases hsearch : t.search s = .ok ()
    · obtain ⟨w, hw⟩ := search_eq_ok.mp hsearch
      rw [walk_cons] at h
      rcases hc with rfl | ⟨m, rfl⟩
      · rw [enter_skip_eq_ok.mpr ⟨by simp [hw, Node.isDir], rfl⟩] at h
        exact ih hplain hs h
      · by_cases hm : t.node (m :: s) = none
        · -- then it would have been missing
          simp only [enter, hsearch, hm, bind, Except.bind] at h
          cases h
          exact absurd rfl he
        · have hentry : t.entry s m (.dir true true) = some t :=
            entry_eq_some.mpr ⟨w, hw, .inl ⟨hm, rfl⟩⟩
          rw [enter_name_eq_ok.mpr ⟨⟨w, hw⟩, hm, rfl⟩] at h
          rw [names, ensureFile_cons, hentry]
          exact ih hplain hm h
    · exact ensureFile_of_blocked hsearch _ n

/-- Nothing is made but what is on the way. -/
theorem node_ensure {ns : List N} (h : t.ensure s ns = some t') :
    t'.node q = t.node q ∨ q <:+ ns.reverse ++ s ∧ t'.node q = some (.dir true true) := by
  induction ns generalizing t s with
  | nil =>
    obtain rfl := Option.some.inj h
    exact .inl rfl
  | cons n ns ih =>
    obtain ⟨u, hu, hrest⟩ := Option.bind_eq_some_iff.mp h
    rw [List.reverse_cons, List.append_assoc, List.singleton_append]
    rcases ih hrest with hsame | hnew
    · rw [hsame, node_entry hu]
      split
      · rename_i hq
        obtain ⟨rfl, -⟩ := hq
        exact .inr ⟨List.suffix_append _ _, rfl⟩
      · exact .inl rfl
    · exact .inr hnew

theorem ensureFile_eq_some {ns : List N} : t.ensureFile s ns n = some t' ↔
    (∃ u, t.ensure s ns = some u ∧
      u.entry (ns.reverse ++ s) n (.file true true false) = some t') ∧
    ∃ e, t'.node (n :: (ns.reverse ++ s)) = some (.file true true e) := by
  unfold ensureFile
  cases t.ensure s ns with
  | none => simp
  | some u =>
    cases hentry : u.entry (ns.reverse ++ s) n (.file true true false) with
    | none => simp [hentry]
    | some v =>
      simp only [Option.bind_eq_bind, Option.bind_some, hentry]
      split
      · rename_i e he
        constructor
        · intro hv
          obtain rfl := Option.some.inj hv
          exact ⟨⟨u, rfl, hentry⟩, e, he⟩
        · rintro ⟨⟨u', hu', hentry'⟩, -⟩
          obtain rfl := Option.some.inj hu'
          exact hentry.symm.trans hentry'
      · rename_i hno
        refine iff_of_false (fun h => nomatch h) ?_
        rintro ⟨⟨u', hu', hentry'⟩, e, he⟩
        obtain rfl := Option.some.inj hu'
        obtain rfl := Option.some.inj (hentry.symm.trans hentry')
        exact hno e he

theorem ensureFile_of_walk (hcs : NoDots cs) (h : t.walk s cs = .ok p) :
    t.ensureFile s (names cs) n = some t' ↔ t.entry p n (.file true true false) = some t' ∧
      ∃ e, t'.node (n :: p) = some (.file true true e) := by
  simp only [ensureFile_eq_some, ensure_of_walk hcs h, ← place_of_walk hcs h, Option.some.injEq,
    exists_eq_left']

theorem extends_ensureFile {ns : List N} (h : t.ensureFile s ns n = some t') : t.Extends t' := by
  obtain ⟨⟨u, hu, hentry⟩, -⟩ := ensureFile_eq_some.mp h
  exact (extends_ensure hu).trans (extends_entry hentry)

theorem node_ensureFile {ns : List N} (h : t.ensureFile s ns n = some t') :
    t'.node q = t.node q ∨ (q <:+ ns.reverse ++ s ∧ t'.node q = some (.dir true true)) ∨
      q = n :: (ns.reverse ++ s) ∧ t'.node q = some (.file true true false) := by
  obtain ⟨⟨u, hu, hentry⟩, -⟩ := ensureFile_eq_some.mp h
  rw [node_entry hentry]
  split
  · rename_i hq
    exact .inr (.inr ⟨hq.1, rfl⟩)
  · exact (node_ensure hu).imp_right .inl

end

end DirTree

end Celeritas.Lib
