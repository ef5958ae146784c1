import Celeritas.Startup.Privileges
import Celeritas.Lib.DirTree

/-!
# The places of the logs

Before `main` opens a log it calls `validate_path`, which makes the directories on the way to
it if there are none. The calls get texts, and most of them a part of one text: the loop of
`create_dir_recursive` calls `mkdir` for what is before each slash.

What all this comes to is told in names and places by `ensureFile` (`openLog_eq_ok`): the file
is there or can be made, and so can what is missing on the way to it. A path with dots in it
may also be refused, or accepted though the file cannot be made, and there are no links here.
-/

set_option autoImplicit false

namespace Celeritas

open CLib Lib DirTree

/-! ## Texts -/

def slash : UInt8 := charByte '/'

def component (s : Bytes) : Component Bytes :=
  if s = [] then .skip else if s = lit "." then .self else if s = lit ".." then .up else .name s

def components (path : Bytes) : List (Component Bytes) := (path.splitOn slash).map component

/-- Where the system begins to look. -/
def startOf (cwd : List Bytes) (path : Bytes) : List Bytes :=
  if path.head? = some slash then [] else cwd

def PathError.strerror : PathError → Bytes
  | .ENOENT => lit "No such file or directory"
  | .ENOTDIR => lit "Not a directory"
  | .EACCES => lit "Permission denied"
  | .EEXIST => lit "File exists"
  | .EISDIR => lit "Is a directory"

/-- `early_fatal`: what it prints. -/
def earlyFatal (msg : Bytes) : Bytes := msg ++ [newline]

def dieWithError (context : Bytes) (e : PathError) : Bytes :=
  earlyFatal (snprintfStored 512 (context ++ lit ": " ++ PathError.strerror e))

/-! ## `create_dir_recursive` -/

/-- A `mkdir` for which `EEXIST` is good. -/
def makeDir (start : List Bytes) (context tmp : Bytes) (t : DirTree Bytes) :
    Except Bytes (DirTree Bytes) :=
  match t.mkdir start (components tmp) with
  | .ok t => .ok t
  | .error .EEXIST => .ok t
  | .error e => .error (dieWithError context e)

/-- The loop, and the last call; `p` has come to the end of `done`. -/
def createLoop (start : List Bytes) : Bytes → Bytes → DirTree Bytes → Except Bytes (DirTree Bytes)
  | done, [], t => makeDir start (lit "Failed to create parent directory") done t
  | done, c :: rest, t =>
    if c = slash then do
      let t ← makeDir start (lit "Failed to create intermediate directory") done t
      createLoop start (done ++ [c]) rest t
    else createLoop start (done ++ [c]) rest t

def createDirRecursive (cwd : List Bytes) (dirPath : Bytes) (t : DirTree Bytes) :
    Except Bytes (DirTree Bytes) :=
  if dirPath.length ≥ PATH_MAX then .error (earlyFatal (lit "Directory path too long"))
  else if dirPath.head? = some slash then createLoop [] [slash] dirPath.tail t
  else createLoop cwd [] dirPath t

/-! ## `validate_path` -/

/-- `dir_path`, if there is a slash. -/
def dirPath (path : Bytes) : Option Bytes :=
  match path.rdropWhile (· ≠ slash) with
  | [] => none
  | [_] => some [slash]
  | upTo => some upTo.dropLast

/-- `access`, for `R_OK | W_OK` on a regular file and for `W_OK | X_OK`. -/
def mayReadWrite : Node → Bool
  | .file r w _ => r && w
  | .dir _ _ => false

def mayWriteExec : Node → Bool
  | .dir x w => w && x
  | .file _ w x => w && x

/-- The test that a file can be made, at the end. -/
def checkAccess (start : List Bytes) (path context : Bytes) (t : DirTree Bytes) :
    Except Bytes (DirTree Bytes) :=
  match t.stat start (components path) with
  | .ok x => if mayWriteExec x then .ok t else .error (dieWithError context .EACCES)
  | .error e => .error (dieWithError context e)

def validatePath (cwd : List Bytes) (path : Bytes) (t : DirTree Bytes) :
    Except Bytes (DirTree Bytes) :=
  let start := startOf cwd path
  if path = [] then .error (earlyFatal (lit "Invalid path: Path is NULL or empty"))
  else match t.stat start (components path) with
  | .ok x =>
    if x.isDir then .error (earlyFatal (lit "Path exists but is not a regular file"))
    else if mayReadWrite x then .ok t
    else .error (dieWithError (lit "File exists but lacks read/write permissions") .EACCES)
  | .error .ENOENT =>
    if path.length ≥ PATH_MAX then .error (earlyFatal (lit "File path too long"))
    else match dirPath path with
    | none =>
      checkAccess cwd (lit ".")
        (lit "Cannot create file in current directory (insufficient permissions)") t
    | some dir => do
      let t ← match t.stat start (components dir) with
        | .ok x =>
          if x.isDir then .ok t
          else .error (earlyFatal (lit "Parent path exists but is not a directory"))
        | .error .ENOENT => createDirRecursive cwd dir t
        | .error e => .error (dieWithError (lit "Failed to stat parent directory") e)
      checkAccess start dir
        (lit "Cannot create file in parent directory (insufficient permissions)") t
  | .error e => .error (dieWithError (lit "Failed to stat path") e)

/-- `main` with one of the logs. -/
def openLog (cwd : List Bytes) (name path : Bytes) (t : DirTree Bytes) :
    Except Bytes (DirTree Bytes) := do
  let t ← validatePath cwd path t
  match t.openCreat (startOf cwd path) (components path) with
  | .ok t => .ok t
  | .error e => .error (lit "failed to open " ++ name ++ lit " file: " ++ PathError.strerror e ++
      [newline])

/-! ## The loop -/

theorem components_append (s r : Bytes) :
    components (s ++ slash :: r) = components s ++ components r := by
  rw [components, List.splitOn_append_cons_self, List.map_append]
  rfl

theorem components_of_notMem {s : Bytes} (h : slash ∉ s) : components s = [component s] := by
  rw [components, List.splitOn_eq_singleton h]
  rfl

/-- A text is a segment, or a segment, a slash and a text. -/
theorem slash_induction {P : Bytes → Prop} (last : ∀ s, slash ∉ s → P s)
    (more : ∀ s r, slash ∉ s → P r → P (s ++ slash :: r)) (s : Bytes) : P s := by
  induction hlen : s.length using Nat.strong_induction_on generalizing s with
  | _ k ih =>
    by_cases hs : slash ∈ s
    · obtain ⟨a, r, rfl, ha⟩ := List.eq_append_cons_of_mem hs
      refine more a r ha (ih r.length ?_ r rfl)
      rw [← hlen, List.length_append, List.length_cons]
      omega
    · exact last s hs

variable {start : List Bytes} {t t' : DirTree Bytes}

theorem createLoop_segment {s : Bytes} (hs : slash ∉ s) (done rest : Bytes) :
    createLoop start done (s ++ rest) t = createLoop start (done ++ s) rest t := by
  induction s generalizing done with
  | nil => simp
  | cons c s ih =>
    rw [List.mem_cons, not_or] at hs
    rw [List.cons_append, createLoop, if_neg (Ne.symm hs.1), ih hs.2, List.append_assoc,
      List.singleton_append]

theorem makeDir_eq_ok {context tmp : Bytes} :
    makeDir start context tmp t = .ok t' ↔ t.mkdirP start (components tmp) = some t' := by
  unfold makeDir mkdirP
  cases t.mkdir start (components tmp) with
  | ok u => simp
  | error e => cases e <;> simp

/-- **The loop makes what is missing** on the way from where the text that is done leads. -/
theorem createLoop_eq_ok {rest : Bytes} (hrest : NoDots (components rest)) {done : Bytes}
    {pre : List (Component Bytes)} {p : List Bytes}
    (hdone : ∀ s, components (done ++ s) = pre ++ components s) (hpre : NoDots pre)
    (hwalk : t.walk start pre = .ok p) (hready : t.Ready p (components rest)) :
    createLoop start done rest t = .ok t' ↔ t.ensure p (names (components rest)) = some t' := by
  induction rest using slash_induction generalizing t done pre p with
  | last s hs =>
    rw [components_of_notMem hs] at hrest ⊢
    have hcomp : components (done ++ s) = pre ++ [component s] := by
      rw [hdone, components_of_notMem hs]
    have hloop : createLoop start done s t = createLoop start (done ++ s) [] t := by
      rw [← createLoop_segment hs, List.append_nil]
    rw [hloop, createLoop, makeDir_eq_ok, hcomp,
      mkdirP_concat hpre (hrest _ (List.mem_singleton_self _)) hwalk]
  | more s r hs ih =>
    rw [components_append, components_of_notMem hs, List.singleton_append] at hrest hready ⊢
    obtain ⟨hc, hr⟩ := List.forall_mem_cons.mp hrest
    have hcomp : components (done ++ s) = pre ++ [component s] := by
      rw [hdone, components_of_notMem hs]
    have hnext : ∀ s', components (done ++ s ++ [slash] ++ s') =
        pre ++ [component s] ++ components s' := by
      intro s'
      rw [← hcomp, List.append_assoc (done ++ s), List.singleton_append, components_append]
    have hpre' : NoDots (pre ++ [component s]) := by
      rw [NoDots, List.forall_mem_append, List.forall_mem_singleton]
      exact ⟨hpre, hc⟩
    rw [createLoop_segment hs, createLoop, if_pos rfl, Except.bind_eq_ok, ensure_cons,
      Option.bind_eq_some_iff]
    refine exists_congr fun u => ?_
    rw [makeDir_eq_ok, hcomp, mkdirP_concat hpre hc hwalk]
    refine and_congr_right fun hu => ?_
    obtain ⟨henter, hready'⟩ := hready.step hc hu
    have hwalk' : u.walk start (pre ++ [component s]) =
        .ok ((names [component s]).reverse ++ p) :=
      (walk_concat ((extends_ensure hu).walk hpre hwalk) _).trans henter
    exact ih hr hnext hpre' hwalk' hready'

theorem createDirRecursive_eq_ok {cwd : List Bytes} {dir : Bytes} (hlen : dir.length < PATH_MAX)
    (hcs : NoDots (components dir)) (hs : t.node (startOf cwd dir) ≠ none)
    (hmissing : t.walk (startOf cwd dir) (components dir) = .error .ENOENT) :
    createDirRecursive cwd dir t = .ok t' ↔
      t.ensure (startOf cwd dir) (names (components dir)) = some t' := by
  unfold createDirRecursive startOf at *
  rw [if_neg (Nat.not_le.mpr hlen)]
  by_cases habs : dir.head? = some slash
  · rw [if_pos habs] at hs hmissing ⊢
    rw [if_pos habs]
    obtain ⟨rest, rfl⟩ := List.head?_eq_some_iff.mp habs
    have hcomp : ∀ s, components ([slash] ++ s) = [.skip] ++ components s :=
      fun s => components_append [] s
    have hroot : t.enter [] .skip = .ok [] := enter_skip_eq_ok.mpr ⟨t.root, rfl⟩
    rw [show slash :: rest = [slash] ++ rest from rfl, hcomp] at hcs hmissing ⊢
    rw [List.singleton_append, walk_cons, hroot] at hmissing
    exact createLoop_eq_ok (List.forall_mem_cons.mp hcs).2 hcomp (by simp [NoDots])
      ((walk_singleton _).trans hroot) (.inr ⟨hs, hmissing⟩)
  · rw [if_neg habs] at hs hmissing ⊢
    rw [if_neg habs]
    have hnone : ∀ s, components ([] ++ s) = [] ++ components s := fun _ => rfl
    exact createLoop_eq_ok hcs hnone (by simp [NoDots]) rfl (.inr ⟨hs, hmissing⟩)

/-! ## The directory of a path -/

theorem dirPath_append {L : Bytes} (hL : slash ∉ L) (d : Bytes) :
    dirPath (d ++ slash :: L) = some (if d = [] then [slash] else d) := by
  have hdrop : (d ++ slash :: L).rdropWhile (· ≠ slash) = d ++ [slash] := by
    have hrev : ∀ c ∈ L.reverse, decide (c ≠ slash) = true := by
      intro c hc
      exact decide_eq_true fun h => hL (h ▸ List.mem_reverse.mp hc)
    rw [List.rdropWhile, List.reverse_append, List.reverse_cons, List.append_assoc,
      List.dropWhile_append_of_pos hrev, List.singleton_append,
      List.dropWhile_cons_of_neg (by simp), List.reverse_cons, List.reverse_reverse]
  unfold dirPath
  rw [hdrop]
  cases d with
  | nil => rfl
  | cons b bs =>
    cases bs with
    | nil => rfl
    | cons c cs =>
      show some ((b :: c :: cs ++ [slash]).dropLast) = some (b :: c :: cs)
      rw [List.dropLast_concat]

/-- The directory as a text leads where the path does before its last name. -/
structure DirOf (cwd : List Bytes) (path : Bytes) (cs : List (Component Bytes)) (dir : Bytes) :
    Prop where
  dirPath : dirPath path = some dir
  start : startOf cwd dir = startOf cwd path
  length : dir.length ≤ path.length
  noDots : NoDots (components dir)
  names : names (components dir) = names cs
  walk : ∀ t : DirTree Bytes, t.walk (startOf cwd path) (components dir) =
    t.walk (startOf cwd path) cs

theorem exists_last_slash {path : Bytes} (h : slash ∈ path) :
    ∃ d L, path = d ++ slash :: L ∧ slash ∉ L := by
  obtain ⟨L, d, hrev, hL⟩ := List.eq_append_cons_of_mem (List.mem_reverse.mpr h)
  refine ⟨d.reverse, L.reverse, ?_, fun hmem => hL (List.mem_reverse.mp hmem)⟩
  rw [← List.reverse_reverse path, hrev]
  simp

theorem exists_dirOf (cwd : List Bytes) {d L : Bytes} (hL : slash ∉ L)
    (hcs : NoDots (components d)) : ∃ dir, DirOf cwd (d ++ slash :: L) (components d) dir := by
  have hdir := dirPath_append hL d
  by_cases hnil : d = []
  · -- the root, which the path names once and `dir_path` twice
    subst hnil
    have hroot : ∀ t : DirTree Bytes, t.enter [] .skip = .ok [] :=
      fun t => enter_skip_eq_ok.mpr ⟨t.root, rfl⟩
    refine ⟨[slash], hdir, rfl, by simp, ?_, rfl, fun t => ?_⟩
    · exact (components_append [] []).symm ▸ List.forall_mem_append.mpr ⟨hcs, hcs⟩
    · show t.walk [] ([.skip] ++ [.skip]) = t.walk [] [.skip]
      rw [walk_concat ((walk_singleton _).trans (hroot t)), walk_singleton]
  · rw [if_neg hnil] at hdir
    have hstart : startOf cwd d = startOf cwd (d ++ slash :: L) := by
      obtain ⟨b, bs, rfl⟩ := List.exists_cons_of_ne_nil hnil
      rfl
    exact ⟨d, hdir, hstart, by simp, hcs, rfl, fun t => rfl⟩

theorem dirPath_cases (cwd : List Bytes) {path : Bytes} {cs : List (Component Bytes)} {n : Bytes}
    (hcs : NoDots cs) (hlast : components path = cs ++ [.name n]) :
    (dirPath path = none ∧ cs = [] ∧ startOf cwd path = cwd) ∨ ∃ dir, DirOf cwd path cs dir := by
  by_cases hs : slash ∈ path
  · right
    obtain ⟨d, L, rfl, hL⟩ := exists_last_slash hs
    rw [components_append, components_of_notMem hL] at hlast
    obtain ⟨rfl, -⟩ := List.append_inj' hlast rfl
    exact exists_dirOf cwd hL hcs
  · left
    rw [components_of_notMem hs] at hlast
    have hlast' : [] ++ [component path] = cs ++ [.name n] := hlast
    obtain ⟨hnil, -⟩ := List.append_inj' hlast' rfl
    have hdrop : path.rdropWhile (· ≠ slash) = [] := by
      rw [List.rdropWhile_eq_nil_iff]
      intro c hc
      exact decide_eq_true fun h => hs (h ▸ hc)
    refine ⟨by rw [dirPath, hdrop], hnil.symm, ?_⟩
    rw [startOf, if_neg]
    intro h
    exact hs (List.mem_of_mem_head? h)

/-! ## What comes of a log -/

theorem checkAccess_eq_ok {path context : Bytes} {w : Bool}
    (h : t.stat start (components path) = .ok (.dir true w)) :
    checkAccess start path context t = .ok t' ↔ w = true ∧ t' = t := by
  rw [checkAccess, h]
  cases w <;> simp [mayWriteExec, eq_comm]

theorem openLog_eq_ok_iff {cwd : List Bytes} {name path : Bytes} :
    openLog cwd name path t = .ok t' ↔ ∃ u, validatePath cwd path t = .ok u ∧
      u.openCreat (startOf cwd path) (components path) = .ok t' := by
  rw [openLog, Except.bind_eq_ok]
  refine exists_congr fun u => and_congr_right fun _ => ?_
  cases u.openCreat (startOf cwd path) (components path) <;> simp

section

variable {cwd p : List Bytes} {path n : Bytes} {cs : List (Component Bytes)}

theorem ne_nil_of_components (hlast : components path = cs ++ [.name n]) : path ≠ [] := by
  rintro rfl
  have hlast' : [] ++ [.skip] = cs ++ [.name n] := hlast
  obtain ⟨-, hskip⟩ := List.append_inj' hlast' rfl
  cases hskip

/-- The file cannot be looked for. -/
theorem validatePath_blocked {e : PathError} (hpath : path ≠ [])
    (hstat : t.stat (startOf cwd path) (components path) = .error e) (he : e ≠ .ENOENT) :
    validatePath cwd path t ≠ .ok t' := by
  rw [validatePath, if_neg hpath, hstat]
  cases e with
  | ENOENT => exact absurd rfl he
  | _ => exact fun h => nomatch h

/-- There is something in the place of the file. -/
theorem validatePath_found {x : Node} (hpath : path ≠ [])
    (hstat : t.stat (startOf cwd path) (components path) = .ok x) :
    validatePath cwd path t = .ok t' ↔ (∃ e, x = .file true true e) ∧ t' = t := by
  rw [validatePath, if_neg hpath, hstat]
  cases x with
  | dir s w => exact iff_of_false (fun h => nomatch h) fun h => nomatch h.1
  | file r w e => cases r <;> cases w <;> simp [Node.isDir, mayReadWrite, eq_comm]

/-- The directory is there, and the file is not. -/
theorem validatePath_noFile (hcs : NoDots cs) (hlast : components path = cs ++ [.name n])
    (hlen : path.length < PATH_MAX) (hwalk : t.walk (startOf cwd path) cs = .ok p) {w : Bool}
    (hp : t.node p = some (.dir true w)) (hn : t.node (n :: p) = none) :
    validatePath cwd path t = .ok t' ↔ w = true ∧ t' = t := by
  have hsearch : t.search p = .ok () := search_eq_ok.mpr ⟨w, hp⟩
  have hstat : t.stat (startOf cwd path) (components path) = .error .ENOENT := by
    rw [hlast, stat_name hwalk, hsearch, hn]
    rfl
  rw [validatePath, if_neg (ne_nil_of_components hlast), hstat]
  dsimp only
  rw [if_neg (Nat.not_le.mpr hlen)]
  rcases dirPath_cases cwd hcs hlast with ⟨hnone, rfl, hstart⟩ | ⟨dir, hdir⟩
  · rw [hstart] at hwalk
    obtain rfl : cwd = p := Except.ok.inj hwalk
    have hdot : t.walk cwd (components (lit ".")) = .ok cwd := by
      rw [show components (lit ".") = [.self] by decide, walk_singleton, enter, hsearch]
      rfl
    rw [hnone]
    exact checkAccess_eq_ok (stat_eq_ok.mpr ⟨cwd, hdot, hp⟩)
  · have hfound : t.stat (startOf cwd path) (components dir) = .ok (.dir true w) :=
      stat_eq_ok.mpr ⟨p, (hdir.walk t).trans hwalk, hp⟩
    rw [hdir.dirPath]
    dsimp only
    rw [hfound]
    exact checkAccess_eq_ok hfound

/-- The directory is not there. -/
theorem validatePath_missing (hcs : NoDots cs) (hlast : components path = cs ++ [.name n])
    (hlen : path.length < PATH_MAX) (hstart : t.node (startOf cwd path) ≠ none)
    (hmissing : t.walk (startOf cwd path) cs = .error .ENOENT) :
    validatePath cwd path t = .ok t' ↔ t.ensure (startOf cwd path) (names cs) = some t' := by
  have hstat : t.stat (startOf cwd path) (components path) = .error .ENOENT := by
    rw [hlast]
    exact stat_of_error (by rw [walk_append, hmissing]; rfl)
  obtain ⟨-, rfl, -⟩ | ⟨dir, hdir⟩ := dirPath_cases cwd hcs hlast
  · cases hmissing
  have hdirMissing := (hdir.walk t).trans hmissing
  have hready : t.Ready (startOf cwd path) cs := .inr ⟨hstart, hmissing⟩
  have hmade : ∀ u, createDirRecursive cwd dir t = .ok u ↔
      t.ensure (startOf cwd path) (names cs) = some u := by
    intro u
    rw [createDirRecursive_eq_ok (lt_of_le_of_lt hdir.length hlen) hdir.noDots
      (hdir.start ▸ hstart) (hdir.start ▸ hdirMissing), hdir.start, hdir.names]
  have hfound : ∀ u, t.ensure (startOf cwd path) (names cs) = some u →
      u.stat (startOf cwd path) (components dir) = .ok (.dir true true) := by
    intro u hu
    obtain ⟨p, hp, hempty⟩ := hready.ensure hcs hu
    exact stat_eq_ok.mpr ⟨p, (hdir.walk u).trans hp, hempty.node⟩
  rw [validatePath, if_neg (ne_nil_of_components hlast), hstat]
  dsimp only
  rw [if_neg (Nat.not_le.mpr hlen), hdir.dirPath]
  dsimp only
  rw [stat_of_error hdirMissing]
  dsimp only
  rw [Except.bind_eq_ok]
  constructor
  · rintro ⟨u, hu, hcheck⟩
    have hensure := (hmade u).mp hu
    obtain ⟨-, rfl⟩ := (checkAccess_eq_ok (hfound u hensure)).mp hcheck
    exact hensure
  · intro hu
    exact ⟨t', (hmade t').mpr hu, (checkAccess_eq_ok (hfound t' hu)).mpr ⟨rfl, rfl⟩⟩

/-- There is something in the place of the file. -/
theorem openLog_found (name : Bytes) (hcs : NoDots cs) (hlast : components path = cs ++ [.name n])
    (hwalk : t.walk (startOf cwd path) cs = .ok p) {w : Bool} (hp : t.node p = some (.dir true w))
    {x : Node} (hn : t.node (n :: p) = some x) :
    openLog cwd name path t = .ok t' ↔
      t.ensureFile (startOf cwd path) (names cs) n = some t' := by
  have hstat : t.stat (startOf cwd path) (components path) = .ok x := by
    rw [hlast, stat_name hwalk, search_eq_ok.mpr ⟨w, hp⟩, hn]
    rfl
  have hvalid : ∀ u, validatePath cwd path t = .ok u ↔ (∃ e, x = .file true true e) ∧ u = t :=
    fun u => validatePath_found (ne_nil_of_components hlast) hstat
  rw [openLog_eq_ok_iff, ensureFile_of_walk hcs hwalk, entry_of_found hp hn]
  constructor
  · rintro ⟨u, hu, hcreat⟩
    obtain ⟨⟨e, rfl⟩, rfl⟩ := (hvalid u).mp hu
    rw [hlast] at hcreat
    obtain ⟨-, rfl⟩ | ⟨hnone, -⟩ := (openCreat_name hwalk hp).mp hcreat
    · exact ⟨rfl, e, hn⟩
    · exact nomatch hn.symm.trans hnone
  · rintro ⟨hu, e, he⟩
    obtain rfl := Option.some.inj hu
    obtain rfl := Option.some.inj (hn.symm.trans he)
    refine ⟨t, (hvalid t).mpr ⟨⟨e, rfl⟩, rfl⟩, ?_⟩
    rw [hlast]
    exact (openCreat_name hwalk hp).mpr (.inl ⟨⟨true, e, hn⟩, rfl⟩)

/-- Only the file has to be made. -/
theorem openLog_noFile (name : Bytes) (hcs : NoDots cs) (hlast : components path = cs ++ [.name n])
    (hlen : path.length < PATH_MAX) (hwalk : t.walk (startOf cwd path) cs = .ok p) {w : Bool}
    (hp : t.node p = some (.dir true w)) (hn : t.node (n :: p) = none) :
    openLog cwd name path t = .ok t' ↔
      t.ensureFile (startOf cwd path) (names cs) n = some t' := by
  have hvalid : ∀ u, validatePath cwd path t = .ok u ↔ w = true ∧ u = t :=
    fun u => validatePath_noFile hcs hlast hlen hwalk hp hn
  rw [openLog_eq_ok_iff, ensureFile_of_walk hcs hwalk, entry_of_missing hp hn]
  constructor
  · rintro ⟨u, hu, hcreat⟩
    obtain ⟨hw, rfl⟩ := (hvalid u).mp hu
    rw [hlast] at hcreat
    obtain ⟨⟨r, e, hsome⟩, -⟩ | ⟨-, -, rfl⟩ := (openCreat_name hwalk hp).mp hcreat
    · exact nomatch hn.symm.trans hsome
    · refine ⟨⟨hw, rfl⟩, false, ?_⟩
      rw [node_add (by simp [hp, Node.isDir]) hn, if_pos rfl]
  · rintro ⟨⟨hw, rfl⟩, -⟩
    refine ⟨t, (hvalid t).mpr ⟨hw, rfl⟩, ?_⟩
    rw [hlast]
    exact (openCreat_name hwalk hp).mpr (.inr ⟨hn, hw, rfl⟩)

/-- The directory is there, if it is one. -/
theorem openLog_of_walk (name : Bytes) (hcs : NoDots cs)
    (hlast : components path = cs ++ [.name n]) (hlen : path.length < PATH_MAX)
    (hstart : t.node (startOf cwd path) ≠ none) (hwalk : t.walk (startOf cwd path) cs = .ok p) :
    openLog cwd name path t = .ok t' ↔
      t.ensureFile (startOf cwd path) (names cs) n = some t' := by
  cases hsearch : t.search p with
  | error e =>
    have hblocked : t.search p ≠ .ok () := by simp [hsearch]
    have hstat : t.stat (startOf cwd path) (components path) = .error e := by
      rw [hlast, stat_name hwalk, hsearch]
      rfl
    have he : e ≠ .ENOENT := by
      rintro rfl
      exact search_ne_missing (node_of_walk hcs hstart hwalk) hsearch
    rw [openLog_eq_ok_iff, ensureFile_of_walk hcs hwalk, entry_of_blocked hblocked]
    refine iff_of_false ?_ fun h => nomatch h.1
    rintro ⟨u, hu, -⟩
    exact validatePath_blocked (ne_nil_of_components hlast) hstat he hu
  | ok _ =>
    obtain ⟨w, hp⟩ := search_eq_ok.mp hsearch
    cases hn : t.node (n :: p) with
    | some x => exact openLog_found name hcs hlast hwalk hp hn
    | none => exact openLog_noFile name hcs hlast hlen hwalk hp hn

/-- The directory has to be made. -/
theorem openLog_of_missing (name : Bytes) (hcs : NoDots cs)
    (hlast : components path = cs ++ [.name n]) (hlen : path.length < PATH_MAX)
    (hstart : t.node (startOf cwd path) ≠ none)
    (hmissing : t.walk (startOf cwd path) cs = .error .ENOENT) :
    openLog cwd name path t = .ok t' ↔
      t.ensureFile (startOf cwd path) (names cs) n = some t' := by
  have hready : t.Ready (startOf cwd path) cs := .inr ⟨hstart, hmissing⟩
  have hvalid : ∀ u, validatePath cwd path t = .ok u ↔
      t.ensure (startOf cwd path) (names cs) = some u :=
    fun u => validatePath_missing hcs hlast hlen hstart hmissing
  rw [openLog_eq_ok_iff, ensureFile_eq_some]
  constructor
  · rintro ⟨u, hu, hcreat⟩
    obtain ⟨p, hp, hempty⟩ := hready.ensure hcs ((hvalid u).mp hu)
    rw [hlast] at hcreat
    rw [← place_of_walk hcs hp]
    obtain ⟨⟨r, e, hsome⟩, -⟩ | ⟨hn, -, rfl⟩ := (openCreat_name hp hempty.node).mp hcreat
    · exact nomatch hsome.symm.trans (hempty.empty n)
    · have hmade := (hvalid u).mp hu
      refine ⟨⟨u, hmade, (entry_of_missing hempty.node hn).mpr ⟨rfl, rfl⟩⟩, false, ?_⟩
      rw [node_add (by simp [hempty.node, Node.isDir]) hn, if_pos rfl]
  · rintro ⟨⟨u, hu, hentry⟩, -⟩
    obtain ⟨p, hp, hempty⟩ := hready.ensure hcs hu
    rw [← place_of_walk hcs hp] at hentry
    obtain ⟨-, rfl⟩ := (entry_of_missing hempty.node (hempty.empty n)).mp hentry
    refine ⟨u, (hvalid u).mpr hu, ?_⟩
    rw [hlast]
    exact (openCreat_name hp hempty.node).mpr (.inr ⟨hempty.empty n, rfl, rfl⟩)

/-- Something else is in the way. -/
theorem openLog_of_error {e : PathError} (name : Bytes) (hcs : NoDots cs)
    (hlast : components path = cs ++ [.name n]) (hstart : t.node (startOf cwd path) ≠ none)
    (herror : t.walk (startOf cwd path) cs = .error e) (he : e ≠ .ENOENT) :
    openLog cwd name path t = .ok t' ↔
      t.ensureFile (startOf cwd path) (names cs) n = some t' := by
  have hstat : t.stat (startOf cwd path) (components path) = .error e := by
    rw [hlast]
    exact stat_of_error (by rw [walk_append, herror]; rfl)
  rw [ensureFile_of_error hcs hstart herror he, openLog_eq_ok_iff]
  refine iff_of_false ?_ (fun h => nomatch h)
  rintro ⟨u, hu, -⟩
  exact validatePath_blocked (ne_nil_of_components hlast) hstat he hu

/-- **A log is opened if and only if** its file, with the directories on the way to it, is there
or can be made. Then nothing that was there has changed, and nothing else is new. -/
theorem openLog_eq_ok (name : Bytes) (hcs : NoDots cs) (hlast : components path = cs ++ [.name n])
    (hlen : path.length < PATH_MAX) (hstart : t.node (startOf cwd path) ≠ none) :
    (openLog cwd name path t = .ok t' ↔
      t.ensureFile (startOf cwd path) (names cs) n = some t') ∧
    (openLog cwd name path t = .ok t' → t.Extends t' ∧ ∀ q, t'.node q = t.node q ∨
      (q <:+ (names cs).reverse ++ startOf cwd path ∧ t'.node q = some (.dir true true)) ∨
      (q = n :: ((names cs).reverse ++ startOf cwd path) ∧
        t'.node q = some (.file true true false))) := by
  have hiff : openLog cwd name path t = .ok t' ↔
      t.ensureFile (startOf cwd path) (names cs) n = some t' := by
    cases hwalk : t.walk (startOf cwd path) cs with
    | ok p => exact openLog_of_walk name hcs hlast hlen hstart hwalk
    | error e =>
      by_cases he : e = .ENOENT
      · subst he
        exact openLog_of_missing name hcs hlast hlen hstart hwalk
      · exact openLog_of_error name hcs hlast hstart hwalk he
  exact ⟨hiff, fun h => ⟨extends_ensureFile (hiff.mp h), fun q => node_ensureFile (hiff.mp h)⟩⟩

/-- Nothing but the root. -/
def freshSystem : DirTree Bytes where
  node p := if p = [] then some (.dir true true) else none
  root := rfl
  parent := by
    intro n p hp
    rw [if_neg (List.cons_ne_nil n p)] at hp
    exact absurd rfl hp

def eventLogPath : Bytes := lit "/var/log/celeritas/event_log"

def eventLogDirs : List Bytes := [lit "celeritas", lit "log", lit "var"]

theorem openLog_eq_ok_freshSystem : ∃ t',
    openLog [] (lit "event log") eventLogPath freshSystem = .ok t' ∧
      freshSystem.Extends t' ∧ ∀ q, t'.node q = freshSystem.node q ∨
        (q <:+ eventLogDirs ∧ t'.node q = some (.dir true true)) ∨
        (q = lit "event_log" :: eventLogDirs ∧ t'.node q = some (.file true true false)) := by
  have hmade :
      (freshSystem.ensureFile [] eventLogDirs.reverse (lit "event_log")).isSome = true := by decide
  obtain ⟨t', ht'⟩ := Option.isSome_iff_exists.mp hmade
  have hcs : NoDots (.skip :: eventLogDirs.reverse.map Component.name) := by
    simp [NoDots, eventLogDirs]
  have hlast : components eventLogPath = .skip :: eventLogDirs.reverse.map Component.name ++
      [.name (lit "event_log")] := by decide
  have hlen : eventLogPath.length < PATH_MAX := by decide
  have hstart : freshSystem.node (startOf [] eventLogPath) ≠ none := by decide
  have hopen : openLog [] (lit "event log") eventLogPath freshSystem = .ok t' :=
    (openLog_eq_ok (lit "event log") hcs hlast hlen hstart).1.mpr ht'
  exact ⟨t', hopen, (openLog_eq_ok _ hcs hlast hlen hstart).2 hopen⟩

end

end Celeritas
