import Celeritas.Config.Documented
import Celeritas.Config.Settings
import Celeritas.Http.DocRoot

/-!
# The paths of the configuration

The last character of two configured strings is looked at: of `lock_file_path` when the file
has been read, and of `doc_root` in every request. The index is the length less one, in a
type that has no negative numbers, so the empty string is indexed far outside of its array;
and an empty value is accepted (`indexesCharacters_iff`).

What is done with the last character of `lock_file_path` is the opposite of what the comment
there says. `main` puts the result in front of the name of its pid file, which is therefore
never the one that was configured (`lockfile_misnamed`).
-/

set_option autoImplicit false

namespace Celeritas

open CLib

/-! ## The last character -/

/-- `resolve_path`, with no result where it indexes something else than a character of a
string. -/
def resolvePathIn (docRoot uri : Bytes) : Option Bytes :=
  (lastChar docRoot).bind fun c =>
    let rootHasSlash := c = charByte '/'
    let uriHasSlash := uri.head? = some (charByte '/')
    let path := snprintfStored PATH_MAX <|
      if rootHasSlash ∧ uriHasSlash then docRoot ++ uri.tail
      else if ¬ rootHasSlash ∧ ¬ uriHasSlash then docRoot ++ lit "/" ++ uri
      else docRoot ++ uri
    (lastChar path).map fun d =>
      if d = charByte '/' then path ++ (lit "index.html").take (PATH_MAX - path.length - 1)
      else path

/-- **The joined path has a last character**, so that only the root can be indexed outside. -/
theorem resolvePathIn_eq {docRoot : Bytes} (h : docRoot.length ≤ PATH_MAX) (uri : Bytes) :
    resolvePathIn docRoot uri = if docRoot = [] then none else some (resolvePath docRoot uri) := by
  have hmax : PATH_MAX = 4096 := rfl
  rw [resolvePathIn, lastChar_eq (by omega)]
  by_cases hnil : docRoot = []
  · rw [if_pos hnil, hnil]
    rfl
  rw [if_neg hnil, resolvePath, List.getLast?_eq_some_getLast hnil, Option.bind_some]
  simp only [Option.some.injEq]
  generalize htext : (if docRoot.getLast hnil = charByte '/' ∧ uri.head? = some (charByte '/') then
      docRoot ++ uri.tail
    else if ¬ docRoot.getLast hnil = charByte '/' ∧ ¬ uri.head? = some (charByte '/') then
      docRoot ++ lit "/" ++ uri
    else docRoot ++ uri) = text
  have hpre : docRoot <+: text := by
    rw [← htext]
    split_ifs
    · exact List.prefix_append _ _
    · rw [List.append_assoc]
      exact List.prefix_append _ _
    · exact List.prefix_append _ _
  -- what is stored of it: not nothing, and not more than fits
  have hlen : (snprintfStored PATH_MAX text).length < 2 ^ 64 := by
    rw [snprintfStored, List.length_take]
    omega
  have hne : snprintfStored PATH_MAX text ≠ [] := by
    rw [snprintfStored, ne_eq, List.take_eq_nil_iff, not_or]
    refine ⟨by omega, ?_⟩
    rintro rfl
    exact hnil (List.prefix_nil.mp hpre)
  rw [lastChar_eq hlen, List.getLast?_eq_some_getLast hne, Option.map_some]
  simp only [Option.some.injEq]

/-! ## What an accepted file gives -/

section Accepted

variable {content : Bytes} (hacc : Accepted content)
include hacc

/-- A string is the last value of the file, or what was there. -/
theorem current_readConf (conf : ConfigData) (f : StringField) :
    (readConf content conf).current (.string f) =
      ((lastValue (.string f) (fgetsAll lineSize lineSize content)).map (.string f)).getD
        (conf.current (.string f)) := by
  rw [readConf, ConfigData.current_foldl_assign, lastFor_assignments hacc]

theorem lockFilePath_readConf (conf : ConfigData) : (readConf content conf).lockFilePath =
    (lastValue (.string .lockFilePath) (fgetsAll lineSize lineSize content)).getD
      conf.lockFilePath := by
  have h := current_readConf hacc conf .lockFilePath
  cases hv : lastValue (.string .lockFilePath) (fgetsAll lineSize lineSize content) <;>
  · rw [hv] at h
    exact (Assignment.string.inj h).2

theorem docRoot_parsedConf (conf : ConfigData) : (parsedConf content conf).docRoot =
    (lastValue (.string .docRoot) (fgetsAll lineSize lineSize content)).getD conf.docRoot := by
  have h := current_readConf hacc conf .docRoot
  cases hv : lastValue (.string .docRoot) (fgetsAll lineSize lineSize content) <;>
  · rw [hv] at h
    exact (Assignment.string.inj h).2

/-- The default of `lock_file_path` is not empty, so only the file can be to blame. -/
theorem stripLockPathIn_eq_none (ncpu : ℤ) (cd : ConfigData) :
    stripLockPathIn (readConf content (loadConfigDefaults ncpu cd)).lockFilePath = none ↔
      lastValue (.string .lockFilePath) (fgetsAll lineSize lineSize content) = some [] := by
  have hfits : (readConf content (loadConfigDefaults ncpu cd)).lockFilePath.length < PATH_MAX :=
    readConf_fits content ncpu cd (.string .lockFilePath)
  have hdefault : (loadConfigDefaults ncpu cd).lockFilePath ≠ [] := by
    show strncpy (lit "/var/run/") PATH_MAX ≠ []
    decide
  rw [stripLockPathIn_eq hfits, lockFilePath_readConf hacc]
  cases lastValue (.string .lockFilePath) (fgetsAll lineSize lineSize content) with
  | none => simp [hdefault]
  | some v => simp

/-- The same for `doc_root`, through the copy that `handle_get_head` makes. -/
theorem resolvePathIn_eq_none (ncpu : ℤ) (cd : ConfigData) (uri : Bytes) :
    resolvePathIn (strncpy (parsedConf content (loadConfigDefaults ncpu cd)).docRoot PATH_MAX) uri =
        none ↔
      lastValue (.string .docRoot) (fgetsAll lineSize lineSize content) = some [] := by
  have hle : ∀ d : Bytes, (strncpy d PATH_MAX).length ≤ PATH_MAX := fun d => List.length_take_le _ _
  have hdefault : strncpy (loadConfigDefaults ncpu cd).docRoot PATH_MAX ≠ [] := by
    show strncpy (strncpy (lit "/var/www/html") PATH_MAX) PATH_MAX ≠ []
    decide
  rw [docRoot_parsedConf hacc, resolvePathIn_eq (hle _)]
  cases hv : lastValue (.string .docRoot) (fgetsAll lineSize lineSize content) with
  | none => simp [hdefault]
  | some v =>
    have hmax : PATH_MAX ≠ 0 := by decide
    simp [strncpy, cstr_eq_self (zero_not_mem_lastValue hv), List.take_eq_nil_iff, hmax]

end Accepted

/-! ## Empty values -/

/-- What the server indexes are characters of its strings: of what the loop has read, and of
the configuration `c` it comes to, whatever is requested. -/
structure IndexesCharacters (read c : ConfigData) : Prop where
  lockFilePath : (stripLockPathIn read.lockFilePath).isSome
  resolvePath : ∀ uri, (resolvePathIn (strncpy c.docRoot PATH_MAX) uri).isSome

/-- **No string is indexed outside if and only if** the last values the file gives to
`lock_file_path` and `doc_root`, where it gives any, are not empty. -/
theorem indexesCharacters_iff {ncpu : ℤ} {path content : Bytes} {c : ConfigData}
    (hc : initConfig ncpu path (.ok content) = .ok c) :
    IndexesCharacters (readConf content (loadConfigDefaults ncpu .zeroed)) c ↔
      lastValue (.string .lockFilePath) (fgetsAll lineSize lineSize content) ≠ some [] ∧
        lastValue (.string .docRoot) (fgetsAll lineSize lineSize content) ≠ some [] := by
  obtain ⟨hacc, rfl⟩ := initConfig_eq_ok.mp hc
  have hlock := stripLockPathIn_eq_none hacc ncpu .zeroed
  have hroot := resolvePathIn_eq_none hacc ncpu .zeroed
  constructor
  · rintro ⟨hl, hr⟩
    refine ⟨?_, ?_⟩
    · intro h
      exact Option.isSome_iff_ne_none.mp hl (hlock.mpr h)
    · intro h
      exact Option.isSome_iff_ne_none.mp (hr []) ((hroot []).mpr h)
  · rintro ⟨hl, hr⟩
    refine ⟨?_, ?_⟩
    · exact Option.isSome_iff_ne_none.mpr fun h => hl (hlock.mp h)
    · intro uri
      exact Option.isSome_iff_ne_none.mpr fun h => hr ((hroot uri).mp h)

def homeFile : Bytes := lit "doc_root =\ndoc_root = /home\n"

theorem indexesCharacters_homeFile : ∃ c, initConfig 4 [] (.ok homeFile) = .ok c ∧
    IndexesCharacters (readConf homeFile (loadConfigDefaults 4 .zeroed)) c := by
  have hok : initConfig 4 [] (.ok homeFile) =
      .ok (parsedConf homeFile (loadConfigDefaults 4 .zeroed)) :=
    initConfig_eq_ok.mpr ⟨by decide +kernel, rfl⟩
  exact ⟨_, hok, (indexesCharacters_iff hok).mpr (by decide +kernel)⟩

def emptyLockPath : Bytes := lit "lock_file_path =\n"

def emptyDocRoot : Bytes := lit "doc_root =\n"

/-- Both files are accepted. -/
theorem empty_paths_indexed :
    (∃ c, initConfig 4 [] (.ok emptyLockPath) = .ok c ∧
      stripLockPathIn (readConf emptyLockPath (loadConfigDefaults 4 .zeroed)).lockFilePath = none ∧
      ¬ IndexesCharacters (readConf emptyLockPath (loadConfigDefaults 4 .zeroed)) c) ∧
    ∃ c, initConfig 4 [] (.ok emptyDocRoot) = .ok c ∧
      resolvePathIn (strncpy c.docRoot PATH_MAX) (lit "/") = none ∧
      ¬ IndexesCharacters (readConf emptyDocRoot (loadConfigDefaults 4 .zeroed)) c := by
  have hlock : stripLockPathIn
      (readConf emptyLockPath (loadConfigDefaults 4 .zeroed)).lockFilePath = none := by
    decide +kernel
  have hroot : resolvePathIn (strncpy
      (parsedConf emptyDocRoot (loadConfigDefaults 4 .zeroed)).docRoot PATH_MAX) (lit "/") =
      none := by decide +kernel
  constructor
  · refine ⟨_, initConfig_eq_ok.mpr ⟨by decide +kernel, rfl⟩, hlock, ?_⟩
    intro h
    exact Option.isSome_iff_ne_none.mp h.lockFilePath hlock
  · refine ⟨_, initConfig_eq_ok.mpr ⟨by decide +kernel, rfl⟩, hroot, ?_⟩
    intro h
    exact Option.isSome_iff_ne_none.mp (h.resolvePath _) hroot

/-! ## The pid file -/

/-- `cmd`: what follows the last slash of `argv[0]`. -/
def programName (argv0 : Bytes) : Bytes := argv0.rtakeWhile (· != charByte '/')

/-- `lockfile` in `main`; without a result `main` exits with "lockfile path truncated". -/
def lockfile (conf : ConfigData) (argv0 : Bytes) : Option Bytes :=
  let text := conf.lockFilePath ++ lit "/" ++ programName argv0 ++ lit ".pid"
  let bytes := snprintfRet text
  if bytes < 0 ∨ bytes ≥ PATH_MAX then none else some (snprintfStored PATH_MAX text)

/-- The file of that name in the directory `dir`. -/
def pidFile (dir argv0 : Bytes) : Bytes :=
  withoutSlash dir ++ lit "/" ++ programName argv0 ++ lit ".pid"

/-- What is not cut off is the whole text. -/
theorem lockfile_eq_some {conf : ConfigData} {argv0 path : Bytes}
    (h : lockfile conf argv0 = some path) :
    path = conf.lockFilePath ++ lit "/" ++ programName argv0 ++ lit ".pid" := by
  unfold lockfile at h
  dsimp only at h
  split_ifs at h with hfit
  obtain rfl := Option.some.inj h
  generalize conf.lockFilePath ++ lit "/" ++ programName argv0 ++ lit ".pid" = text at hfit ⊢
  have hmax : PATH_MAX = 4096 := rfl
  rw [not_or, not_lt, snprintfRet] at hfit
  apply List.take_of_length_le
  split_ifs at hfit <;> omega

/-- Paths of different lengths are different. -/
theorem lockfile_ne_some {conf : ConfigData} {dir : Bytes} (argv0 : Bytes)
    (h : conf.lockFilePath.length ≠ dir.length) :
    lockfile conf argv0 ≠ some (dir ++ lit "/" ++ programName argv0 ++ lit ".pid") := by
  intro heq
  have htext := congrArg List.length (lockfile_eq_some heq)
  simp only [List.length_append] at htext
  omega

/-- A slash stays, and another last character goes: neither leaves what is without a slash at
its end, and a slash more is never taken away. -/
theorem length_stripLockPath {dir : Bytes} (hne : dir ≠ []) :
    (stripLockPath dir).length ≠ (withoutSlash dir).length ∧
      (stripLockPath dir).length < (stripLockPath (dir ++ [charByte '/'])).length := by
  have hpos := List.length_pos_iff.mpr hne
  have hslash : stripLockPath (dir ++ [charByte '/']) = dir ++ [charByte '/'] := by
    simp [stripLockPath]
  rw [hslash, List.length_append, List.length_singleton, stripLockPath, withoutSlash,
    List.getLast?_eq_some_getLast hne]
  by_cases hc : dir.getLast hne = charByte '/'
  · simp only [hc, ne_eq, not_true_eq_false, if_false, if_true, List.length_dropLast]
    omega
  · simp only [hc, ne_eq, not_false_eq_true, if_true, Option.some.injEq, if_false,
      List.length_dropLast]
    omega

/-- The directory in front of the name. -/
theorem lockFilePath_of_lastValue {ncpu : ℤ} {path content dir : Bytes} {c : ConfigData}
    (hc : initConfig ncpu path (.ok content) = .ok c)
    (hdir : lastValue (.string .lockFilePath) (fgetsAll lineSize lineSize content) = some dir) :
    c.lockFilePath = stripLockPath dir := by
  obtain ⟨hacc, rfl⟩ := initConfig_eq_ok.mp hc
  have hread := lockFilePath_readConf hacc (loadConfigDefaults ncpu .zeroed)
  rw [hdir] at hread
  exact congrArg stripLockPath hread

/-- **The pid file never has the name that was configured**, and a slash at the end of the
directory always makes a difference where a name comes about at all. -/
theorem lockfile_misnamed {ncpu : ℤ} {path content dir : Bytes} {c : ConfigData}
    (hc : initConfig ncpu path (.ok content) = .ok c)
    (hdir : lastValue (.string .lockFilePath) (fgetsAll lineSize lineSize content) = some dir)
    (hne : dir ≠ []) (argv0 : Bytes) :
    lockfile c argv0 ≠ some (pidFile dir argv0) ∧
      ∀ content' c', initConfig ncpu path (.ok content') = .ok c' →
        lastValue (.string .lockFilePath) (fgetsAll lineSize lineSize content') =
          some (dir ++ [charByte '/']) →
        lockfile c argv0 = lockfile c' argv0 → lockfile c argv0 = none := by
  obtain ⟨hlen, hslash⟩ := length_stripLockPath hne
  have hpath := lockFilePath_of_lastValue hc hdir
  refine ⟨lockfile_ne_some argv0 (hpath ▸ hlen), ?_⟩
  intro content' c' hc' hdir' hsame
  have hpath' := lockFilePath_of_lastValue hc' hdir'
  cases hlock : lockfile c argv0 with
  | none => rfl
  | some p =>
    rw [hlock] at hsame
    have hp := lockfile_eq_some hsame.symm
    refine absurd (hlock.trans (congrArg some hp)) (lockfile_ne_some argv0 ?_)
    rw [hpath, hpath']
    omega

def runDir : Bytes := lit "lock_file_path = /var/run\n"

def runDirSlash : Bytes := lit "lock_file_path = /var/run/\n"

/-- The program as it is started. -/
def celeritasArgv0 : Bytes := lit "/usr/sbin/celeritas"

theorem lockfile_misnamed_runDir : ∃ c, initConfig 4 [] (.ok runDir) = .ok c ∧
    lockfile c celeritasArgv0 ≠ some (pidFile (lit "/var/run") celeritasArgv0) := by
  have hok : initConfig 4 [] (.ok runDir) =
      .ok (parsedConf runDir (loadConfigDefaults 4 .zeroed)) :=
    initConfig_eq_ok.mpr ⟨by decide +kernel, rfl⟩
  exact ⟨_, hok, (lockfile_misnamed hok (by decide +kernel) (by decide) celeritasArgv0).1⟩

/-- Another directory, and another name for the same one. -/
theorem runDir_misnamed :
    pidFile (lit "/var/run") celeritasArgv0 = lit "/var/run/celeritas.pid" ∧
      pidFile (lit "/var/run/") celeritasArgv0 = lit "/var/run/celeritas.pid" ∧
      (∃ c, initConfig 4 [] (.ok runDir) = .ok c ∧
        lockfile c celeritasArgv0 = some (lit "/var/ru/celeritas.pid") ∧
        lockfile c celeritasArgv0 ≠ some (pidFile (lit "/var/run") celeritasArgv0)) ∧
      ∃ c, initConfig 4 [] (.ok runDirSlash) = .ok c ∧
        lockfile c celeritasArgv0 = some (lit "/var/run//celeritas.pid") ∧
        lockfile c celeritasArgv0 ≠ some (pidFile (lit "/var/run/") celeritasArgv0) := by
  have hdir : lockfile (parsedConf runDir (loadConfigDefaults 4 .zeroed)) celeritasArgv0 =
      some (lit "/var/ru/celeritas.pid") := by decide +kernel
  have hslash : lockfile (parsedConf runDirSlash (loadConfigDefaults 4 .zeroed)) celeritasArgv0 =
      some (lit "/var/run//celeritas.pid") := by decide +kernel
  refine ⟨by decide, by decide, ⟨_, initConfig_eq_ok.mpr ⟨by decide +kernel, rfl⟩, hdir, ?_⟩,
    _, initConfig_eq_ok.mpr ⟨by decide +kernel, rfl⟩, hslash, ?_⟩
  · rw [hdir]
    decide
  · rw [hslash]
    decide

end Celeritas
