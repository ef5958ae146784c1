import Celeritas.Config.Parse
import Celeritas.Lib.Run

/-!
# Reloading the configuration

On `SIGHUP` the configuration is built anew, and not from the one it replaces: the defaults
are written into what `malloc` returned, and the file is read over them. Two things follow.
A file that has not changed leads to the same configuration only where it is found and may
be opened, and nothing depends on what else has changed since startup, the working directory,
the number of processors and the memory (`reload_unchanged_iff`). And what the file does not
set, because its line is rejected, is not kept but set back to the default, whatever the logged
message says (`keepsOriginal_iff`).
-/

set_option autoImplicit false

namespace Celeritas

open CLib Lib

/-! ## Names of files -/

def DEFAULT_CONFIG_PATH : Bytes := lit "/etc/celeritas/celeritas.conf"

/-- `active_config_path` after `resolve_config_path`: the path of the command line goes
before that of the environment. The array is zeroed, and its last byte stays so. -/
def activeConfigPath (cliPath envPath : Option Bytes) : Bytes :=
  match cliPath with
  | some path => strncpy path (PATH_MAX - 1)
  | none => match envPath with
    | some path => strncpy path (PATH_MAX - 1)
    | none => strncpy DEFAULT_CONFIG_PATH (PATH_MAX - 1)

def IsAbsolute (path : Bytes) : Prop := path.head? = some (charByte '/')

instance (path : Bytes) : Decidable (IsAbsolute path) :=
  inferInstanceAs (Decidable (path.head? = some (charByte '/')))

/-- A working directory. -/
structure WorkDir where
  path : Bytes
  absolute : IsAbsolute path

/-- `chdir("/")` of `daemonize`. -/
def WorkDir.root : WorkDir := ⟨lit "/", by decide⟩

/-- The name that the system looks a path up under. -/
def WorkDir.fullName (d : WorkDir) (path : Bytes) : Bytes :=
  if IsAbsolute path then path
  else if d.path = WorkDir.root.path then d.path ++ path
  else d.path ++ charByte '/' :: path

/-- The contents of the files by their names, or the texts of the errors. -/
abbrev FileSystem := Bytes → Except Bytes Bytes

/-- `fopen(path, "r")` and what can be read; the empty path names nothing. -/
def fopen (fs : FileSystem) (d : WorkDir) (path : Bytes) : Except Bytes Bytes :=
  if path = [] then .error (lit "No such file or directory") else fs (d.fullName path)

theorem fullName_root_eq_iff {d : WorkDir} {path : Bytes} :
    WorkDir.root.fullName path = d.fullName path ↔
      IsAbsolute path ∨ d.path = WorkDir.root.path := by
  unfold WorkDir.fullName
  by_cases habs : IsAbsolute path
  · rw [if_pos habs, if_pos habs]
    exact iff_of_true rfl (.inl habs)
  by_cases hd : d.path = WorkDir.root.path
  · rw [if_neg habs, if_neg habs, if_pos rfl, if_pos hd, hd]
    exact iff_of_true rfl (.inr rfl)
  rw [if_neg habs, if_neg habs, if_pos rfl, if_neg hd]
  refine iff_of_false ?_ (not_or.mpr ⟨habs, hd⟩)
  intro h
  -- the name in another directory is longer by the length of that directory
  have hlen := congrArg List.length h
  have hroot : WorkDir.root.path.length = 1 := by decide
  rw [List.length_append, List.length_append, List.length_cons, hroot] at hlen
  have hnil : d.path = [] := List.length_eq_zero_iff.mp (by omega)
  have habs' := d.absolute
  rw [hnil] at habs'
  cases habs'

/-! ## A file that has not changed -/

/-- What a `SIGHUP` meets: the number of processors and the file system there are by then, the
memory that `malloc` returns, if any, and the error of an `open` that is refused although the
file is there, as it may be after `drop_privileges`. -/
structure Sighup where
  ncpu : ℤ
  fs : FileSystem
  refused : Option Bytes
  mem : Option ConfigData

/-- `fopen` in the daemon, whose working directory is the root. -/
def Sighup.fopen (r : Sighup) (path : Bytes) : Except Bytes Bytes :=
  match r.refused with
  | some strerror => .error strerror
  | none => Celeritas.fopen r.fs WorkDir.root path

/-- `conf_data`, and of each reload so far the file it has opened and what it has published. -/
structure ReloadState where
  confData : ConfigData
  opened : List (Option Bytes)
  published : List (Option ConfigData)

/-- A reload. Without memory it does not come to `fopen`. -/
def ReloadState.step (path : Bytes) (s : ReloadState) (r : Sighup) : Option ReloadState :=
  let file := r.fopen path
  let out := reloadConfiguration r.mem r.ncpu path file
  let name := match r.mem, file with
    | some _, .ok _ => some (WorkDir.root.fullName path)
    | _, _ => none
  some ⟨out.running s.confData, s.opened ++ [name], s.published ++ [out.published]⟩

/-- All reloads opened the file `name` and published `c`, which is in use. -/
structure ReloadState.Same (name : Bytes) (c : ConfigData) (s : ReloadState) : Prop where
  confData : s.confData = c
  opened : ∀ n ∈ s.opened, n = some name
  published : ∀ p ∈ s.published, p = some c

/-- A line sets the field. -/
def SetsField (content : Bytes) (f : Field) : Prop :=
  ∃ a ∈ assignments (fgetsAll lineSize lineSize content), a.field = f

theorem not_setsField {content : Bytes} {f : Field} : ¬ SetsField content f ↔
    lastFor f (assignments (fgetsAll lineSize lineSize content)) = none := by
  rw [lastFor_eq_none, SetsField]
  push Not
  rfl

/-- Of a field that is set it does not matter what was there before. -/
theorem current_parsedConf_congr {content : Bytes} {f : Field} {c c' : ConfigData}
    (h : SetsField content f ∨ c.current f = c'.current f) :
    (parsedConf content c).current f = (parsedConf content c').current f := by
  rw [current_parsedConf, current_parsedConf]
  cases hl : lastFor f (assignments (fgetsAll lineSize lineSize content)) with
  | some a => rfl
  | none => rw [h.resolve_left (not_setsField.mpr hl)]

/-- What is not set is left as it was, but for the post-processing. -/
theorem current_parsedConf_of_not {content : Bytes} {f : Field} (h : ¬ SetsField content f)
    (c : ConfigData) : (parsedConf content c).current f = (c.current f).postProcess := by
  rw [current_parsedConf, not_setsField.mp h, Option.getD_none]

theorem workerThreads_default_iff {ncpu ncpu' : ℤ} :
    UInt16.ofInt (ncpu * 2) = .ofInt (ncpu' * 2) ↔ ncpu % 2 ^ 15 = ncpu' % 2 ^ 15 := by
  have htoNat : ∀ n : ℤ, ((UInt16.ofInt (n * 2)).toNat : ℤ) = n * 2 % 2 ^ 16 := by
    intro n
    have hpos : 0 ≤ n * 2 % 2 ^ 16 := by omega
    have hlt : (n * 2 % 2 ^ 16).toNat < 2 ^ 16 := by omega
    rw [UInt16.ofInt, UInt16.toNat_ofNat_of_lt' hlt, Int.toNat_of_nonneg hpos]
  rw [← UInt16.toNat_inj, ← Nat.cast_inj (R := ℤ), htoNat, htoNat]
  omega

/-- **When a file leads to the same** on two machines, from two memories: if it sets the two
fields that depend on them, or they are the same there. -/
theorem parsedConf_eq_iff {content : Bytes} {ncpu ncpu' : ℤ} {mem mem' : ConfigData} :
    parsedConf content (loadConfigDefaults ncpu mem) =
        parsedConf content (loadConfigDefaults ncpu' mem') ↔
      (SetsField content (.uint16 .workerThreads) ∨ ncpu % 2 ^ 15 = ncpu' % 2 ^ 15) ∧
        (SetsField content (.bool .dirListing) ∨ mem.dirListing = mem'.dirListing) := by
  rw [← workerThreads_default_iff]
  constructor
  · intro h
    refine ⟨or_iff_not_imp_left.mpr fun hset => ?_, or_iff_not_imp_left.mpr fun hset => ?_⟩
    · have hcur := congrArg (ConfigData.current · (.uint16 .workerThreads)) h
      simp only [current_parsedConf_of_not hset] at hcur
      exact (Assignment.uint16.inj hcur).2
    · have hcur := congrArg (ConfigData.current · (.bool .dirListing)) h
      simp only [current_parsedConf_of_not hset] at hcur
      exact (Assignment.bool.inj hcur).2
  · rintro ⟨hworkers, hlisting⟩
    apply ConfigData.ext_current
    intro f
    apply current_parsedConf_congr
    rw [current_loadConfigDefaults]
    by_cases hf : SetsField content f
    · exact .inl hf
    · refine .inr ⟨?_, ?_⟩
      · rintro rfl
        exact hworkers.resolve_left hf
      · rintro rfl
        exact hlisting.resolve_left hf

/-- What a reload has to meet beside the file: it gets memory and may open the file, and where
the file does not set it, the number of worker threads comes to the same and the memory has a
zero in the place of `dir_listing`, as that of `calloc` had. -/
structure Sighup.Repeats (ncpu : ℤ) (content : Bytes) (r : Sighup) : Prop where
  opens : r.refused = none
  workers : SetsField content (.uint16 .workerThreads) ∨ r.ncpu % 2 ^ 15 = ncpu % 2 ^ 15
  memory : ∃ mem, r.mem = some mem ∧
    (SetsField content (.bool .dirListing) ∨ mem.dirListing = false)

theorem Sighup.repeats_iff {ncpu : ℤ} {content : Bytes} {r : Sighup} :
    r.Repeats ncpu content ↔ r.refused = none ∧ ∃ mem, r.mem = some mem ∧
      parsedConf content (loadConfigDefaults r.ncpu mem) =
        parsedConf content (loadConfigDefaults ncpu .zeroed) := by
  simp only [parsedConf_eq_iff]
  constructor
  · rintro ⟨hopens, hworkers, mem, hmem, hlisting⟩
    exact ⟨hopens, mem, hmem, hworkers, hlisting⟩
  · rintro ⟨hopens, mem, hmem, hworkers, hlisting⟩
    exact ⟨hopens, hworkers, mem, hmem, hlisting⟩

theorem ReloadState.same_concat {name : Bytes} {c : ConfigData} {s : ReloadState}
    (h : s.Same name c) {running : ConfigData} {n : Option Bytes} {p : Option ConfigData} :
    Same name c ⟨running, s.opened ++ [n], s.published ++ [p]⟩ ↔
      running = c ∧ n = some name ∧ p = some c := by
  constructor
  · intro h'
    exact ⟨h'.confData, h'.opened n (by simp), h'.published p (by simp)⟩
  · rintro ⟨hrunning, hn, hp⟩
    refine ⟨hrunning, ?_, ?_⟩
    · exact List.forall_mem_append.mpr ⟨h.opened, List.forall_mem_singleton.mpr hn⟩
    · exact List.forall_mem_append.mpr ⟨h.published, List.forall_mem_singleton.mpr hp⟩

/-- **One reload** opens the same file and publishes the same configuration exactly if it finds
the file and meets the rest. -/
theorem ReloadState.same_step_iff {d : WorkDir} {path content : Bytes} {ncpu : ℤ}
    {s : ReloadState} {r : Sighup} (hfile : fopen r.fs d path = .ok content)
    (h : s.Same (d.fullName path) (parsedConf content (loadConfigDefaults ncpu .zeroed))) :
    ∃ s', s.step path r = some s' ∧
      (s'.Same (d.fullName path) (parsedConf content (loadConfigDefaults ncpu .zeroed)) ↔
        (IsAbsolute path ∨ d.path = WorkDir.root.path) ∧ r.Repeats ncpu content) := by
  refine ⟨_, rfl, ?_⟩
  rw [same_concat h, Sighup.repeats_iff, ← fullName_root_eq_iff]
  cases hmem : r.mem with
  | none =>
    refine iff_of_false ?_ (by simp)
    exact fun hsame => nomatch hsame.2.1
  | some mem =>
    cases hrefused : r.refused with
    | some e =>
      have hopen : r.fopen path = .error e := by rw [Sighup.fopen, hrefused]
      refine iff_of_false ?_ (by simp)
      rw [hopen]
      exact fun hsame => nomatch hsame.2.1
    | none =>
      have hopen : r.fopen path = fopen r.fs WorkDir.root path := by rw [Sighup.fopen, hrefused]
      by_cases hname : WorkDir.root.fullName path = d.fullName path
      · have hfound : r.fopen path = .ok content := by
          rw [hopen, ← hfile, Celeritas.fopen, Celeritas.fopen, hname]
        simp [hfound, hname, reloadConfiguration_ok, Reloaded.running]
      · refine iff_of_false ?_ fun hsame => hname hsame.1
        rintro ⟨-, hopened, -⟩
        cases hf : r.fopen path with
        | error e => simp [hf] at hopened
        | ok found => exact hname (by simpa [hf] using hopened)

/-- **Reloading an unchanged file changes nothing if and only if** its path is absolute or
the server was started in the root directory, and each reload gets memory, may open the file and
finds the number of processors and the byte of memory the same where they matter. All else may
change between the reloads. -/
theorem reload_unchanged_iff (cliPath envPath : Option Bytes) (d : WorkDir) (fs : FileSystem)
    (ncpu : ℤ) {content : Bytes} {c : ConfigData}
    (hfile : fopen fs d (activeConfigPath cliPath envPath) = .ok content)
    (hc : initConfig ncpu (activeConfigPath cliPath envPath)
      (fopen fs d (activeConfigPath cliPath envPath)) = .ok c)
    (rs : List Sighup)
    (hrs : ∀ r ∈ rs, fopen r.fs d (activeConfigPath cliPath envPath) = .ok content) :
    Along (ReloadState.step (activeConfigPath cliPath envPath))
        (ReloadState.Same (d.fullName (activeConfigPath cliPath envPath)) c) ⟨c, [], []⟩ rs ↔
      ∀ r ∈ rs, (IsAbsolute (activeConfigPath cliPath envPath) ∨ d.path = WorkDir.root.path) ∧
        r.Repeats ncpu content := by
  rw [hfile] at hc
  obtain ⟨-, rfl⟩ := initConfig_eq_ok.mp hc
  have hstart : ReloadState.Same (d.fullName (activeConfigPath cliPath envPath))
      (parsedConf content (loadConfigDefaults ncpu .zeroed))
      ⟨parsedConf content (loadConfigDefaults ncpu .zeroed), [], []⟩ := ⟨rfl, by simp, by simp⟩
  apply along_iff_forall_mem _ hstart
  intro s r hr hsame
  exact ReloadState.same_step_iff (hrs r hr) hsame

/-! ### Two startups -/

/-- A file system with one file. -/
def oneFile (name content : Bytes) : FileSystem :=
  fun n => if n = name then .ok content else .error (lit "No such file or directory")

def home : WorkDir := ⟨lit "/home", by decide⟩

def absolutePath : Bytes := activeConfigPath (some (lit "/c")) none

def relativePath : Bytes := activeConfigPath (some (lit "c")) none

def listingOff : Bytes := lit "dir_listing = 0\n"

def listingUnset : Bytes := lit "http_port = 8080\n"

/-- Twice, with a one in the memory. -/
def twoReloads : List Sighup :=
  let r : Sighup := ⟨4, oneFile (lit "/c") listingOff, none,
    some { ConfigData.zeroed with dirListing := true }⟩
  [r, { r with ncpu := 4 + 2 ^ 15 }]

theorem reload_unchanged_listingOff :
    ∃ c, initConfig 4 absolutePath (fopen (oneFile (lit "/c") listingOff) home absolutePath) =
        .ok c ∧
      Along (ReloadState.step absolutePath) (ReloadState.Same (home.fullName absolutePath) c)
        ⟨c, [], []⟩ twoReloads := by
  have hfile : fopen (oneFile (lit "/c") listingOff) home absolutePath = .ok listingOff := by
    decide +kernel
  have hok : initConfig 4 absolutePath (fopen (oneFile (lit "/c") listingOff) home absolutePath) =
      .ok (parsedConf listingOff (loadConfigDefaults 4 .zeroed)) := by
    rw [hfile]
    exact initConfig_eq_ok.mpr ⟨by decide +kernel, rfl⟩
  have hdir : SetsField listingOff (.bool .dirListing) :=
    ⟨.bool .dirListing false, by decide +kernel, rfl⟩
  have habs : IsAbsolute absolutePath := by decide +kernel
  have hfiles : ∀ r ∈ twoReloads, fopen r.fs home absolutePath = .ok listingOff := by
    simpa [twoReloads] using hfile
  refine ⟨_, hok, (reload_unchanged_iff (some (lit "/c")) none home _ 4 hfile hok twoReloads
    hfiles).mpr ?_⟩
  simp only [twoReloads, List.forall_mem_cons]
  exact ⟨⟨.inl habs, rfl, .inr rfl, _, rfl, .inl hdir⟩,
    ⟨.inl habs, rfl, .inr rfl, _, rfl, .inl hdir⟩, by simp⟩

/-- With a relative path the daemon does not find its file again; with an absolute one it
takes `dir_listing` from a byte of the heap. -/
theorem reload_changes :
    (∃ c, initConfig 4 relativePath
        (fopen (oneFile (lit "/home/c") listingOff) home relativePath) = .ok c ∧
      ¬ Along (ReloadState.step relativePath)
        (ReloadState.Same (home.fullName relativePath) c) ⟨c, [], []⟩
        [⟨4, oneFile (lit "/home/c") listingOff, none, some .zeroed⟩]) ∧
    ∃ c, initConfig 4 absolutePath
        (fopen (oneFile (lit "/c") listingUnset) home absolutePath) = .ok c ∧
      ¬ Along (ReloadState.step absolutePath)
        (ReloadState.Same (home.fullName absolutePath) c) ⟨c, [], []⟩
        [⟨4, oneFile (lit "/c") listingUnset, none,
          some { ConfigData.zeroed with dirListing := true }⟩] := by
  constructor
  · refine ⟨_, initConfig_eq_ok.mpr ⟨by decide +kernel, rfl⟩, ?_⟩
    intro h
    have hname := (h.2 _ rfl).opened none (by decide +kernel)
    cases hname
  · refine ⟨_, initConfig_eq_ok.mpr ⟨by decide +kernel, rfl⟩, ?_⟩
    intro h
    have hconf := congrArg ConfigData.dirListing (h.2 _ rfl).confData
    revert hconf
    decide +kernel

/-! ## A line that is rejected -/

/-- The setting whose value a report is about. -/
def LineError.field : LineError → Option Field
  | .stringTooLong key | .invalidUint16 key | .invalidBoolean key =>
    (findMapping key).map ConfigMapping.field
  | .missingDelimiter | .unknownKey _ => none

/-- The file has lines for a setting, and all of them are rejected. -/
structure OnlyRejected (content : Bytes) (f : Field) : Prop where
  rejected : ∃ line ∈ fgetsAll lineSize lineSize content, ∃ e,
    configLine line = .report e ∧ e.field = some f
  unset : ∀ a ∈ assignments (fgetsAll lineSize lineSize content), a.field ≠ f

/-- What the logged message promises, and that a file that cannot be opened changes
nothing. -/
structure KeepsOriginal (running : ConfigData) (file : Except Bytes Bytes) (r : Reloaded) :
    Prop where
  unopened : ∀ e, file = .error e → r.running running = running
  original : ∀ content, file = .ok content → ∀ new, r.published = some new →
    ∀ f, OnlyRejected content f → new.current f = running.current f

/-- The defaults are what the post-processing makes of them. -/
theorem postProcess_loadConfigDefaults (ncpu : ℤ) (cd : ConfigData) (f : Field) :
    ((loadConfigDefaults ncpu cd).current f).postProcess =
      (loadConfigDefaults ncpu cd).current f := by
  have hround : roundedQueueSize 256 = 256 := by decide +kernel
  cases f with
  | uint16 f =>
    cases f with
    | logQueueSize => exact congrArg (Assignment.uint16 .logQueueSize) hround
    | connQueueSize => exact congrArg (Assignment.uint16 .connQueueSize) hround
    | _ => rfl
  | string f => cases f <;> rfl
  | bool f => cases f; rfl

/-- **A rejected line keeps the original value if and only if that was the default**, and
for `dir_listing`, which has no default, the value in the new memory. -/
theorem keepsOriginal_iff (running : ConfigData) (mem : Option ConfigData) (ncpu : ℤ)
    (path : Bytes) (file : Except Bytes Bytes) :
    KeepsOriginal running file (reloadConfiguration mem ncpu path file) ↔
      ∀ m content, mem = some m → file = .ok content → ∀ f, OnlyRejected content f →
        running.current f = (loadConfigDefaults ncpu m).current f := by
  constructor
  · rintro h m content rfl rfl f hf
    have hnew := h.original content rfl _ (by rw [reloadConfiguration_ok]) f hf
    rw [← hnew, current_parsedConf, lastFor_eq_none.mpr hf.unset, Option.getD_none,
      postProcess_loadConfigDefaults]
  · intro h
    constructor
    · intro e he
      rw [Reloaded.running, reloadConfiguration_failed (.inr ⟨e, he⟩), Option.getD_none]
    · rintro content rfl new hnew f hf
      cases mem with
      | none => cases hnew
      | some m =>
        rw [reloadConfiguration_ok, Option.some.injEq] at hnew
        rw [← hnew, current_parsedConf, lastFor_eq_none.mpr hf.unset, Option.getD_none,
          postProcess_loadConfigDefaults, h m content rfl rfl f hf]

/-! ### A slip of the pen -/

/-- The port in use is `8080`, and the new file means to change it. -/
def onPort8080 : ConfigData := { loadConfigDefaults 4 .zeroed with httpPort := 8080 }

def badPort : Bytes := lit "http_port = 80800\n"

/-- The message says that the original value is used; the port published is `80`. -/
theorem badPort_resets :
    (reloadConfiguration (some .zeroed) 4 absolutePath (.ok badPort)).log.map ReloadLog.text =
        [lit "Config Error: Line 1: Invalid uint16_t for 'http_port'. Using original value."] ∧
      (reloadConfiguration (some .zeroed) 4 absolutePath (.ok badPort)).published.map
        ConfigData.httpPort = some 80 ∧
      ¬ KeepsOriginal onPort8080 (.ok badPort)
        (reloadConfiguration (some .zeroed) 4 absolutePath (.ok badPort)) := by
  have hrej : OnlyRejected badPort (.uint16 .httpPort) :=
    ⟨⟨badPort, by decide +kernel, .invalidUint16 (lit "http_port"), by decide +kernel,
      by decide +kernel⟩, by decide +kernel⟩
  refine ⟨by decide +kernel, by decide +kernel, ?_⟩
  intro h
  have hport := h.original badPort rfl (parsedConf badPort (loadConfigDefaults 4 .zeroed))
    (by rw [reloadConfiguration_ok]) _ hrej
  revert hport
  decide +kernel

end Celeritas
