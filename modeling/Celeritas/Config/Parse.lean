import Celeritas.Config.Data

/-!
# Reading the configuration file

`parse_and_validate_config_file` and the two functions that call it, `init_config` at
startup and `reload_configuration` on `SIGHUP`. What the loop does with a line does not
depend on the lines before it, so it is a function of the line (`configLine`): skip it,
store a value, or report it. A report ends the process in the first run and is logged in a
later one; what the loop comes to is said in terms of the stores and the reports of the
lines (`readLoop_later`, `readLoop_first`), and nothing after this file goes through the
loop again.

A failing allocation is fatal at startup and not modelled there.
-/

set_option autoImplicit false

namespace Celeritas

open CLib

/-- `trim_whitespace` -/
def trimWhitespace (str : Bytes) : Bytes := (str.dropWhile isSpace).rdropWhile isSpace

/-- `config_mapping_t` -/
structure ConfigMapping where
  key : String
  field : Field
  maxLen : ℕ := 0
  deriving DecidableEq

def cfgMap : List ConfigMapping := [
  { key := "http_port", field := .uint16 .httpPort },
  { key := "https_port", field := .uint16 .httpsPort },
  { key := "worker_threads", field := .uint16 .workerThreads },
  { key := "max_url_size", field := .uint16 .maxUrlSize },
  { key := "max_rx_header_size", field := .uint16 .maxRxHeader },
  { key := "max_tx_header_size", field := .uint16 .maxTxHeader },
  { key := "dir_listing", field := .bool .dirListing },
  { key := "access_log", field := .string .accessLog, maxLen := PATH_MAX },
  { key := "event_log", field := .string .eventLog, maxLen := PATH_MAX },
  { key := "doc_root", field := .string .docRoot, maxLen := PATH_MAX },
  { key := "lock_file_path", field := .string .lockFilePath, maxLen := PATH_MAX },
  { key := "tls_cert_path", field := .string .tlsCertPath, maxLen := PATH_MAX },
  { key := "tls_key_path", field := .string .tlsKeyPath, maxLen := PATH_MAX },
  { key := "log_queue_size", field := .uint16 .logQueueSize },
  { key := "conn_queue_size", field := .uint16 .connQueueSize },
  { key := "server_user", field := .string .serverUser, maxLen := MAX_NAME_LEN },
  { key := "server_group", field := .string .serverGroup, maxLen := MAX_NAME_LEN }]

/-- The entry the loop over the table stops at. -/
def findMapping (key : Bytes) : Option ConfigMapping :=
  cfgMap.find? fun m => strcmpEq key (lit m.key)

/-! ## Errors -/

/-- What a line is reported for. -/
inductive LineError
  | missingDelimiter
  | stringTooLong (key : Bytes)
  | invalidUint16 (key : Bytes)
  | invalidBoolean (key : Bytes)
  | unknownKey (key : Bytes)
  deriving DecidableEq

/-- What `handle_cfg_error` is called for. -/
inductive CfgError
  | cannotOpen (path strerror : Bytes)
  | line (lineNum : ℕ) (e : LineError)
  deriving DecidableEq

def quoted (key : Bytes) : Bytes := lit "'" ++ key ++ lit "'"

def LineError.text : LineError → Bytes
  | .missingDelimiter => lit "Missing '=' delimiter"
  | .stringTooLong key => lit "String too long for " ++ quoted key
  | .invalidUint16 key => lit "Invalid uint16_t for " ++ quoted key
  | .invalidBoolean key => lit "Invalid boolean for " ++ quoted key
  | .unknownKey key => lit "Unknown configuration key " ++ quoted key

/-- The text in `buf`. -/
def CfgError.text : CfgError → Bytes
  | .cannotOpen path strerror =>
    snprintfStored 512 (lit "Cannot open " ++ path ++ lit ": " ++ strerror)
  | .line lineNum e =>
    snprintfStored 512 (lit "Line " ++ decimalNat lineNum ++ lit ": " ++ e.text)

/-- What is printed before the process exits. -/
def CfgError.fatal (e : CfgError) : Bytes := lit "Fatal Config Error: " ++ e.text ++ [newline]

/-- What is logged in a later run. -/
def CfgError.logged (e : CfgError) : Bytes :=
  lit "Config Error: " ++ e.text ++ lit ". Using original value."

/-- `handle_cfg_error`; an error of the result is an exit. -/
def handleCfgError (isFirstRun : Bool) (log : List CfgError) (e : CfgError) :
    Except CfgError (List CfgError) :=
  if isFirstRun then .error e else .ok (log ++ [e])

/-! ## One line -/

/-- What the loop does with a line. -/
inductive LineAct
  | skip
  | assign (a : Assignment)
  | report (e : LineError)
  deriving DecidableEq

def UINT16_MAX : ℤ := 65535

/-- The `switch` over the type of the setting. -/
def parseValue (m : ConfigMapping) (key valueStr : Bytes) : LineAct :=
  match m.field with
  | .string f =>
    if valueStr.length ≥ m.maxLen then .report (.stringTooLong key)
    else .assign (.string f (strncpy valueStr m.maxLen))
  | .uint16 f =>
    let r := strtol valueStr
    if r.range ∨ r.rest ≠ [] ∨ r.val < 0 ∨ r.val > UINT16_MAX then .report (.invalidUint16 key)
    else .assign (.uint16 f (.ofInt r.val))
  | .bool f =>
    if strcasecmpEq valueStr (lit "true") ∨ strcmpEq valueStr (lit "1") then
      .assign (.bool f true)
    else if strcasecmpEq valueStr (lit "false") ∨ strcmpEq valueStr (lit "0") then
      .assign (.bool f false)
    else .report (.invalidBoolean key)

/-- The two sides of the first `=`. -/
def splitAtDelim (s : Bytes) : Option (Bytes × Bytes) :=
  match s.dropWhile (· != charByte '=') with
  | [] => none
  | _ :: value => some (s.takeWhile (· != charByte '='), value)

/-- The line in the buffer without its newline and the blanks around it. -/
def trimmedLine (line : Bytes) : Bytes :=
  trimWhitespace (strBefore [carriageReturn, newline] line)

/-- A trimmed line that is not empty and no comment. -/
def settingLine (trimmed : Bytes) : LineAct :=
  match splitAtDelim trimmed with
  | none => .report .missingDelimiter
  | some (k, v) =>
    match findMapping (trimWhitespace k) with
    | none => .report (.unknownKey (trimWhitespace k))
    | some m => parseValue m (trimWhitespace k) (trimWhitespace v)

/-- The body of the loop. -/
def configLine (line : Bytes) : LineAct :=
  match trimmedLine line with
  | [] => .skip
  | c :: cs => if c = charByte '#' then .skip else settingLine (c :: cs)

/-! ## The file -/

/-- The loop, over what `fgets` gives it. -/
def readLoop (isFirstRun : Bool) (lineNum : ℕ) (conf : ConfigData) (log : List CfgError) :
    List Bytes → Except CfgError (ConfigData × List CfgError)
  | [] => .ok (conf, log)
  | line :: lines =>
    match configLine line with
    | .skip => readLoop isFirstRun (lineNum + 1) conf log lines
    | .assign a => readLoop isFirstRun (lineNum + 1) (conf.assign a) log lines
    | .report e => do
      let log ← handleCfgError isFirstRun log (.line (lineNum + 1) e)
      readLoop isFirstRun (lineNum + 1) conf log lines

/-- What `parse_and_validate_config_file` returns, and what it has written and logged. -/
structure Parsed where
  ret : Bool
  conf : ConfigData
  log : List CfgError

/-- `sizeof(line)` -/
def lineSize : ℕ := 1024

/-- `parse_and_validate_config_file`. `file` is the content of the file, or why it cannot be
opened. -/
def parseAndValidateConfigFile (path : Bytes) (file : Except Bytes Bytes) (conf : ConfigData)
    (isFirstRun : Bool) : Except CfgError Parsed :=
  match file with
  | .error strerror => do
    let log ← handleCfgError isFirstRun [] (.cannotOpen path strerror)
    return ⟨false, conf, log⟩
  | .ok content => do
    let (conf, log) ← readLoop isFirstRun 0 conf [] (fgetsAll lineSize lineSize content)
    return ⟨true, postProcess conf, log⟩

/-- `init_config` -/
def initConfig (ncpu : ℤ) (path : Bytes) (file : Except Bytes Bytes) :
    Except CfgError ConfigData := do
  let p ← parseAndValidateConfigFile path file (loadConfigDefaults ncpu .zeroed) true
  return p.conf

inductive ReloadLog
  | mallocFailed
  | config (e : CfgError)
  deriving DecidableEq

def ReloadLog.text : ReloadLog → Bytes
  | .mallocFailed => lit "Malloc failed parsing new config!"
  | .config e => e.logged

/-- What is published by `reload_configuration`, if anything is, and what it logs. -/
structure Reloaded where
  published : Option ConfigData
  log : List ReloadLog

/-- `reload_configuration`; `mem` is the memory that `malloc` returns, with what is in it. -/
def reloadConfiguration (mem : Option ConfigData) (ncpu : ℤ) (path : Bytes)
    (file : Except Bytes Bytes) : Reloaded :=
  match mem with
  | none => ⟨none, [.mallocFailed]⟩
  | some newConfig =>
    match parseAndValidateConfigFile path file (loadConfigDefaults ncpu newConfig) false with
    | .error _ => ⟨none, []⟩ -- only the first run exits
    | .ok p => ⟨if p.ret then some p.conf else none, p.log.map .config⟩

/-- `conf_data` afterwards. -/
def Reloaded.running (r : Reloaded) (confData : ConfigData) : ConfigData :=
  r.published.getD confData

/-! ## Stores and reports -/

def LineAct.assignment : LineAct → Option Assignment
  | .assign a => some a
  | _ => none

def LineAct.error : LineAct → Option LineError
  | .report e => some e
  | _ => none

/-- The stores of the lines. -/
def assignments (lines : List Bytes) : List Assignment :=
  lines.filterMap fun line => (configLine line).assignment

/-- Their reports. -/
def reports (lineNum : ℕ) : List Bytes → List CfgError
  | [] => []
  | line :: lines =>
    ((configLine line).error.map (CfgError.line (lineNum + 1))).toList ++
      reports (lineNum + 1) lines

theorem assignments_cons (line : Bytes) (lines : List Bytes) :
    assignments (line :: lines) = (configLine line).assignment.toList ++ assignments lines := by
  unfold assignments
  rw [List.filterMap_cons]
  cases (configLine line).assignment <;> rfl

/-- **A later run** makes all the stores and logs all the reports. -/
theorem readLoop_later (lines : List Bytes) (n : ℕ) (conf : ConfigData) (log : List CfgError) :
    readLoop false n conf log lines =
      .ok ((assignments lines).foldl ConfigData.assign conf, log ++ reports n lines) := by
  induction lines generalizing n conf log with
  | nil => simp [readLoop, assignments, reports]
  | cons line lines ih =>
    rw [readLoop, assignments_cons, reports]
    cases configLine line with
    | skip => exact ih _ _ _
    | assign a => exact ih _ _ _
    | report e =>
      show readLoop false (n + 1) conf (log ++ [.line (n + 1) e]) lines = _
      rw [ih, List.append_assoc]
      rfl

/-- **The first run** exits at the first report. -/
theorem readLoop_first (lines : List Bytes) (n : ℕ) (conf : ConfigData) (log : List CfgError) :
    readLoop true n conf log lines =
      match reports n lines with
      | [] => .ok ((assignments lines).foldl ConfigData.assign conf, log)
      | e :: _ => .error e := by
  induction lines generalizing n conf with
  | nil => rfl
  | cons line lines ih =>
    rw [readLoop, assignments_cons, reports]
    cases configLine line with
    | skip => exact ih _ _
    | assign a => exact ih _ _
    | report e => rfl

theorem reports_eq_nil {n : ℕ} {lines : List Bytes} :
    reports n lines = [] ↔ ∀ line ∈ lines, (configLine line).error = none := by
  induction lines generalizing n with
  | nil => simp [reports]
  | cons line lines ih =>
    rw [reports, List.append_eq_nil_iff, ih, List.forall_mem_cons]
    simp

/-- The configuration after the loop, from the one a file is read into. -/
def readConf (content : Bytes) (conf : ConfigData) : ConfigData :=
  (assignments (fgetsAll lineSize lineSize content)).foldl ConfigData.assign conf

/-- The configuration the file leads to. -/
def parsedConf (content : Bytes) (conf : ConfigData) : ConfigData :=
  postProcess (readConf content conf)

/-- **Of a parsed configuration** every field is the last value stored there, or what was
there before, with the post-processing of that field. -/
theorem current_parsedConf (content : Bytes) (conf : ConfigData) (f : Field) :
    (parsedConf content conf).current f =
      ((lastFor f (assignments (fgetsAll lineSize lineSize content))).getD
        (conf.current f)).postProcess := by
  rw [parsedConf, current_postProcess, readConf, ConfigData.current_foldl_assign]

/-- Startup accepts the files without a reported line. -/
def Accepted (content : Bytes) : Prop :=
  ∀ line ∈ fgetsAll lineSize lineSize content, (configLine line).error = none

instance (content : Bytes) : Decidable (Accepted content) :=
  inferInstanceAs (Decidable (∀ line ∈ fgetsAll lineSize lineSize content,
    (configLine line).error = none))

theorem initConfig_eq_ok {ncpu : ℤ} {path content : Bytes} {c : ConfigData} :
    initConfig ncpu path (.ok content) = .ok c ↔
      Accepted content ∧ c = parsedConf content (loadConfigDefaults ncpu .zeroed) := by
  simp only [initConfig, parseAndValidateConfigFile, readLoop_first, Accepted]
  rw [← reports_eq_nil (n := 0)]
  cases reports 0 (fgetsAll lineSize lineSize content) with
  | nil => exact ⟨fun h => ⟨rfl, (Except.ok.inj h).symm⟩, fun h => h.2 ▸ rfl⟩
  | cons e es => exact ⟨fun h => (nomatch h), fun h => absurd h.1 (by simp)⟩

/-- A reload that gets its memory and its file publishes what the file leads to. -/
theorem reloadConfiguration_ok (mem : ConfigData) (ncpu : ℤ) (path content : Bytes) :
    reloadConfiguration (some mem) ncpu path (.ok content) =
      ⟨some (parsedConf content (loadConfigDefaults ncpu mem)),
        (reports 0 (fgetsAll lineSize lineSize content)).map .config⟩ := by
  simp only [reloadConfiguration, parseAndValidateConfigFile, readLoop_later]
  rfl

/-- Without memory or file nothing is published. -/
theorem reloadConfiguration_failed {mem : Option ConfigData} {file : Except Bytes Bytes}
    (h : mem = none ∨ ∃ e, file = .error e) (ncpu : ℤ) (path : Bytes) :
    (reloadConfiguration mem ncpu path file).published = none := by
  rcases h with rfl | ⟨e, rfl⟩
  · rfl
  · cases mem <;> rfl

/-! ## No string is longer than its array -/

/-- The length of the array. -/
def StringField.size : StringField → ℕ
  | .serverTok => 20
  | .serverUser | .serverGroup => MAX_NAME_LEN
  | _ => PATH_MAX

/-- A string with its terminator fits its array. -/
def Assignment.Fits : Assignment → Prop
  | .string f v => v.length < f.size
  | _ => True

/-- The table has the lengths of the arrays. -/
theorem maxLen_eq_size : ∀ m ∈ cfgMap, ∀ f, m.field = .string f → m.maxLen = f.size := by
  have h : ∀ m ∈ cfgMap, (match m.field with
      | .string f => m.maxLen == f.size
      | _ => true) = true := by decide
  intro m hm f hf
  have := h m hm
  rw [hf] at this
  exact eq_of_beq this

theorem parseValue_fits {m : ConfigMapping} (hm : m ∈ cfgMap) {key value : Bytes} {a : Assignment}
    (h : parseValue m key value = .assign a) : a.Fits := by
  unfold parseValue at h
  split at h
  · rename_i f hf
    split at h
    · cases h
    · rename_i hlen
      cases h
      have hle : (strncpy value m.maxLen).length ≤ value.length :=
        (List.length_take_le' _ _).trans (length_cstr_le value)
      show _ < _
      rw [← maxLen_eq_size m hm f hf]
      omega
  · dsimp only at h
    split at h <;> cases h
    trivial
  · split at h
    · cases h; trivial
    · split at h <;> cases h
      trivial

theorem configLine_fits {line : Bytes} {a : Assignment} (h : configLine line = .assign a) :
    a.Fits := by
  unfold configLine at h
  split at h
  · cases h
  split at h
  · cases h
  unfold settingLine at h
  split at h
  · cases h
  split at h
  · cases h
  · rename_i m hm
    exact parseValue_fits (List.mem_of_find?_eq_some hm) h

theorem assignments_fits {lines : List Bytes} {a : Assignment} (h : a ∈ assignments lines) :
    a.Fits := by
  obtain ⟨line, -, ha⟩ := List.mem_filterMap.mp h
  cases hl : configLine line with
  | assign b =>
    rw [hl] at ha
    cases ha
    exact configLine_fits hl
  | skip => simp [hl, LineAct.assignment] at ha
  | report e => simp [hl, LineAct.assignment] at ha

theorem loadConfigDefaults_fits (ncpu : ℤ) (cd : ConfigData) (f : Field) :
    ((loadConfigDefaults ncpu cd).current f).Fits := by
  cases f with
  | uint16 f => cases f <;> trivial
  | bool f => cases f; trivial
  | string f => cases f <;> exact Nat.le_of_ble_eq_true rfl

/-- **Whatever the file holds, no string is stored that does not fit its array**, whether at
startup or on a reload. -/
theorem readConf_fits (content : Bytes) (ncpu : ℤ) (cd : ConfigData) (f : Field) :
    ((readConf content (loadConfigDefaults ncpu cd)).current f).Fits := by
  rw [readConf, ConfigData.current_foldl_assign]
  cases h : lastFor f (assignments (fgetsAll lineSize lineSize content)) with
  | none => exact loadConfigDefaults_fits ncpu cd f
  | some a => exact assignments_fits (lastFor_mem h).1

/-! ## Startup with a last character -/

/-- `init_config` with a file that can be opened. There is no result where the last character of
`lock_file_path` is looked for outside of its array. -/
def initConfigIn (ncpu : ℤ) (path content : Bytes) : Option (Except CfgError ConfigData) :=
  match initConfig ncpu path (.ok content) with
  | .error e => some (.error e)
  | .ok c =>
    (stripLockPathIn (readConf content (loadConfigDefaults ncpu .zeroed)).lockFilePath).map
      fun lockFilePath => .ok { c with lockFilePath := lockFilePath }

theorem initConfigIn_eq_ok {ncpu : ℤ} {path content : Bytes} {c : ConfigData} :
    initConfigIn ncpu path content = some (.ok c) ↔ initConfig ncpu path (.ok content) = .ok c ∧
      (readConf content (loadConfigDefaults ncpu .zeroed)).lockFilePath ≠ [] := by
  have hfits :
      (readConf content (loadConfigDefaults ncpu .zeroed)).lockFilePath.length < PATH_MAX :=
    readConf_fits content ncpu .zeroed (.string .lockFilePath)
  unfold initConfigIn
  cases hc : initConfig ncpu path (.ok content) with
  | error e => simp
  | ok d =>
    obtain ⟨-, rfl⟩ := initConfig_eq_ok.mp hc
    simp only [stripLockPathIn_eq hfits]
    by_cases hnil : (readConf content (loadConfigDefaults ncpu .zeroed)).lockFilePath = []
    · simp [hnil]
    · rw [if_neg hnil, Option.map_some, and_iff_left hnil]
      exact Option.some_inj

end Celeritas
