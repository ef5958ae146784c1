import Celeritas.Config.Lines
import Celeritas.Config.Sizes

/-!
# The documented configurations

`celeritas.conf.dist` says which settings there are. A file that is made of them (`DocFile`)
carries what makes it well formed, line by line, so that what the parser does with its lines
needs no assumption: a setting is stored (`configLine_setting`), unless the table does not
have it. What the file then comes to differs from what is documented in three places, the
missing key, the 16-bit queue sizes and the slash that is not removed, which spoils every one
(`documented_never`).
-/

set_option autoImplicit false

namespace Celeritas

open CLib Lib

/-! ## What is documented -/

/-- The settings of `celeritas.conf.dist`, in its order. -/
def documentedKeys : List (String × Field) := [
  ("http_port", .uint16 .httpPort),
  ("https_port", .uint16 .httpsPort),
  ("worker_threads", .uint16 .workerThreads),
  ("access_log", .string .accessLog),
  ("event_log", .string .eventLog),
  ("lock_file_path", .string .lockFilePath),
  ("doc_root", .string .docRoot),
  ("tls_cert_path", .string .tlsCertPath),
  ("tls_key_path", .string .tlsKeyPath),
  ("server_user", .string .serverUser),
  ("server_group", .string .serverGroup),
  ("max_rx_header_size", .uint16 .maxRxHeader),
  ("max_tx_header_size", .uint16 .maxTxHeader),
  ("max_url_size", .uint16 .maxUrlSize),
  ("keepalive_timeout", .uint16 .keepaliveTimeout),
  ("log_queue_size", .uint16 .logQueueSize),
  ("conn_queue_size", .uint16 .connQueueSize)]

/-- A text without blanks at its ends. -/
def Trimmed (s : Bytes) : Prop :=
  (∀ c ∈ s.head?, isSpace c = false) ∧ ∀ c ∈ s.getLast?, isSpace c = false

/-- A text for a value of the field's kind. -/
def ValidValue : Field → Bytes → Prop
  | .uint16 _, value =>
    value ≠ [] ∧ (∀ c ∈ value, isDigit c = true) ∧ digitsVal value < 2 ^ 16
  | .string f, value => value.length < f.size ∧ 0 ∉ value ∧ OneLine value ∧ Trimmed value
  | .bool _, _ => False

/-- Where a setting may have blanks. -/
inductive Gap
  | beforeKey
  | afterKey
  | beforeValue
  | afterValue
  deriving DecidableEq

/-- A line that sets a documented setting, with the blanks in it. -/
structure DocSetting where
  key : String
  field : Field
  documented : (key, field) ∈ documentedKeys
  value : Bytes
  valid : ValidValue field value
  blanks : Gap → Bytes
  blank : ∀ i, ∀ c ∈ blanks i, isBlank c = true

inductive DocLine
  | blank (ws : Bytes) (h : ∀ c ∈ ws, isBlank c = true)
  | comment (ws text : Bytes) (h : ∀ c ∈ ws, isBlank c = true) (ht : newline ∉ text)
  | setting (s : DocSetting)

def DocSetting.bytes (s : DocSetting) : Bytes :=
  (s.blanks .beforeKey ++ lit s.key ++ s.blanks .afterKey) ++
    charByte '=' :: (s.blanks .beforeValue ++ s.value ++ s.blanks .afterValue)

/-- The line without its newline. -/
def DocLine.bytes : DocLine → Bytes
  | .blank ws _ => ws
  | .comment ws text _ _ => ws ++ charByte '#' :: text
  | .setting s => s.bytes

/-- A file of documented lines of at most 1023 bytes; `last` has no newline. -/
structure DocFile where
  lines : List DocLine
  last : Option DocLine
  short : ∀ l ∈ lines ++ last.toList, l.bytes.length ≤ 1023

def DocFile.bytes (file : DocFile) : Bytes :=
  (file.lines.flatMap fun l => l.bytes ++ [newline]) ++ (file.last.map DocLine.bytes).getD []

def DocLine.setting? : DocLine → Option DocSetting
  | .setting s => some s
  | _ => none

def DocFile.settings (file : DocFile) : List DocSetting :=
  (file.lines ++ file.last.toList).filterMap DocLine.setting?

/-- What a setting says. -/
def DocSetting.assignment (s : DocSetting) : Assignment :=
  match s.field with
  | .uint16 f => .uint16 f (.ofNat (digitsVal s.value))
  | .string f => .string f s.value
  | .bool f => .bool f false -- there is no such setting

/-- For every field the last value that is given, or the default. -/
def DocFile.configured (file : DocFile) (ncpu : ℤ) : ConfigData :=
  (file.settings.map DocSetting.assignment).foldl ConfigData.assign
    (loadConfigDefaults ncpu .zeroed)

/-- The path without a slash at its end. -/
def withoutSlash (path : Bytes) : Bytes :=
  if path.getLast? = some (charByte '/') then path.dropLast else path

/-- `c` holds what was `configured`, for a documented setting. -/
def HoldsField (configured c : ConfigData) : Field → Prop
  | .uint16 .logQueueSize => c.logQueueSize.toNat = roundUp configured.logQueueSize.toNat
  | .uint16 .connQueueSize => c.connQueueSize.toNat = roundUp configured.connQueueSize.toNat
  | .string .lockFilePath => c.lockFilePath = withoutSlash configured.lockFilePath
  | f => c.current f = configured.current f

def Holds (configured c : ConfigData) : Prop :=
  ∀ kf ∈ documentedKeys, HoldsField configured c kf.2

/-! ## Blanks are trimmed -/

theorem dropWhile_blanks {p : UInt8 → Bool} {b s : Bytes} (hb : ∀ c ∈ b, p c = true)
    (hs : ∀ c ∈ s.head?, p c = false) : (b ++ s).dropWhile p = s := by
  rw [List.dropWhile_append_of_pos hb]
  cases s with
  | nil => rfl
  | cons c cs => rw [List.dropWhile_cons, if_neg (by simp [hs c rfl])]

theorem rdropWhile_blanks {p : UInt8 → Bool} {s b : Bytes} (hs : ∀ c ∈ s.getLast?, p c = false)
    (hb : ∀ c ∈ b, p c = true) : (s ++ b).rdropWhile p = s := by
  rw [List.rdropWhile, List.reverse_append, dropWhile_blanks, List.reverse_reverse]
  · intro c hc
    exact hb c (List.mem_reverse.mp hc)
  · rwa [List.head?_reverse]

theorem trimWhitespace_blanks {b s b' : Bytes} (hb : ∀ c ∈ b, isSpace c = true) (hs : Trimmed s)
    (hb' : ∀ c ∈ b', isSpace c = true) : trimWhitespace (b ++ s ++ b') = s := by
  unfold trimWhitespace
  cases s with
  | nil =>
    rw [List.append_nil, List.dropWhile_eq_nil_iff.mpr, List.rdropWhile_nil]
    intro c hc
    rcases List.mem_append.mp hc with hc | hc
    · exact hb c hc
    · exact hb' c hc
  | cons c cs =>
    rw [List.append_assoc, dropWhile_blanks hb, rdropWhile_blanks hs.2 hb']
    intro d hd
    exact hs.1 d (by simpa using hd)

theorem dropWhile_delim {p : UInt8 → Bool} {c : UInt8} (hc : p c = false) (x y : Bytes) :
    (x ++ c :: y).dropWhile p = x.dropWhile p ++ c :: y := by
  induction x with
  | nil => rw [List.nil_append, List.dropWhile_cons, if_neg (by simp [hc])]; rfl
  | cons d x ih =>
    rw [List.cons_append, List.dropWhile_cons, List.dropWhile_cons]
    split
    · exact ih
    · rfl

theorem rdropWhile_delim {p : UInt8 → Bool} {c : UInt8} (hc : p c = false) (x y : Bytes) :
    (x ++ c :: y).rdropWhile p = x ++ c :: y.rdropWhile p := by
  have h := dropWhile_delim hc y.reverse x.reverse
  rw [List.rdropWhile, List.reverse_append, List.reverse_cons, List.append_assoc,
    List.singleton_append, h, List.reverse_append, List.reverse_cons, List.reverse_reverse,
    List.append_assoc]
  rfl

/-- Trimming a line leaves a delimiter where it is. -/
theorem trimWhitespace_delim {c : UInt8} (hc : isSpace c = false) (x y : Bytes) :
    trimWhitespace (x ++ c :: y) = x.dropWhile isSpace ++ c :: y.rdropWhile isSpace := by
  rw [trimWhitespace, dropWhile_delim hc, rdropWhile_delim hc]

/-! ## What the parser does with a documented line -/

theorem isSpace_of_isBlank {c : UInt8} (h : isBlank c = true) : isSpace c = true :=
  (Bool.and_eq_true_iff.mp h).1

theorem isBlank_ne {c : UInt8} (h : isBlank c = true) :
    c ≠ 0 ∧ c ≠ carriageReturn ∧ c ≠ newline ∧ c ≠ charByte '=' := by
  refine ⟨?_, ?_, ?_, ?_⟩ <;>
  · rintro rfl
    exact absurd h (by decide)

theorem configLine_append_newline (s : Bytes) : configLine (s ++ [newline]) = configLine s := by
  rw [configLine, configLine, trimmedLine, trimmedLine, strBefore_append (by simp)]

theorem splitAtDelim_append {k v : Bytes} (hk : charByte '=' ∉ k) :
    splitAtDelim (k ++ charByte '=' :: v) = some (k, v) := by
  have hne : ∀ c ∈ k, (c != charByte '=') = true := by
    intro c hc
    simpa using ne_of_mem_of_not_mem hc hk
  unfold splitAtDelim
  rw [dropWhile_blanks hne (by simp), List.takeWhile_append_of_pos hne, List.takeWhile_cons,
    if_neg (by simp), List.append_nil]

/-- A line with a `=`: blanks, the key, blanks, and what comes after. -/
theorem configLine_delim {b k b' y : Bytes} (hb : ∀ c ∈ b, isSpace c = true) (hk : Trimmed k)
    (hne : k ≠ []) (hhash : charByte '#' ∉ k.head?) (hb' : ∀ c ∈ b', isSpace c = true)
    (heq : charByte '=' ∉ k ++ b')
    (hplain : ∀ c ∈ (b ++ k ++ b') ++ charByte '=' :: y,
      c ≠ 0 ∧ c ∉ [carriageReturn, newline]) :
    configLine ((b ++ k ++ b') ++ charByte '=' :: y) =
      match findMapping k with
      | none => .report (.unknownKey k)
      | some m => parseValue m k (trimWhitespace (y.rdropWhile isSpace)) := by
  obtain ⟨c, cs, rfl⟩ := List.exists_cons_of_ne_nil hne
  have htrim : trimmedLine ((b ++ c :: cs ++ b') ++ charByte '=' :: y) =
      (c :: cs ++ b') ++ charByte '=' :: y.rdropWhile isSpace := by
    rw [trimmedLine, strBefore_eq_self hplain, trimWhitespace_delim (by decide),
      List.append_assoc b, dropWhile_blanks hb]
    intro d hd
    exact hk.1 d (by simpa using hd)
  have hc : c ≠ charByte '#' := by
    rintro rfl
    exact hhash rfl
  have hset : configLine ((b ++ c :: cs ++ b') ++ charByte '=' :: y) =
      settingLine ((c :: cs ++ b') ++ charByte '=' :: y.rdropWhile isSpace) := by
    rw [configLine, htrim]
    exact if_neg hc
  rw [hset, settingLine, splitAtDelim_append heq]
  have hkey : trimWhitespace (c :: cs ++ b') = c :: cs := by
    have := trimWhitespace_blanks (b := []) (by simp) hk hb'
    rwa [List.nil_append] at this
  cases hfind : findMapping (c :: cs) with
  | none => simp only [hkey, hfind]
  | some m => simp only [hkey, hfind]

/-! ### Settings -/

/-- The keys are plain words. -/
theorem documentedKeys_plain : ∀ kf ∈ documentedKeys, lit kf.1 ≠ [] ∧
    ∀ c ∈ lit kf.1, c ≠ 0 ∧ c ≠ charByte '#' ∧ c ≠ charByte '=' ∧ isSpace c = false := by
  decide +kernel

/-- The table has all of them but one, and with the right field. -/
theorem findMapping_documented : ∀ kf ∈ documentedKeys,
    (findMapping (lit kf.1)).map ConfigMapping.field =
      if kf.1 = "keepalive_timeout" then none else some kf.2 := by
  decide +kernel

theorem ValidValue.trimmed {f : Field} {value : Bytes} (h : ValidValue f value) :
    Trimmed value := by
  cases f with
  | uint16 f =>
    have hd : ∀ c ∈ value, isSpace c = false := fun c hc => (isDigit_plain (h.2.1 c hc)).2.1
    exact ⟨fun c hc => hd c (List.mem_of_head? hc), fun c hc => hd c (List.mem_of_getLast? hc)⟩
  | string f => exact h.2.2.2
  | bool f => exact h.elim

theorem ValidValue.plain {f : Field} {value : Bytes} (h : ValidValue f value) :
    ∀ c ∈ value, c ≠ 0 ∧ c ∉ [carriageReturn, newline] := by
  intro c hc
  cases f with
  | uint16 f =>
    have hd := h.2.1 c hc
    refine ⟨?_, ?_⟩
    · rintro rfl
      exact absurd hd (by decide)
    · intro hmem
      rcases List.mem_pair.mp hmem with rfl | rfl
      · exact absurd hd (by decide)
      · exact absurd hd (by decide)
  | string f =>
    refine ⟨ne_of_mem_of_not_mem hc h.2.1, ?_⟩
    intro hmem
    rcases List.mem_pair.mp hmem with rfl | rfl
    · exact h.2.2.1.1 hc
    · exact h.2.2.1.2 hc
  | bool f => exact h.elim

/-- A valid value is accepted. -/
theorem parseValue_valid {m : ConfigMapping} (hm : m ∈ cfgMap) {key value : Bytes}
    (h : ValidValue m.field value) : parseValue m key value = .assign
      (match m.field with
        | .uint16 f => .uint16 f (.ofNat (digitsVal value))
        | .string f => .string f value
        | .bool f => .bool f false) := by
  unfold parseValue
  cases hf : m.field with
  | uint16 f =>
    rw [hf] at h
    have hmax := h.2.2
    have hr := strtol_of_numeral (.plain h.1 h.2.1) (by simp only [longMin]; omega)
      (by simp only [longMax]; omega)
    simp only [hr, UINT16_MAX]
    have hval : UInt16.ofInt (digitsVal value : ℤ) = .ofNat (digitsVal value) := by
      rw [UInt16.ofInt, Int.emod_eq_of_lt (by omega) (by omega), Int.toNat_natCast]
    rw [if_neg (by simp; omega), hval]
  | string f =>
    rw [hf] at h
    have hlen := h.1
    rw [← maxLen_eq_size m hm f hf] at hlen
    simp only [ge_iff_le, Nat.not_le.mpr hlen, if_false]
    rw [strncpy, cstr_eq_self h.2.1, List.take_of_length_le hlen.le]
  | bool f =>
    rw [hf] at h
    exact h.elim

theorem trimWhitespace_value {b v b' : Bytes} (hb : ∀ c ∈ b, isSpace c = true) (hv : Trimmed v)
    (hb' : ∀ c ∈ b', isSpace c = true) :
    trimWhitespace ((b ++ v ++ b').rdropWhile isSpace) = v := by
  by_cases hnil : v = []
  · subst hnil
    have hall : (b ++ [] ++ b').rdropWhile isSpace = [] := by
      rw [List.append_nil, List.rdropWhile_eq_nil_iff]
      exact List.forall_mem_append.mpr ⟨hb, hb'⟩
    rw [hall]
    rfl
  · have hlast : ∀ c ∈ (b ++ v).getLast?, isSpace c = false := by
      intro c hc
      rw [List.getLast?_append_of_ne_nil _ hnil] at hc
      exact hv.2 c hc
    have hnone : ∀ c ∈ ([] : Bytes), isSpace c = true := by simp
    rw [rdropWhile_blanks hlast hb', ← List.append_nil (b ++ v)]
    exact trimWhitespace_blanks hb hv hnone

namespace DocSetting

variable (s : DocSetting)

theorem blanks_space (i : Gap) : ∀ c ∈ s.blanks i, isSpace c = true :=
  fun c hc => isSpace_of_isBlank (s.blank i c hc)

theorem blanks_plain (i : Gap) :
    ∀ c ∈ s.blanks i, c ≠ 0 ∧ c ∉ [carriageReturn, newline] := by
  intro c hc
  have := isBlank_ne (s.blank i c hc)
  simp [this.1, this.2.1, this.2.2.1]

theorem key_plain : ∀ c ∈ lit s.key, c ≠ 0 ∧ c ∉ [carriageReturn, newline] := by
  intro c hc
  have hp := (documentedKeys_plain _ s.documented).2 c hc
  refine ⟨hp.1, ?_⟩
  intro hmem
  rcases List.mem_pair.mp hmem with rfl | rfl
  · exact absurd hp.2.2.2 (by decide)
  · exact absurd hp.2.2.2 (by decide)

theorem bytes_plain : ∀ c ∈ s.bytes, c ≠ 0 ∧ c ∉ [carriageReturn, newline] := by
  simp only [bytes, List.forall_mem_append, List.forall_mem_cons]
  exact ⟨⟨⟨s.blanks_plain .beforeKey, s.key_plain⟩, s.blanks_plain .afterKey⟩, by decide,
    ⟨s.blanks_plain .beforeValue, s.valid.plain⟩, s.blanks_plain .afterValue⟩

/-- **A documented setting is stored**, but for the one that the table does not have. -/
theorem configLine_bytes : configLine s.bytes =
    if s.key = "keepalive_timeout" then .report (.unknownKey (lit s.key))
    else .assign s.assignment := by
  obtain ⟨hne, hplain⟩ := documentedKeys_plain _ s.documented
  have htrim : Trimmed (lit s.key) :=
    ⟨fun c hc => (hplain c (List.mem_of_head? hc)).2.2.2,
      fun c hc => (hplain c (List.mem_of_getLast? hc)).2.2.2⟩
  have heq : charByte '=' ∉ lit s.key ++ s.blanks .afterKey := by
    intro h
    rcases List.mem_append.mp h with h | h
    · exact (hplain _ h).2.2.1 rfl
    · exact (isBlank_ne (s.blank .afterKey _ h)).2.2.2 rfl
  rw [bytes, configLine_delim (s.blanks_space .beforeKey) htrim hne
    (fun h => (hplain _ (List.mem_of_head? h)).2.1 rfl) (s.blanks_space .afterKey) heq
    s.bytes_plain,
    trimWhitespace_value (s.blanks_space .beforeValue) s.valid.trimmed (s.blanks_space .afterValue)]
  have hfind := findMapping_documented _ s.documented
  by_cases hkey : s.key = "keepalive_timeout"
  · rw [if_pos hkey, Option.map_eq_none_iff] at hfind
    rw [hfind, if_pos hkey]
  · rw [if_neg hkey, Option.map_eq_some_iff] at hfind
    obtain ⟨m, hm, hfield⟩ := hfind
    rw [hm, if_neg hkey]
    show parseValue m _ _ = _
    rw [parseValue_valid (List.mem_of_find?_eq_some hm) (hfield ▸ s.valid), hfield]
    rfl

end DocSetting

theorem DocLine.newline_not_mem (l : DocLine) : newline ∉ l.bytes := by
  cases l with
  | blank ws h => exact fun hm => (isBlank_ne (h _ hm)).2.2.1 rfl
  | comment ws text h ht =>
    intro hm
    rcases List.mem_append.mp hm with hm | hm
    · exact (isBlank_ne (h _ hm)).2.2.1 rfl
    · rcases List.mem_cons.mp hm with hm | hm
      · exact absurd hm (by decide)
      · exact ht hm
  | setting s => exact fun hm => (s.bytes_plain _ hm).2 (by simp)

/-- Blank lines and comments are skipped. -/
theorem DocLine.configLine_of_not_setting {l : DocLine} (h : l.setting? = none) :
    configLine l.bytes = .skip := by
  rw [configLine_eq_skip]
  cases l with
  | blank ws hws => simp [DocLine.bytes, List.dropWhile_eq_nil_iff.mpr hws]
  | comment ws text hws ht =>
    have hhash : ∀ c ∈ (charByte '#' :: text).head?, isBlank c = false ∧ endsLine c = true := by
      intro c hc
      obtain rfl := Option.some.inj hc
      decide
    rw [DocLine.bytes, dropWhile_blanks hws fun c hc => (hhash c hc).1]
    exact fun c hc => (hhash c hc).2
  | setting s => cases h

/-! ### The file -/

/-- What is done for some lines, without those that are skipped. -/
def acts (lines : List Bytes) : List LineAct := (lines.map configLine).filter (· ≠ .skip)

theorem acts_append (a b : List Bytes) : acts (a ++ b) = acts a ++ acts b := by
  simp [acts]

theorem assignments_eq_acts (lines : List Bytes) :
    assignments lines = (acts lines).filterMap LineAct.assignment := by
  induction lines with
  | nil => rfl
  | cons line lines ih =>
    rw [assignments_cons, ih, ← List.singleton_append, acts_append, List.filterMap_append]
    congr 1
    cases hl : configLine line <;> simp [acts, hl, LineAct.assignment]

theorem accepted_iff_acts {content : Bytes} :
    Accepted content ↔ ∀ a ∈ acts (fgetsAll lineSize lineSize content), a.error = none := by
  unfold Accepted acts
  constructor
  · intro h a ha
    obtain ⟨line, hl, rfl⟩ := List.mem_map.mp (List.mem_of_mem_filter ha)
    exact h line hl
  · intro h line hl
    by_cases hskip : configLine line = .skip
    · rw [hskip]
      rfl
    · exact h _ (List.mem_filter.mpr ⟨List.mem_map_of_mem hl, by simpa using hskip⟩)

/-- A short line is read like the line without its newline. -/
theorem acts_line {l : Bytes} (hnl : newline ∉ l) (hshort : l.length ≤ 1023) :
    acts (fgetsAll lineSize lineSize (l ++ [newline])) = acts [l] := by
  have hskip : configLine [newline] = .skip := by decide
  have hfit : l.length < lineSize := Nat.lt_succ_of_le hshort
  rw [fgetsAll_snoc_newline hnl hfit (by decide)]
  split
  · simp [acts, configLine_append_newline]
  · rw [← List.singleton_append, acts_append]
    simp [acts, hskip]

theorem acts_lastLine {l : Bytes} (hnl : newline ∉ l) (hshort : l.length ≤ 1023) :
    acts (fgetsAll lineSize lineSize l) = acts [l] := by
  by_cases hnil : l = []
  · subst hnil
    decide
  · have hfit : l.length < lineSize := Nat.lt_succ_of_le hshort
    rw [fgetsAll_eq_singleton hnl hnil hfit]

/-- The parser reads the lines of a documented file. -/
theorem DocFile.acts_bytes (file : DocFile) : acts (fgetsAll lineSize lineSize file.bytes) =
    acts ((file.lines ++ file.last.toList).map DocLine.bytes) := by
  obtain ⟨lines, last, hshort⟩ := file
  induction lines with
  | nil =>
    cases last with
    | none => rfl
    | some l => exact acts_lastLine l.newline_not_mem (hshort l (by simp))
  | cons l lines ih =>
    rw [List.cons_append, List.forall_mem_cons] at hshort
    have hfile : bytes ⟨l :: lines, last, by simpa using hshort⟩ =
        l.bytes ++ newline :: bytes ⟨lines, last, hshort.2⟩ := by
      simp [bytes]
    rw [hfile, fgetsAll_append l.newline_not_mem, acts_append, ih hshort.2,
      acts_line l.newline_not_mem hshort.1, ← acts_append]
    rfl

theorem acts_docLines (ls : List DocLine) : acts (ls.map DocLine.bytes) =
    (ls.filterMap DocLine.setting?).map fun s => configLine s.bytes := by
  induction ls with
  | nil => rfl
  | cons l ls ih =>
    rw [List.map_cons, ← List.singleton_append, acts_append, ih, List.filterMap_cons]
    cases hl : l.setting? with
    | none => simp [acts, l.configLine_of_not_setting hl]
    | some s =>
      cases l with
      | setting t =>
        obtain rfl := Option.some.inj hl
        have hne : configLine t.bytes ≠ .skip := by
          rw [t.configLine_bytes]
          split <;> simp
        simp [acts, DocLine.bytes, hne]
      | blank ws h => cases hl
      | comment ws text h ht => cases hl

theorem DocFile.acts_eq (file : DocFile) : acts (fgetsAll lineSize lineSize file.bytes) =
    file.settings.map fun s => configLine s.bytes :=
  file.acts_bytes.trans (acts_docLines _)

/-- A documented file is accepted unless it sets `keepalive_timeout`. -/
theorem DocFile.accepted_iff (file : DocFile) :
    Accepted file.bytes ↔ ∀ s ∈ file.settings, s.key ≠ "keepalive_timeout" := by
  rw [accepted_iff_acts, file.acts_eq, List.forall_mem_map]
  apply forall₂_congr
  intro s _
  rw [s.configLine_bytes]
  split
  · rename_i h
    simp [LineAct.error, h]
  · rename_i h
    simp [LineAct.error, h]

/-- Then the loop stores what the file says. -/
theorem DocFile.readConf_eq (file : DocFile) (ncpu : ℤ)
    (h : ∀ s ∈ file.settings, s.key ≠ "keepalive_timeout") :
    readConf file.bytes (loadConfigDefaults ncpu .zeroed) = file.configured ncpu := by
  have hassign : assignments (fgetsAll lineSize lineSize file.bytes) =
      file.settings.map DocSetting.assignment := by
    rw [assignments_eq_acts, file.acts_eq, List.filterMap_map]
    generalize file.settings = ss at h
    induction ss with
    | nil => rfl
    | cons s ss ih =>
      rw [List.forall_mem_cons] at h
      rw [List.filterMap_cons, List.map_cons, ← ih h.2]
      simp [s.configLine_bytes, h.1, LineAct.assignment]
  rw [readConf, hassign]
  rfl

/-! ## What the file comes to -/

theorem roundedQueueSize_iff {v : UInt16} :
    (roundedQueueSize v).toNat = roundUp v.toNat ↔ v.toNat ≤ 2 ^ 15 := by
  constructor
  · intro h
    apply one_le_roundedQueueSize.mp
    rw [h]
    exact roundUp_pos _
  · intro h
    rw [toNat_roundedQueueSize]
    by_cases h0 : v = 0
    · subst h0
      decide
    · rw [if_neg h0, if_pos h]

/-- The slash test is the wrong way round: only the empty path comes out right. -/
theorem stripLockPath_iff {path : Bytes} : stripLockPath path = withoutSlash path ↔ path = [] := by
  cases hlast : path.getLast? with
  | none =>
    have hnil := List.getLast?_eq_none_iff.mp hlast
    subst hnil
    exact iff_of_true rfl rfl
  | some c =>
    have hne : path ≠ [] := by
      rintro rfl
      cases hlast
    have hlen : path.dropLast.length ≠ path.length := by
      have := List.length_pos_iff.mpr hne
      rw [List.length_dropLast]
      omega
    refine iff_of_false ?_ hne
    unfold stripLockPath withoutSlash
    rw [hlast]
    intro h
    by_cases hc : c = charByte '/'
    · simp only [hc, ne_eq, not_true_eq_false, if_false, if_true] at h
      exact hlen (congrArg List.length h).symm
    · simp only [ne_eq, hc, not_false_eq_true, if_true, Option.some.injEq, if_false] at h
      exact hlen (congrArg List.length h)

/-- **No documented file means what it says**, because the path of the lock file never comes out
right. All else does, of a file that does not set `keepalive_timeout`, has no queue size beyond
`32768` and does not leave that path empty, where it is not defined what the server does. -/
theorem documented_never (ncpu : ℤ) (path : Bytes) (file : DocFile) :
    (¬ ∃ c, initConfigIn ncpu path file.bytes = some (.ok c) ∧ Holds (file.configured ncpu) c) ∧
    ((∃ c, initConfigIn ncpu path file.bytes = some (.ok c) ∧ ∀ kf ∈ documentedKeys,
        kf.2 ≠ .string .lockFilePath → HoldsField (file.configured ncpu) c kf.2) ↔
      (∀ s ∈ file.settings, s.key ≠ "keepalive_timeout") ∧
        (file.configured ncpu).logQueueSize.toNat ≤ 2 ^ 15 ∧
        (file.configured ncpu).connQueueSize.toNat ≤ 2 ^ 15 ∧
        (file.configured ncpu).lockFilePath ≠ []) := by
  have hread : ∀ c, initConfigIn ncpu path file.bytes = some (.ok c) ↔
      (∀ s ∈ file.settings, s.key ≠ "keepalive_timeout") ∧
        c = postProcess (file.configured ncpu) ∧ (file.configured ncpu).lockFilePath ≠ [] := by
    intro c
    rw [initConfigIn_eq_ok, initConfig_eq_ok, file.accepted_iff, and_assoc]
    refine and_congr_right fun hkeys => ?_
    rw [parsedConf, file.readConf_eq ncpu hkeys]
  constructor
  · rintro ⟨c, hc, hholds⟩
    obtain ⟨-, rfl, hne⟩ := (hread c).mp hc
    exact hne (stripLockPath_iff.mp (hholds ("lock_file_path", .string .lockFilePath) (by decide)))
  constructor
  · rintro ⟨c, hc, hholds⟩
    obtain ⟨hkeys, rfl, hne⟩ := (hread c).mp hc
    refine ⟨hkeys, ?_, ?_, hne⟩
    · exact roundedQueueSize_iff.mp
        (hholds ("log_queue_size", .uint16 .logQueueSize) (by decide) (by simp))
    · exact roundedQueueSize_iff.mp
        (hholds ("conn_queue_size", .uint16 .connQueueSize) (by decide) (by simp))
  · rintro ⟨hkeys, hlog, hconn, hne⟩
    refine ⟨_, (hread _).mpr ⟨hkeys, rfl, hne⟩, ?_⟩
    rintro ⟨key, f⟩ - hf
    cases f with
    | uint16 f =>
      cases f with
      | logQueueSize => exact roundedQueueSize_iff.mpr hlog
      | connQueueSize => exact roundedQueueSize_iff.mpr hconn
      | _ => rfl
    | string f =>
      cases f with
      | lockFilePath => exact absurd rfl hf
      | _ => rfl
    | bool f => cases f; rfl

/-! ## The file that comes with the program -/

/-- Its line for the keep-alive time. -/
def keepaliveLine : DocSetting where
  key := "keepalive_timeout"
  field := .uint16 .keepaliveTimeout
  documented := by decide
  value := lit "10"
  valid := ⟨by decide, by decide +kernel, by decide⟩
  blanks
    | .beforeKey | .afterValue => []
    | .afterKey | .beforeValue => lit " "
  blank := by
    intro i
    cases i <;> decide +kernel

def keepaliveFile : DocFile := ⟨[.setting keepaliveLine], none, by decide +kernel⟩

/-- A file that sets nothing. -/
def emptyFile : DocFile := ⟨[], none, by simp⟩

/-- The first is refused, and with the second the default path loses nothing of its end,
where the slash should go. -/
theorem documented_fails :
    initConfigIn 4 [] keepaliveFile.bytes =
        some (.error (.line 1 (.unknownKey (lit "keepalive_timeout")))) ∧
      initConfigIn 4 [] emptyFile.bytes =
        some (.ok (parsedConf emptyFile.bytes (loadConfigDefaults 4 .zeroed))) ∧
      (parsedConf emptyFile.bytes (loadConfigDefaults 4 .zeroed)).lockFilePath = lit "/var/run/" ∧
      withoutSlash (emptyFile.configured 4).lockFilePath = lit "/var/run" ∧
      ¬ ∃ c, initConfigIn 4 [] emptyFile.bytes = some (.ok c) ∧
        Holds (emptyFile.configured 4) c := by
  have hconf : initConfigIn 4 [] emptyFile.bytes =
      some (.ok (parsedConf emptyFile.bytes (loadConfigDefaults 4 .zeroed))) :=
    initConfigIn_eq_ok.mpr ⟨initConfig_eq_ok.mpr ⟨by decide +kernel, rfl⟩, by decide +kernel⟩
  have hpath : (parsedConf emptyFile.bytes (loadConfigDefaults 4 .zeroed)).lockFilePath =
      lit "/var/run/" := by decide +kernel
  have hdoc : withoutSlash (emptyFile.configured 4).lockFilePath = lit "/var/run" := by
    decide +kernel
  have hrefused : initConfig 4 [] (.ok keepaliveFile.bytes) =
      .error (.line 1 (.unknownKey (lit "keepalive_timeout"))) := by decide +kernel
  refine ⟨by rw [initConfigIn, hrefused], hconf, hpath, hdoc, ?_⟩
  rintro ⟨c, hc, hholds⟩
  obtain rfl := Except.ok.inj (Option.some.inj (hconf.symm.trans hc))
  have hlock := hholds ("lock_file_path", .string .lockFilePath) (by decide)
  exact absurd (hpath.symm.trans (hlock.trans hdoc)) (by decide)

end Celeritas
