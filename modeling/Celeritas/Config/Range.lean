import Celeritas.Config.Documented
import Celeritas.Config.Reload
import Celeritas.Config.Settings

/-!
# The configurations there can be

`ConfigData.Possible` says, in terms of a configuration alone, which ones a server can be
running with: what `init_config` makes of some file, or any number of reloads of whatever
files have made of that since (`inUse_iff`). Two fields cannot be set at all, three are
changed after the file has been read, and the strings are bounded twice, by their arrays and
by the buffer of the line.

For one direction every value is followed from the line it is on (`settable_of_configLine`);
for the other the configuration is written down, one line for each setting, and read back
(`readConf_fileFor`).
-/

set_option autoImplicit false

namespace Celeritas

open CLib Lib

/-- A value that a line of the file can give to the setting `key`. -/
def Assignment.Settable (key : String) : Assignment → Prop
  | .string f v => ValidValue (.string f) v ∧ (lit key).length + 1 + v.length ≤ 1023
  | _ => True

/-- A queue size that is stored. -/
def IsQueueSize (v : UInt16) : Prop := v = 0 ∨ ∃ k, v.toNat = 2 ^ k

/-- A lock file path that is stored: `lock_file_path=` and the value are at most 1023 bytes,
and the last character of the value is cut off unless it is a slash. -/
def IsLockPath (p : Bytes) : Prop :=
  0 ∉ p ∧ OneLine p ∧ (∀ c ∈ p.head?, isSpace c = false) ∧
    (p.length < 1008 ∨ p.length = 1008 ∧ p.getLast? = some (charByte '/'))

structure ConfigData.Possible (c : ConfigData) : Prop where
  keepaliveTimeout : c.keepaliveTimeout = 10
  serverTok : c.serverTok = lit "Celeritas/0.10.2"
  logQueueSize : IsQueueSize c.logQueueSize
  connQueueSize : IsQueueSize c.connQueueSize
  lockFilePath : IsLockPath c.lockFilePath
  settable : ∀ m ∈ cfgMap, m.field ≠ .string .lockFilePath → (c.current m.field).Settable m.key

/-- A configuration that can be in the memory when the file has been read. -/
structure ConfigData.Storable (c : ConfigData) : Prop where
  keepaliveTimeout : c.keepaliveTimeout = 10
  serverTok : c.serverTok = lit "Celeritas/0.10.2"
  settable : ∀ m ∈ cfgMap, (c.current m.field).Settable m.key

/-! ## The table -/

theorem cfgMap_plain : ∀ m ∈ cfgMap, lit m.key ≠ [] ∧ (lit m.key).length ≤ 18 ∧
    ∀ c ∈ lit m.key, c ≠ 0 ∧ c ≠ charByte '#' ∧ c ≠ charByte '=' ∧ isSpace c = false := by
  decide +kernel

theorem findMapping_key : ∀ m ∈ cfgMap, findMapping (lit m.key) = some m := by decide +kernel

/-- No two settings have the same field. -/
theorem eq_of_field_eq : ∀ m ∈ cfgMap, ∀ n ∈ cfgMap, m.field = n.field → m = n := by
  decide +kernel

/-- Two fields are not in the table. -/
theorem mem_cfgMap_field (f : Field) : (∃ m ∈ cfgMap, m.field = f) ∨
    f = .uint16 .keepaliveTimeout ∨ f = .string .serverTok := by
  cases f with
  | uint16 f => cases f <;> decide
  | string f => cases f <;> decide
  | bool f => cases f; decide

theorem field_current (c : ConfigData) (f : Field) : (c.current f).field = f := by
  cases f with
  | uint16 f => cases f <;> rfl
  | string f => cases f <;> rfl
  | bool f => cases f; rfl

/-! ## What has been read was on a line -/

theorem getLast_trimWhitespace (s : Bytes) :
    ∀ c ∈ (trimWhitespace s).getLast?, isSpace c = false := by
  intro c hc
  have hne : trimWhitespace s ≠ [] := by
    intro hnil
    rw [hnil] at hc
    cases hc
  rw [Option.mem_def, List.getLast?_eq_some_getLast hne] at hc
  obtain rfl := Option.some.inj hc
  exact Bool.eq_false_iff.mpr (List.rdropWhile_last_not isSpace (s.dropWhile isSpace) hne)

theorem oneLine_trimmedLine (line : Bytes) : OneLine (trimmedLine line) := by
  have hmem : ∀ c ∈ trimmedLine line, c ∉ [carriageReturn, newline] := by
    intro c hc
    have hp := List.mem_takeWhile_imp ((trimWhitespace_sublist _).subset hc)
    simpa using hp
  exact ⟨fun h => hmem _ h (by decide), fun h => hmem _ h (by decide)⟩

theorem length_of_splitAtDelim {s k v : Bytes} (h : splitAtDelim s = some (k, v)) :
    k.length + 1 + v.length = s.length := by
  unfold splitAtDelim at h
  split at h
  · cases h
  · rename_i c value hdrop
    obtain ⟨rfl, rfl⟩ := Prod.mk.inj (Option.some.inj h)
    have hparts := congrArg List.length (List.takeWhile_append_dropWhile
      (p := (· != charByte '=')) (l := s))
    rw [hdrop, List.length_append, List.length_cons] at hparts
    omega

theorem length_trimmedLine_le (line : Bytes) : (trimmedLine line).length ≤ line.length :=
  (trimWhitespace_sublist _).length_le.trans
    ((List.takeWhile_sublist _).length_le.trans (length_cstr_le line))

/-- A value that is stored, on a line that fits the buffer, can be set. -/
theorem settable_of_configLine {line : Bytes} (hlen : line.length ≤ 1023) {a : Assignment}
    (h : configLine line = .assign a) :
    ∃ m ∈ cfgMap, a.field = m.field ∧ a.Settable m.key := by
  cases hs : settingOf line with
  | none =>
    have hnone := assignment_of_settingOf_none hs
    rw [h] at hnone
    cases hnone
  | some mv =>
    obtain ⟨m, value⟩ := mv
    obtain ⟨hm, k, v, hsplit, hkey⟩ := settingOf_key hs
    obtain ⟨-, k', v', hsplit', -, hvalue⟩ := settingOf_eq_some.mp hs
    obtain ⟨rfl, rfl⟩ := Prod.mk.inj (Option.some.inj (hsplit.symm.trans hsplit'))
    rw [configLine_of_settingOf hs] at h
    refine ⟨m, hm, field_of_parseValue h, ?_⟩
    cases hf : m.field with
    | uint16 f =>
      have hfield := field_of_parseValue h
      cases a <;> first | trivial | simp [hf, Assignment.field] at hfield
    | bool f =>
      have hfield := field_of_parseValue h
      cases a <;> first | trivial | simp [hf, Assignment.field] at hfield
    | string f =>
      have hok : (parseValue m (lit m.key) value).error = none := by rw [h]; rfl
      have hstored := parseValue_string hf (settingOf_value hs).1 hok
      obtain rfl := LineAct.assign.inj (h.symm.trans hstored)
      have hsub : value ⊆ trimmedLine line := by
        rw [← hvalue]
        exact ((trimWhitespace_sublist v).trans (splitAtDelim_sublist hsplit).2).subset
      have hfit : value.length < f.size := parseValue_fits hm h
      have htrim : Trimmed value := by
        rw [← hvalue]
        exact ⟨head_trimWhitespace v, getLast_trimWhitespace v⟩
      refine ⟨⟨hfit, (settingOf_value hs).1, (oneLine_trimmedLine line).of_subset hsub, htrim⟩, ?_⟩
      -- the key, the delimiter and the value are parts of the line that do not overlap
      have hparts := length_of_splitAtDelim hsplit
      have hk := (trimWhitespace_sublist k).length_le
      have hv := (trimWhitespace_sublist v).length_le
      have hline := length_trimmedLine_le line
      rw [hkey] at hk
      rw [hvalue] at hv
      omega

/-- What a call of `fgets` stores fits its buffer. -/
theorem length_of_fgetsAll {size : ℕ} (hsize : 2 ≤ size) {file p : Bytes} {ps : List Bytes}
    {room : ℕ} (hroom : 2 ≤ room) (h : fgetsAll size room file = p :: ps) :
    p.length < room ∧ ∀ q ∈ ps, q.length < size := by
  induction file generalizing room p ps with
  | nil => cases h
  | cons c cs ih =>
    have hrest : ∀ q ∈ fgetsAll size size cs, q.length < size := by
      intro q hq
      cases hcs : fgetsAll size size cs with
      | nil =>
        rw [hcs] at hq
        cases hq
      | cons p' ps' =>
        have hi := ih hsize hcs
        rw [hcs] at hq
        rcases List.mem_cons.mp hq with rfl | hq
        · exact hi.1
        · exact hi.2 q hq
    rw [fgetsAll] at h
    split at h
    · obtain ⟨rfl, rfl⟩ := List.cons.inj h
      exact ⟨by simp only [List.length_singleton]; omega, hrest⟩
    · rename_i hmore
      rw [not_or] at hmore
      split at h
      · obtain ⟨rfl, rfl⟩ := List.cons.inj h
        exact ⟨by simp only [List.length_singleton]; omega, by simp⟩
      · rename_i piece pieces hcs
        obtain ⟨rfl, rfl⟩ := List.cons.inj h
        have hi := ih (by omega) hcs
        refine ⟨?_, hi.2⟩
        rw [List.length_cons]
        omega

theorem length_of_mem_fgetsAll {content p : Bytes} (h : p ∈ fgetsAll lineSize lineSize content) :
    p.length ≤ 1023 := by
  obtain ⟨q, qs, hq⟩ := List.exists_cons_of_ne_nil (List.ne_nil_of_mem h)
  have hlen := length_of_fgetsAll (by decide) (by decide) hq
  rw [hq] at h
  rcases List.mem_cons.mp h with rfl | h
  · exact Nat.le_of_lt_succ hlen.1
  · exact Nat.le_of_lt_succ (hlen.2 p h)

instance (key : String) : DecidablePred (Assignment.Settable key)
  | .uint16 _ _ => isTrue trivial
  | .string f v => inferInstanceAs (Decidable ((v.length < f.size ∧ 0 ∉ v ∧
      (charByte '\r' ∉ v ∧ charByte '\n' ∉ v) ∧
      (∀ c ∈ v.head?, isSpace c = false) ∧ ∀ c ∈ v.getLast?, isSpace c = false) ∧
      (lit key).length + 1 + v.length ≤ 1023))
  | .bool _ _ => isTrue trivial

theorem settable_defaults (ncpu : ℤ) (cd : ConfigData) :
    ∀ m ∈ cfgMap, ((loadConfigDefaults ncpu cd).current m.field).Settable m.key := by
  have hzeroed : ∀ m ∈ cfgMap, ((loadConfigDefaults 0 .zeroed).current m.field).Settable m.key := by
    decide +kernel
  intro m hm
  have hm0 := hzeroed m hm
  cases hf : m.field with
  | uint16 f => cases f <;> trivial
  | bool f => cases f; trivial
  | string f =>
    rw [hf] at hm0
    cases f <;> exact hm0

/-- **Whatever the file holds and the memory held**, what the loop leaves behind is storable. -/
theorem storable_readConf (content : Bytes) (ncpu : ℤ) (cd : ConfigData) :
    (readConf content (loadConfigDefaults ncpu cd)).Storable := by
  have hset : ∀ a ∈ assignments (fgetsAll lineSize lineSize content),
      ∃ m ∈ cfgMap, a.field = m.field ∧ a.Settable m.key := by
    intro a ha
    obtain ⟨line, hline, ha⟩ := List.mem_filterMap.mp ha
    cases hl : configLine line with
    | assign b =>
      rw [hl] at ha
      cases ha
      exact settable_of_configLine (length_of_mem_fgetsAll hline) hl
    | skip => simp [hl, LineAct.assignment] at ha
    | report e => simp [hl, LineAct.assignment] at ha
  have hkept : ∀ f, (∀ m ∈ cfgMap, m.field ≠ f) →
      (readConf content (loadConfigDefaults ncpu cd)).current f =
        (loadConfigDefaults ncpu cd).current f := by
    intro f hf
    have hnone : lastFor f (assignments (fgetsAll lineSize lineSize content)) = none := by
      rw [lastFor_eq_none]
      intro a ha haf
      obtain ⟨m, hm, hfield, -⟩ := hset a ha
      exact hf m hm (hfield.symm.trans haf)
    rw [readConf, ConfigData.current_foldl_assign, hnone, Option.getD_none]
  refine ⟨?_, ?_, ?_⟩
  · exact (Assignment.uint16.inj (hkept (.uint16 .keepaliveTimeout) (by decide))).2
  · exact (Assignment.string.inj (hkept (.string .serverTok) (by decide))).2
  · intro m hm
    rw [readConf, ConfigData.current_foldl_assign]
    cases hl : lastFor m.field (assignments (fgetsAll lineSize lineSize content)) with
    | none => exact settable_defaults ncpu cd m hm
    | some a =>
      obtain ⟨ha, hfield⟩ := lastFor_mem hl
      obtain ⟨n, hn, hfield', hs⟩ := hset a ha
      obtain rfl := eq_of_field_eq m hm n hn (hfield.symm.trans hfield')
      exact hs

/-! ## What can be read can be written -/

def valueText : Assignment → Bytes
  | .uint16 _ v => decimalNat v.toNat
  | .string _ v => v
  | .bool _ v => if v then lit "true" else lit "false"

def lineFor (c : ConfigData) (m : ConfigMapping) : Bytes :=
  lit m.key ++ charByte '=' :: valueText (c.current m.field)

/-- One line for each setting. -/
def fileFor (c : ConfigData) : Bytes := cfgMap.flatMap fun m => lineFor c m ++ [newline]

theorem validValue_decimalNat (f : Uint16Field) (v : UInt16) :
    ValidValue (.uint16 f) (decimalNat v.toNat) := by
  refine ⟨decimalNat_ne_nil _, fun c hc => isDigit_decimalNat hc, ?_⟩
  rw [digitsVal_decimalNat]
  exact v.toNat_lt

/-- The text of a value is read as the value. -/
theorem parseValue_valueText {m : ConfigMapping} (hm : m ∈ cfgMap) (key : Bytes) {a : Assignment}
    (hfield : a.field = m.field) (ha : a.Settable m.key) :
    parseValue m key (valueText a) = .assign a := by
  cases a with
  | uint16 f v =>
    have hf : m.field = .uint16 f := hfield.symm
    have hv := validValue_decimalNat f v
    rw [← hf] at hv
    rw [valueText, parseValue_valid hm hv, hf]
    simp only [digitsVal_decimalNat, UInt16.ofNat_toNat]
  | string f v =>
    have hf : m.field = .string f := hfield.symm
    have hv := ha.1
    rw [← hf] at hv
    rw [valueText, parseValue_valid hm hv, hf]
  | bool f v =>
    have hf : m.field = .bool f := hfield.symm
    unfold parseValue
    rw [hf]
    cases v <;> rfl

theorem not_isSpace_of_mem_some {a : UInt8} (h : isSpace a = false) :
    ∀ c ∈ some a, isSpace c = false := by
  intro c hc
  obtain rfl := Option.some.inj hc
  exact h

theorem trimmed_of_ends {s : Bytes} {a b : UInt8} (hhead : s.head? = some a)
    (hlast : s.getLast? = some b) (ha : isSpace a = false) (hb : isSpace b = false) : Trimmed s :=
  ⟨hhead ▸ not_isSpace_of_mem_some ha, hlast ▸ not_isSpace_of_mem_some hb⟩

/-- It is a text without blanks at its ends, on one line that fits the buffer. -/
theorem valueText_plain {key : String} {a : Assignment} (ha : a.Settable key)
    (hkey : (lit key).length ≤ 18) :
    Trimmed (valueText a) ∧ (∀ c ∈ valueText a, c ≠ 0 ∧ c ∉ [carriageReturn, newline]) ∧
      (lit key).length + 1 + (valueText a).length ≤ 1023 := by
  cases a with
  | uint16 f v =>
    have hv := validValue_decimalNat f v
    have hlen : (decimalNat v.toNat).length ≤ 5 := by
      rw [decimalNat, List.length_map]
      exact (Nat.length_toDigits_le_iff (by decide) (by decide)).mpr (by have := v.toNat_lt; omega)
    exact ⟨hv.trimmed, hv.plain, by rw [valueText]; omega⟩
  | string f v => exact ⟨ha.1.trimmed, ha.1.plain, ha.2⟩
  | bool f v =>
    cases f
    cases v with
    | false =>
      have hlen : (valueText (.bool .dirListing false)).length = 5 := rfl
      exact ⟨trimmed_of_ends rfl rfl rfl rfl, forall_mem_of_all (by decide), by omega⟩
    | true =>
      have hlen : (valueText (.bool .dirListing true)).length = 4 := rfl
      exact ⟨trimmed_of_ends rfl rfl rfl rfl, forall_mem_of_all (by decide), by omega⟩

variable {c : ConfigData} {m : ConfigMapping}

theorem lineFor_plain (hm : m ∈ cfgMap) (h : (c.current m.field).Settable m.key) :
    ∀ b ∈ lineFor c m, b ≠ 0 ∧ b ∉ [carriageReturn, newline] := by
  obtain ⟨-, hkey, hplain⟩ := cfgMap_plain m hm
  unfold lineFor
  rw [List.forall_mem_append, List.forall_mem_cons]
  refine ⟨?_, by decide, (valueText_plain h hkey).2.1⟩
  intro b hb
  obtain ⟨h0, -, -, hspace⟩ := hplain b hb
  refine ⟨h0, ?_⟩
  intro hmem
  rcases List.mem_pair.mp hmem with rfl | rfl
  · exact absurd hspace (by decide)
  · exact absurd hspace (by decide)

/-- **A line that is written is read.** -/
theorem configLine_lineFor (hm : m ∈ cfgMap) (h : (c.current m.field).Settable m.key) :
    configLine (lineFor c m) = .assign (c.current m.field) := by
  obtain ⟨hne, hkey, hplain⟩ := cfgMap_plain m hm
  have hline := lineFor_plain hm h
  have hnone : ∀ b ∈ ([] : Bytes), isSpace b = true := by simp
  have hkeyTrimmed : Trimmed (lit m.key) :=
    ⟨fun b hb => (hplain b (List.mem_of_head? hb)).2.2.2,
      fun b hb => (hplain b (List.mem_of_getLast? hb)).2.2.2⟩
  have hdelim := configLine_delim (y := valueText (c.current m.field)) hnone hkeyTrimmed hne
    (fun hb => (hplain _ (List.mem_of_head? hb)).2.1 rfl) hnone
    (by
      rw [List.append_nil]
      exact fun hb => (hplain _ hb).2.2.1 rfl)
    (by simpa [lineFor] using hline)
  have hvalue := trimWhitespace_value hnone (valueText_plain h hkey).1 hnone
  simp only [List.nil_append, List.append_nil] at hdelim hvalue
  rw [lineFor, hdelim, findMapping_key m hm]
  simp only [hvalue]
  exact parseValue_valueText hm _ (field_current c m.field) h

/-- So is a file of such lines, in their order. -/
theorem acts_lines {ms : List ConfigMapping} (hms : ∀ m ∈ ms, m ∈ cfgMap)
    (h : ∀ m ∈ ms, (c.current m.field).Settable m.key) :
    acts (fgetsAll lineSize lineSize (ms.flatMap fun m => lineFor c m ++ [newline])) =
      ms.map fun m => .assign (c.current m.field) := by
  induction ms with
  | nil => rfl
  | cons m ms ih =>
    rw [List.forall_mem_cons] at hms h
    have hkey := (cfgMap_plain m hms.1).2.1
    have hnl : newline ∉ lineFor c m := by
      intro hmem
      exact (lineFor_plain hms.1 h.1 _ hmem).2 (by simp)
    have hlen : (lineFor c m).length ≤ 1023 := by
      have hfit := (valueText_plain h.1 hkey).2.2
      rw [lineFor, List.length_append, List.length_cons]
      omega
    rw [List.flatMap_cons, List.append_assoc, List.singleton_append, fgetsAll_append hnl,
      acts_append, acts_line hnl hlen, ih hms.2 h.2, List.map_cons]
    simp [acts, configLine_lineFor hms.1 h.1]

/-- The last store to a field of the table is what the configuration has there. -/
theorem lastFor_current (c : ConfigData) (f : Field) :
    lastFor f (cfgMap.map fun m => c.current m.field) = some (c.current f) ∨
      (lastFor f (cfgMap.map fun m => c.current m.field) = none ∧
        (f = .uint16 .keepaliveTimeout ∨ f = .string .serverTok)) := by
  cases hl : lastFor f (cfgMap.map fun m => c.current m.field) with
  | some a =>
    obtain ⟨ha, hfield⟩ := lastFor_mem hl
    obtain ⟨m, -, rfl⟩ := List.mem_map.mp ha
    rw [field_current] at hfield
    rw [hfield]
    exact .inl rfl
  | none =>
    refine .inr ⟨rfl, ?_⟩
    rcases mem_cfgMap_field f with ⟨m, hm, hf⟩ | hf
    · exact absurd ((field_current c m.field).trans hf)
        (lastFor_eq_none.mp hl _ (List.mem_map_of_mem hm))
    · exact hf

/-- **A storable configuration is what its file is read as**, and the file is accepted. -/
theorem readConf_fileFor (h : c.Storable) (ncpu : ℤ) :
    Accepted (fileFor c) ∧ readConf (fileFor c) (loadConfigDefaults ncpu .zeroed) = c := by
  have hacts : acts (fgetsAll lineSize lineSize (fileFor c)) =
      cfgMap.map fun m => .assign (c.current m.field) := acts_lines (fun _ hm => hm) h.settable
  refine ⟨?_, ?_⟩
  · rw [accepted_iff_acts, hacts, List.forall_mem_map]
    exact fun _ _ => rfl
  · have hassign : assignments (fgetsAll lineSize lineSize (fileFor c)) =
        cfgMap.map fun m => c.current m.field := by
      rw [assignments_eq_acts, hacts, List.filterMap_map]
      exact congrFun List.filterMap_eq_map cfgMap
    apply ConfigData.ext_current
    intro f
    rw [readConf, ConfigData.current_foldl_assign, hassign]
    rcases lastFor_current c f with hl | ⟨hl, rfl | rfl⟩
    · rw [hl, Option.getD_some]
    · rw [hl]
      exact congrArg (Assignment.uint16 .keepaliveTimeout) h.keepaliveTimeout.symm
    · rw [hl]
      exact congrArg (Assignment.string .serverTok) h.serverTok.symm

/-! ## What is done with the values afterwards -/

theorem isQueueSize_iff {v : UInt16} : IsQueueSize v ↔ ∃ w, roundedQueueSize w = v := by
  constructor
  · rintro (rfl | ⟨k, hk⟩)
    · exact ⟨65535, by decide⟩
    · -- a power of two is not changed
      have hlt : 2 ^ k < 2 ^ 16 := hk ▸ v.toNat_lt
      have hk15 : k ≤ 15 := Nat.le_of_lt_succ ((Nat.pow_lt_pow_iff_right (by decide)).mp hlt)
      have hmax : v.toNat ≤ 2 ^ 15 := by
        rw [hk]
        exact Nat.pow_le_pow_right (by decide) hk15
      have h0 : v ≠ 0 := by
        rintro rfl
        exact (Nat.two_pow_pos k).ne hk
      refine ⟨v, UInt16.toNat_inj.mp ?_⟩
      rw [toNat_roundedQueueSize, if_neg h0, if_pos hmax, hk, roundUp,
        Nat.clog_pow 2 k Nat.one_lt_two]
  · rintro ⟨w, rfl⟩
    by_cases hmax : w.toNat ≤ 2 ^ 15
    · exact .inr (roundedQueueSize_pow hmax).1
    · left
      have h0 : w ≠ 0 := by
        rintro rfl
        exact hmax (Nat.zero_le _)
      rw [← UInt16.toNat_inj, toNat_roundedQueueSize, if_neg h0, if_neg hmax]
      rfl

theorem head_of_prefix {p q : Bytes} (h : p <+: q) (hq : ∀ c ∈ q.head?, isSpace c = false) :
    ∀ c ∈ p.head?, isSpace c = false := by
  obtain ⟨t, rfl⟩ := h
  intro c hc
  exact hq c (by rw [List.head?_append, hc]; rfl)

theorem isLockPath_iff {p : Bytes} : IsLockPath p ↔
    ∃ q, (Assignment.string .lockFilePath q).Settable "lock_file_path" ∧ stripLockPath q = p := by
  have hkey : (lit "lock_file_path").length = 14 := by decide
  have hsize : 1008 < StringField.lockFilePath.size := by decide
  constructor
  · rintro ⟨h0, hline, hhead, hlen⟩
    by_cases hslash : p.getLast? = some (charByte '/')
    · have htrim : Trimmed p := by
        refine ⟨hhead, ?_⟩
        rw [hslash]
        exact not_isSpace_of_mem_some rfl
      have hfit : p.length ≤ 1008 := by
        rcases hlen with hlen | ⟨hlen, -⟩
        · exact hlen.le
        · exact hlen.le
      have hroom : (lit "lock_file_path").length + 1 + p.length ≤ 1023 := by omega
      refine ⟨p, ⟨⟨hfit.trans_lt hsize, h0, hline, htrim⟩, hroom⟩, ?_⟩
      rw [stripLockPath, hslash]
      rfl
    · -- any character but a slash and a blank can follow
      have hlast : (p ++ [charByte 'x']).getLast? = some (charByte 'x') := List.getLast?_concat
      have htrim : Trimmed (p ++ [charByte 'x']) := by
        refine ⟨?_, hlast ▸ not_isSpace_of_mem_some rfl⟩
        cases p with
        | nil => exact not_isSpace_of_mem_some rfl
        | cons c cs => exact hhead
      have hlen' : p.length < 1008 := by
        rcases hlen with hlen | ⟨-, h⟩
        · exact hlen
        · exact absurd h hslash
      refine ⟨p ++ [charByte 'x'], ⟨⟨?_, ?_, hline.snoc (by decide), htrim⟩, ?_⟩, ?_⟩
      · rw [List.length_append, List.length_singleton]
        omega
      · simpa [h0] using (by decide : (0 : UInt8) ≠ charByte 'x')
      · rw [List.length_append, List.length_singleton]
        omega
      · rw [stripLockPath, hlast]
        exact (if_pos (by decide)).trans (List.dropLast_concat)
  · rintro ⟨q, ⟨⟨-, h0, hline, hhead, -⟩, hlen⟩, rfl⟩
    rw [stripLockPath]
    split
    · rename_i hnil
      rw [List.getLast?_eq_none_iff] at hnil
      subst hnil
      exact ⟨h0, hline, hhead, .inl (by decide)⟩
    · rename_i c hc
      split
      · have hsub : q.dropLast ⊆ q := (List.dropLast_sublist q).subset
        have hpos : 0 < q.length := by
          cases q with
          | nil => cases hc
          | cons d ds => exact Nat.succ_pos _
        refine ⟨fun h => h0 (hsub h), hline.of_subset hsub,
          head_of_prefix (List.dropLast_prefix q) hhead, .inl ?_⟩
        rw [List.length_dropLast]
        omega
      · rename_i hslash
        rw [not_not] at hslash
        have hfit : q.length ≤ 1008 := by omega
        refine ⟨h0, hline, hhead, ?_⟩
        rw [hc, hslash]
        exact hfit.lt_or_eq.imp_right fun hlen => ⟨hlen, rfl⟩

/-- **Of the fields that are changed afterwards** each takes the values its predicate says. -/
theorem possible_iff_postProcess :
    c.Possible ↔ ∃ read : ConfigData, read.Storable ∧ postProcess read = c := by
  constructor
  · intro h
    obtain ⟨v, hv⟩ := isQueueSize_iff.mp h.logQueueSize
    obtain ⟨w, hw⟩ := isQueueSize_iff.mp h.connQueueSize
    obtain ⟨q, hq, hstrip⟩ := isLockPath_iff.mp h.lockFilePath
    refine ⟨{ c with logQueueSize := v, connQueueSize := w, lockFilePath := q },
      ⟨h.keepaliveTimeout, h.serverTok, ?_⟩, ?_⟩
    · intro m hm
      cases hf : m.field with
      | uint16 f => cases f <;> trivial
      | bool f => cases f; trivial
      | string f =>
        have hset := h.settable m hm
        rw [hf] at hset
        cases f with
        | lockFilePath =>
          have hkey : ∀ m ∈ cfgMap, m.field = .string .lockFilePath → m.key = "lock_file_path" := by
            decide
          rw [hkey m hm hf]
          exact hq
        | _ => exact hset (by simp)
    · rw [postProcess, hv, hw, hstrip]
  · rintro ⟨read, h, rfl⟩
    refine ⟨h.keepaliveTimeout, h.serverTok, isQueueSize_iff.mpr ⟨_, rfl⟩,
      isQueueSize_iff.mpr ⟨_, rfl⟩, isLockPath_iff.mpr ⟨_, ?_, rfl⟩, ?_⟩
    · exact h.settable { key := "lock_file_path", field := .string .lockFilePath, maxLen := PATH_MAX }
        (by decide)
    · intro m hm hne
      have hset := h.settable m hm
      rw [current_postProcess]
      cases hf : m.field with
      | uint16 f => cases f <;> trivial
      | bool f => cases f; trivial
      | string f =>
        rw [hf] at hset hne
        cases f with
        | lockFilePath => exact absurd rfl hne
        | _ => exact hset

/-! ## What can be in use -/

/-- Startup makes the possible configurations, and no others. -/
theorem initConfig_range (ncpu : ℤ) (path : Bytes) :
    (∃ content, initConfig ncpu path (.ok content) = .ok c) ↔ c.Possible := by
  rw [possible_iff_postProcess]
  constructor
  · rintro ⟨content, hc⟩
    obtain ⟨-, rfl⟩ := initConfig_eq_ok.mp hc
    exact ⟨_, storable_readConf content ncpu .zeroed, rfl⟩
  · rintro ⟨read, h, rfl⟩
    obtain ⟨haccepted, hread⟩ := readConf_fileFor h ncpu
    exact ⟨fileFor read, initConfig_eq_ok.mpr ⟨haccepted, by rw [parsedConf, hread]⟩⟩

/-- A reload leaves a possible configuration in use. -/
theorem ReloadState.possible_step {path : Bytes} {s s' : ReloadState} {r : Sighup}
    (h : s.confData.Possible) (hs : s.step path r = some s') : s'.confData.Possible := by
  obtain rfl := Option.some.inj hs
  cases hmem : r.mem with
  | none => exact h
  | some mem =>
    cases hfile : r.fopen path with
    | error e => exact h
    | ok content =>
      rw [reloadConfiguration_ok]
      exact possible_iff_postProcess.mpr ⟨_, storable_readConf content r.ncpu mem, rfl⟩

/-- **The configurations that a server can be running with** are the possible ones: after a
startup with some file, and any number of reloads, each with the files and the processors there
are by then and the memory it happens to get, if any. -/
theorem inUse_iff (ncpu : ℤ) (path : Bytes) (c : ConfigData) :
    (∃ content started rs s, initConfig ncpu path (.ok content) = .ok started ∧
      run (ReloadState.step path) ⟨started, [], []⟩ rs = some s ∧ s.confData = c) ↔
      c.Possible := by
  constructor
  · rintro ⟨content, started, rs, s, hstart, hrun, rfl⟩
    have hp : started.Possible := (initConfig_range ncpu path).mp ⟨content, hstart⟩
    have hinv : Along (ReloadState.step path) (fun s => s.confData.Possible)
        ⟨started, [], []⟩ rs := along_of_inv (fun _ _ _ => ReloadState.possible_step) rs hp
    exact hinv.last hrun
  · intro h
    obtain ⟨content, hstart⟩ := (initConfig_range ncpu path).mpr h
    exact ⟨content, c, [], _, hstart, rfl, rfl⟩

end Celeritas
