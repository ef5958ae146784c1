import Celeritas.Config.Lines

/-!
# What a line sets

A line of the file that is for a setting of the table, with the value it gives it: what the
loop does with the line depends on these two alone (`configLine_of_settingOf`).

For a number that is a question about `strtol`: the error number, the end pointer and the
value have to be right at once. They are for numerals of 16 bits and for nothing else, but
for the empty value, in which `strtol` finds no digits and reports no error
(`takesNumerals_iff`).
-/

set_option autoImplicit false

namespace Celeritas

open CLib

/-! ## The setting of a line -/

/-- The setting in the table that a line is for, and the value the line gives it. -/
def settingOf (line : Bytes) : Option (ConfigMapping × Bytes) :=
  if (trimmedLine line).head? = some (charByte '#') then none
  else
    (splitAtDelim (trimmedLine line)).bind fun kv =>
      (findMapping (trimWhitespace kv.1)).map fun m => (m, trimWhitespace kv.2)

theorem settingOf_eq_some {line value : Bytes} {m : ConfigMapping} :
    settingOf line = some (m, value) ↔ (trimmedLine line).head? ≠ some (charByte '#') ∧
      ∃ k v, splitAtDelim (trimmedLine line) = some (k, v) ∧
        findMapping (trimWhitespace k) = some m ∧ trimWhitespace v = value := by
  unfold settingOf
  by_cases hhash : (trimmedLine line).head? = some (charByte '#')
  · simp [hhash]
  · simp [hhash, Option.bind_eq_some_iff, Option.map_eq_some_iff, Prod.exists]

theorem trimWhitespace_sublist (s : Bytes) : (trimWhitespace s).Sublist s :=
  (List.rdropWhile_prefix _ _).sublist.trans (List.dropWhile_sublist _)

theorem splitAtDelim_sublist {s k v : Bytes} (h : splitAtDelim s = some (k, v)) :
    k.Sublist s ∧ v.Sublist s := by
  unfold splitAtDelim at h
  split at h
  · cases h
  · rename_i c value hdrop
    obtain ⟨rfl, rfl⟩ := Prod.mk.inj (Option.some.inj h)
    refine ⟨List.takeWhile_sublist _, ?_⟩
    have htail : value.Sublist (c :: value) := List.sublist_cons_self _ _
    exact htail.trans (hdrop ▸ List.dropWhile_sublist _)

/-- A line is a C string. -/
theorem zero_not_mem_trimmedLine (line : Bytes) : 0 ∉ trimmedLine line := by
  intro h
  have hmem := (trimWhitespace_sublist _).subset h
  exact zero_not_mem_cstr line ((List.takeWhile_sublist _).subset hmem)

/-- Trimming leaves no blank in front. -/
theorem head_trimWhitespace (s : Bytes) : ∀ c ∈ (trimWhitespace s).head?, isSpace c = false := by
  intro c hc
  rw [trimWhitespace_head, Option.mem_def] at hc
  have hnot := List.head?_dropWhile_not isSpace s
  rw [hc] at hnot
  simpa using hnot

/-- What is known of the value of a line. -/
theorem settingOf_value {line value : Bytes} {m : ConfigMapping}
    (h : settingOf line = some (m, value)) :
    0 ∉ value ∧ ∀ c ∈ value.head?, isSpace c = false := by
  obtain ⟨-, k, v, hsplit, -, rfl⟩ := settingOf_eq_some.mp h
  refine ⟨fun h0 => ?_, head_trimWhitespace v⟩
  have hmem := (splitAtDelim_sublist hsplit).2.subset ((trimWhitespace_sublist v).subset h0)
  exact zero_not_mem_trimmedLine line hmem

/-- The setting is the one of that name. -/
theorem settingOf_key {line value : Bytes} {m : ConfigMapping}
    (h : settingOf line = some (m, value)) :
    m ∈ cfgMap ∧ ∃ k v, splitAtDelim (trimmedLine line) = some (k, v) ∧
      trimWhitespace k = lit m.key := by
  obtain ⟨-, k, v, hsplit, hfind, -⟩ := settingOf_eq_some.mp h
  have hmem := List.mem_of_find?_eq_some hfind
  have h0 : 0 ∉ trimWhitespace k := fun h0 => zero_not_mem_trimmedLine line
    ((splitAtDelim_sublist hsplit).1.subset ((trimWhitespace_sublist k).subset h0))
  have hkey : ∀ m ∈ cfgMap, cstr (lit m.key) = lit m.key := by decide +kernel
  have heq := List.find?_some hfind
  rw [strcmpEq, beq_iff_eq, cstr_eq_self h0, hkey m hmem] at heq
  exact ⟨hmem, k, v, hsplit, heq⟩

/-- **What is done with the line** is what the setting's type makes of the value. -/
theorem configLine_of_settingOf {line value : Bytes} {m : ConfigMapping}
    (h : settingOf line = some (m, value)) :
    configLine line = parseValue m (lit m.key) value := by
  obtain ⟨hhash, k, v, hsplit, hfind, rfl⟩ := settingOf_eq_some.mp h
  obtain ⟨-, k', v', hsplit', hkey⟩ := settingOf_key h
  obtain ⟨rfl, rfl⟩ := Prod.mk.inj (Option.some.inj (hsplit.symm.trans hsplit'))
  cases hline : trimmedLine line with
  | nil =>
    rw [hline] at hsplit
    cases hsplit
  | cons c cs =>
    have hc : c ≠ charByte '#' := fun hc => hhash (by rw [hline, hc]; rfl)
    rw [hline] at hsplit
    rw [configLine, hline]
    simp only [hc, if_false, settingLine, hsplit, hfind]
    rw [hkey]

/-- A line without a setting stores nothing. -/
theorem assignment_of_settingOf_none {line : Bytes} (h : settingOf line = none) :
    (configLine line).assignment = none := by
  unfold settingOf at h
  unfold configLine
  cases hline : trimmedLine line with
  | nil => rfl
  | cons c cs =>
    rw [hline] at h
    by_cases hc : c = charByte '#'
    · simp [hc, LineAct.assignment]
    · simp only [List.head?_cons, Option.some.injEq, hc, if_false] at h ⊢
      unfold settingLine
      cases hsplit : splitAtDelim (c :: cs) with
      | none => rfl
      | some kv =>
        rw [hsplit, Option.bind_some, Option.map_eq_none_iff] at h
        simp only [h]
        rfl

/-! ## The last value of a field -/

/-- What a line gives to a field. -/
def valueFor (f : Field) (line : Bytes) : Option Bytes :=
  (settingOf line).bind fun s => if s.1.field = f then some s.2 else none

/-- The last value that is given to it. -/
def lastValue (f : Field) (lines : List Bytes) : Option Bytes :=
  (lines.filterMap (valueFor f)).getLast?

theorem lastValue_cons (f : Field) (line : Bytes) (lines : List Bytes) :
    lastValue f (line :: lines) = (lastValue f lines).or (valueFor f line) := by
  unfold lastValue
  rw [List.filterMap_cons]
  cases valueFor f line with
  | none => rw [Option.or_none]
  | some v =>
    rw [List.getLast?_cons]
    cases (lines.filterMap (valueFor f)).getLast? <;> rfl

/-- What is given is a C string. -/
theorem zero_not_mem_lastValue {f : Field} {lines : List Bytes} {v : Bytes}
    (h : lastValue f lines = some v) : 0 ∉ v := by
  obtain ⟨line, -, hline⟩ := List.mem_filterMap.mp (List.mem_of_getLast? h)
  obtain ⟨⟨m, value⟩, hs, hv⟩ := Option.bind_eq_some_iff.mp hline
  split_ifs at hv
  obtain rfl := Option.some.inj hv
  exact (settingOf_value hs).1

theorem field_of_parseValue {m : ConfigMapping} {key value : Bytes} {a : Assignment}
    (h : parseValue m key value = .assign a) : a.field = m.field := by
  unfold parseValue at h
  cases hf : m.field with
  | string f =>
    simp only [hf] at h
    split_ifs at h
    cases h
    rfl
  | uint16 f =>
    simp only [hf] at h
    split_ifs at h
    cases h
    rfl
  | bool f =>
    simp only [hf] at h
    split_ifs at h
    · cases h
      rfl
    · cases h
      rfl

/-- A string that is not reported is stored as it is. -/
theorem parseValue_string {m : ConfigMapping} {f : StringField} (hf : m.field = .string f)
    {key value : Bytes} (h0 : 0 ∉ value) (hok : (parseValue m key value).error = none) :
    parseValue m key value = .assign (.string f value) := by
  unfold parseValue at hok ⊢
  simp only [hf] at hok ⊢
  split_ifs at hok ⊢ with hlen
  · cases hok
  · rw [strncpy, cstr_eq_self h0, List.take_of_length_le (Nat.not_le.mp hlen).le]

/-- What a line that is not reported stores in a string. -/
theorem assignment_eq_valueFor {line : Bytes} (hok : (configLine line).error = none)
    (f : StringField) : (configLine line).assignment.filter (·.field = .string f) =
      (valueFor (.string f) line).map (.string f) := by
  cases hs : settingOf line with
  | none => rw [assignment_of_settingOf_none hs, valueFor, hs]; rfl
  | some s =>
    obtain ⟨m, value⟩ := s
    rw [valueFor, hs, Option.bind_some]
    rw [configLine_of_settingOf hs] at hok ⊢
    by_cases hf : m.field = .string f
    · rw [parseValue_string hf (settingOf_value hs).1 hok, if_pos hf]
      simp [LineAct.assignment, Assignment.field]
    · rw [if_neg hf]
      cases hp : parseValue m (lit m.key) value with
      | skip => rfl
      | report e => rfl
      | assign a =>
        have hfield : a.field ≠ .string f := by
          rw [field_of_parseValue hp]
          exact hf
        simp [LineAct.assignment, hfield]

/-- **The string that is stored** is the last one the file gives. -/
theorem lastFor_assignments {lines : List Bytes}
    (hok : ∀ line ∈ lines, (configLine line).error = none) (f : StringField) :
    lastFor (.string f) (assignments lines) = (lastValue (.string f) lines).map (.string f) := by
  induction lines with
  | nil => rfl
  | cons line lines ih =>
    rw [List.forall_mem_cons] at hok
    have hline := assignment_eq_valueFor hok.1 f
    have hrest := ih hok.2
    rw [assignments_cons, lastValue_cons, Option.map_or, ← hrest, ← hline]
    cases ha : (configLine line).assignment with
    | none => simp
    | some a =>
      have hfilter : (some a).filter (·.field = .string f) =
          if a.field = .string f then some a else none := by
        simp [Option.filter]
      rw [Option.toList_some, List.singleton_append, lastFor_cons, hfilter]

/-! ## Numbers -/

/-- A pass of the loop over the line: a numeral of 16 bits is stored in the field, and any
other value is reported and changes nothing. -/
structure TakesNumerals (line : Bytes) (m : ConfigMapping) (f : Uint16Field) (value : Bytes) :
    Prop where
  assigned : ∀ v : UInt16, Numeral value v.toNat →
    ∀ (isFirstRun : Bool) (n : ℕ) (conf : ConfigData) (log : List CfgError) (lines : List Bytes),
      readLoop isFirstRun n conf log (line :: lines) =
        readLoop isFirstRun (n + 1) (conf.assign (.uint16 f v)) log lines
  reported : (¬ ∃ v : UInt16, Numeral value v.toNat) →
    ∀ (isFirstRun : Bool) (n : ℕ) (conf : ConfigData) (log : List CfgError) (lines : List Bytes),
      readLoop isFirstRun n conf log (line :: lines) =
        (handleCfgError isFirstRun log (.line (n + 1) (.invalidUint16 (lit m.key)))).bind fun log =>
          readLoop isFirstRun (n + 1) conf log lines

/-- A number of 16 bits survives the conversion. -/
theorem ofInt_natCast_toNat (v : UInt16) : UInt16.ofInt (v.toNat : ℤ) = v := by
  have hlt : v.toNat < 2 ^ 16 := v.toNat_lt
  rw [UInt16.ofInt, Int.emod_eq_of_lt (by omega) (by omega), Int.toNat_natCast, UInt16.ofNat_toNat]

/-- The value `strtol` reports for a numeral of 16 bits. -/
theorem parseValue_of_numeral {m : ConfigMapping} {f : Uint16Field} (hf : m.field = .uint16 f)
    (key : Bytes) {value : Bytes} {v : UInt16} (h : Numeral value v.toNat) :
    parseValue m key value = .assign (.uint16 f v) := by
  have hlt : v.toNat < 2 ^ 16 := v.toNat_lt
  have hr := strtol_of_numeral h (by simp only [longMin]; omega) (by simp only [longMax]; omega)
  have hgood : ¬ (false = true ∨ ([] : Bytes) ≠ [] ∨ (v.toNat : ℤ) < 0 ∨
      (v.toNat : ℤ) > UINT16_MAX) := by
    simp only [UINT16_MAX]
    simp
    omega
  unfold parseValue
  rw [hf]
  simp only [hr]
  rw [if_neg hgood, ofInt_natCast_toNat]

/-- What is not reported is a numeral, or nothing at all. -/
theorem parseValue_of_not_numeral {m : ConfigMapping} {f : Uint16Field} (hf : m.field = .uint16 f)
    (key : Bytes) {value : Bytes} (h0 : 0 ∉ value) (hhead : ∀ c ∈ value.head?, isSpace c = false)
    (hne : value ≠ []) (h : ¬ ∃ v : UInt16, Numeral value v.toNat) :
    parseValue m key value = .report (.invalidUint16 key) := by
  unfold parseValue
  rw [hf]
  dsimp only
  rw [if_pos]
  by_contra hgood
  simp only [not_or, not_not, Bool.not_eq_true, not_lt, gt_iff_lt, UINT16_MAX] at hgood
  obtain ⟨hrange, hrest, hmin, hmax⟩ := hgood
  have hr : strtol value = ⟨(strtol value).val, false, []⟩ := by
    rw [← hrange, ← hrest]
  have hnum := numeral_of_strtol h0 hhead hne hr
  apply h
  refine ⟨.ofNat (strtol value).val.toNat, ?_⟩
  have hval : (((UInt16.ofNat (strtol value).val.toNat).toNat : ℕ) : ℤ) = (strtol value).val := by
    rw [UInt16.toNat_ofNat', Nat.mod_eq_of_lt (by omega)]
    omega
  rwa [hval]

/-- **A numeric setting takes numerals and nothing else if and only if its value is not
empty.** The empty one is stored as zero. -/
theorem takesNumerals_iff {line value : Bytes} {m : ConfigMapping} {f : Uint16Field}
    (h : settingOf line = some (m, value)) (hf : m.field = .uint16 f) :
    TakesNumerals line m f value ↔ value ≠ [] := by
  obtain ⟨h0, hhead⟩ := settingOf_value h
  have hline := configLine_of_settingOf h
  constructor
  · rintro hexact rfl
    have hnone : ¬ ∃ v : UInt16, Numeral [] v.toNat := fun ⟨v, hv⟩ => not_numeral_nil _ hv
    have hzero : parseValue m (lit m.key) [] = .assign (.uint16 f 0) := by
      unfold parseValue
      rw [hf]
      rfl
    have hrun := hexact.reported hnone true 0 .zeroed [] []
    rw [readLoop, hline, hzero] at hrun
    cases hrun
  · intro hne
    refine ⟨?_, ?_⟩
    · intro v hv isFirstRun n conf log lines
      rw [readLoop, hline, parseValue_of_numeral hf _ hv]
    · intro hnot isFirstRun n conf log lines
      rw [readLoop, hline, parseValue_of_not_numeral hf _ h0 hhead hne hnot]
      rfl

/-- The entry of the table. -/
def httpPortMapping : ConfigMapping := { key := "http_port", field := .uint16 .httpPort }

theorem takesNumerals_iff_signed :
    TakesNumerals (lit " http_port = +8080 \n") httpPortMapping .httpPort (lit "+8080") ↔
      lit "+8080" ≠ [] :=
  takesNumerals_iff (by decide +kernel) rfl

def emptyPort : Bytes := lit "http_port =\n"

/-- The server starts with port zero. -/
theorem emptyPort_taken :
    settingOf emptyPort = some (httpPortMapping, []) ∧ (∀ i, ¬ Numeral [] i) ∧
      (∃ c, initConfig 4 [] (.ok emptyPort) = .ok c ∧ c.httpPort = 0) ∧
      ¬ TakesNumerals emptyPort httpPortMapping .httpPort [] := by
  have hline : configLine emptyPort = .assign (.uint16 .httpPort 0) := by decide +kernel
  have hport : (parsedConf emptyPort (loadConfigDefaults 4 .zeroed)).httpPort = 0 := by
    decide +kernel
  refine ⟨by decide +kernel, not_numeral_nil,
    ⟨_, initConfig_eq_ok.mpr ⟨by decide +kernel, rfl⟩, hport⟩, ?_⟩
  intro h
  have hrun := h.reported (fun ⟨v, hv⟩ => not_numeral_nil _ hv) true 0 .zeroed [] []
  rw [readLoop, hline] at hrun
  cases hrun

end Celeritas
