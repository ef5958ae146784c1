import Celeritas.CLib.Text
import Celeritas.Http.Response
import Celeritas.Lib.Pow2

/-!
# The configuration

`config_data` with its defaults, and what is done to it when a file has been read. The
parser writes into it through a table of offsets (`Config/Parse.lean`); an offset with the
type the table gives it is a `Field` here, and a store to one an `Assignment`, which has the
field's type by construction.

What follows of a configuration after a list of stores is asked of one field at a time:
`current_foldl_assign` (the last store wins) and `current_postProcess`.
-/

set_option autoImplicit false

namespace Celeritas

open CLib Lib

def MAX_NAME_LEN : ℕ := 256

/-- `config_data`. A `char` array is the string in it: every store to one is a `strncpy` of
its whole length, which fills what lies behind the string with zeros. -/
structure ConfigData where
  httpPort : UInt16
  httpsPort : UInt16
  serverTok : Bytes
  serverUser : Bytes
  serverGroup : Bytes
  maxUrlSize : UInt16
  maxRxHeader : UInt16
  maxTxHeader : UInt16
  keepaliveTimeout : UInt16
  dirListing : Bool
  tlsCertPath : Bytes
  tlsKeyPath : Bytes
  logQueueSize : UInt16
  connQueueSize : UInt16
  workerThreads : UInt16
  accessLog : Bytes
  eventLog : Bytes
  docRoot : Bytes
  lockFilePath : Bytes
  deriving DecidableEq

/-- What `calloc` returns. -/
def ConfigData.zeroed : ConfigData :=
  ⟨0, 0, [], [], [], 0, 0, 0, 0, false, [], [], 0, 0, 0, [], [], [], []⟩

/-! ## Fields -/

inductive Uint16Field
  | httpPort
  | httpsPort
  | maxUrlSize
  | maxRxHeader
  | maxTxHeader
  | keepaliveTimeout
  | logQueueSize
  | connQueueSize
  | workerThreads
  deriving DecidableEq

inductive StringField
  | serverTok
  | serverUser
  | serverGroup
  | tlsCertPath
  | tlsKeyPath
  | accessLog
  | eventLog
  | docRoot
  | lockFilePath
  deriving DecidableEq

inductive BoolField
  | dirListing
  deriving DecidableEq

/-- A `cfg_type_t` with an offset of that type. -/
inductive Field
  | uint16 (f : Uint16Field)
  | string (f : StringField)
  | bool (f : BoolField)
  deriving DecidableEq

/-- A value for a field. -/
inductive Assignment
  | uint16 (f : Uint16Field) (v : UInt16)
  | string (f : StringField) (v : Bytes)
  | bool (f : BoolField) (v : Bool)
  deriving DecidableEq

def Assignment.field : Assignment → Field
  | .uint16 f _ => .uint16 f
  | .string f _ => .string f
  | .bool f _ => .bool f

namespace ConfigData

/-- What a field holds. -/
def current (c : ConfigData) : Field → Assignment
  | .uint16 .httpPort => .uint16 .httpPort c.httpPort
  | .uint16 .httpsPort => .uint16 .httpsPort c.httpsPort
  | .uint16 .maxUrlSize => .uint16 .maxUrlSize c.maxUrlSize
  | .uint16 .maxRxHeader => .uint16 .maxRxHeader c.maxRxHeader
  | .uint16 .maxTxHeader => .uint16 .maxTxHeader c.maxTxHeader
  | .uint16 .keepaliveTimeout => .uint16 .keepaliveTimeout c.keepaliveTimeout
  | .uint16 .logQueueSize => .uint16 .logQueueSize c.logQueueSize
  | .uint16 .connQueueSize => .uint16 .connQueueSize c.connQueueSize
  | .uint16 .workerThreads => .uint16 .workerThreads c.workerThreads
  | .string .serverTok => .string .serverTok c.serverTok
  | .string .serverUser => .string .serverUser c.serverUser
  | .string .serverGroup => .string .serverGroup c.serverGroup
  | .string .tlsCertPath => .string .tlsCertPath c.tlsCertPath
  | .string .tlsKeyPath => .string .tlsKeyPath c.tlsKeyPath
  | .string .accessLog => .string .accessLog c.accessLog
  | .string .eventLog => .string .eventLog c.eventLog
  | .string .docRoot => .string .docRoot c.docRoot
  | .string .lockFilePath => .string .lockFilePath c.lockFilePath
  | .bool .dirListing => .bool .dirListing c.dirListing

/-- A store through `field_ptr`. -/
def assign (c : ConfigData) : Assignment → ConfigData
  | .uint16 .httpPort v => { c with httpPort := v }
  | .uint16 .httpsPort v => { c with httpsPort := v }
  | .uint16 .maxUrlSize v => { c with maxUrlSize := v }
  | .uint16 .maxRxHeader v => { c with maxRxHeader := v }
  | .uint16 .maxTxHeader v => { c with maxTxHeader := v }
  | .uint16 .keepaliveTimeout v => { c with keepaliveTimeout := v }
  | .uint16 .logQueueSize v => { c with logQueueSize := v }
  | .uint16 .connQueueSize v => { c with connQueueSize := v }
  | .uint16 .workerThreads v => { c with workerThreads := v }
  | .string .serverTok v => { c with serverTok := v }
  | .string .serverUser v => { c with serverUser := v }
  | .string .serverGroup v => { c with serverGroup := v }
  | .string .tlsCertPath v => { c with tlsCertPath := v }
  | .string .tlsKeyPath v => { c with tlsKeyPath := v }
  | .string .accessLog v => { c with accessLog := v }
  | .string .eventLog v => { c with eventLog := v }
  | .string .docRoot v => { c with docRoot := v }
  | .string .lockFilePath v => { c with lockFilePath := v }
  | .bool .dirListing v => { c with dirListing := v }

/-- Two configurations with the same in every field are equal. -/
theorem ext_current {c c' : ConfigData} (h : ∀ f, c.current f = c'.current f) : c = c' := by
  have hnum : ∀ f, c.current (.uint16 f) = c'.current (.uint16 f) := fun f => h _
  have hstr : ∀ f, c.current (.string f) = c'.current (.string f) := fun f => h _
  have hbool := h (.bool .dirListing)
  obtain ⟨⟩ := c
  obtain ⟨⟩ := c'
  congr
  · exact (Assignment.uint16.inj (hnum .httpPort)).2
  · exact (Assignment.uint16.inj (hnum .httpsPort)).2
  · exact (Assignment.string.inj (hstr .serverTok)).2
  · exact (Assignment.string.inj (hstr .serverUser)).2
  · exact (Assignment.string.inj (hstr .serverGroup)).2
  · exact (Assignment.uint16.inj (hnum .maxUrlSize)).2
  · exact (Assignment.uint16.inj (hnum .maxRxHeader)).2
  · exact (Assignment.uint16.inj (hnum .maxTxHeader)).2
  · exact (Assignment.uint16.inj (hnum .keepaliveTimeout)).2
  · exact (Assignment.bool.inj hbool).2
  · exact (Assignment.string.inj (hstr .tlsCertPath)).2
  · exact (Assignment.string.inj (hstr .tlsKeyPath)).2
  · exact (Assignment.uint16.inj (hnum .logQueueSize)).2
  · exact (Assignment.uint16.inj (hnum .connQueueSize)).2
  · exact (Assignment.uint16.inj (hnum .workerThreads)).2
  · exact (Assignment.string.inj (hstr .accessLog)).2
  · exact (Assignment.string.inj (hstr .eventLog)).2
  · exact (Assignment.string.inj (hstr .docRoot)).2
  · exact (Assignment.string.inj (hstr .lockFilePath)).2

/-- **A store changes its own field and no other.** -/
theorem current_assign (c : ConfigData) (a : Assignment) (f : Field) :
    (c.assign a).current f = if a.field = f then a else c.current f := by
  cases a with
  | uint16 g v =>
    cases f with
    | uint16 f => cases g <;> cases f <;> rfl
    | string f => cases g <;> cases f <;> rfl
    | bool f => cases g <;> cases f <;> rfl
  | string g v =>
    cases f with
    | uint16 f => cases g <;> cases f <;> rfl
    | string f => cases g <;> cases f <;> rfl
    | bool f => cases g <;> cases f <;> rfl
  | bool g v =>
    cases f with
    | uint16 f => cases g; cases f <;> rfl
    | string f => cases g; cases f <;> rfl
    | bool f => cases g; cases f; rfl

end ConfigData

/-- The last of the stores to a field. -/
def lastFor (f : Field) (as : List Assignment) : Option Assignment :=
  (as.filter (·.field = f)).getLast?

theorem lastFor_cons (f : Field) (a : Assignment) (as : List Assignment) :
    lastFor f (a :: as) = (lastFor f as).or (if a.field = f then some a else none) := by
  unfold lastFor
  by_cases h : a.field = f
  · rw [List.filter_cons_of_pos (by simpa using h), List.getLast?_cons, if_pos h]
    cases (as.filter (·.field = f)).getLast? <;> rfl
  · rw [List.filter_cons_of_neg (by simpa using h), if_neg h, Option.or_none]

theorem lastFor_eq_none {f : Field} {as : List Assignment} :
    lastFor f as = none ↔ ∀ a ∈ as, a.field ≠ f := by
  rw [lastFor, List.getLast?_eq_none_iff, List.filter_eq_nil_iff]
  simp

theorem lastFor_mem {f : Field} {as : List Assignment} {a : Assignment}
    (h : lastFor f as = some a) : a ∈ as ∧ a.field = f := by
  simpa using List.mem_filter.mp (List.mem_of_getLast? h)

theorem ConfigData.current_foldl_assign (as : List Assignment) (c : ConfigData) (f : Field) :
    (as.foldl assign c).current f = (lastFor f as).getD (c.current f) := by
  induction as generalizing c with
  | nil => rfl
  | cons a as ih =>
    rw [List.foldl_cons, ih, lastFor_cons, current_assign]
    cases lastFor f as with
    | some b => rfl
    | none => split <;> rfl

/-! ## Defaults -/

/-- `load_config_defaults`; `ncpu` is what `get_ncpu` returns. -/
def loadConfigDefaults (ncpu : ℤ) (cd : ConfigData) : ConfigData :=
  { cd with
    httpPort := 80
    httpsPort := 443
    workerThreads := .ofInt (ncpu * 2)
    connQueueSize := 256
    logQueueSize := 256
    accessLog := strncpy (lit "/var/log/celeritas/access_log") PATH_MAX
    eventLog := strncpy (lit "/var/log/celeritas/event_log") PATH_MAX
    docRoot := strncpy (lit "/var/www/html") PATH_MAX
    lockFilePath := strncpy (lit "/var/run/") PATH_MAX
    serverTok := strncpy (lit "Celeritas/0.10.2") 20
    tlsCertPath := strncpy (lit "/etc/ssl/celeritas.crt") PATH_MAX
    tlsKeyPath := strncpy (lit "/etc/ssl/celeritas.key") PATH_MAX
    serverUser := strncpy (lit "www") MAX_NAME_LEN
    serverGroup := strncpy (lit "www") MAX_NAME_LEN
    maxRxHeader := 8192
    maxTxHeader := 8192
    maxUrlSize := 2048
    keepaliveTimeout := 10 }

/-- **The defaults cover every field but `dir_listing`**, which keeps what was there; and one of
them depends on the machine. -/
theorem current_loadConfigDefaults (ncpu ncpu' : ℤ) (cd cd' : ConfigData) (f : Field) :
    (loadConfigDefaults ncpu cd).current f = (loadConfigDefaults ncpu' cd').current f ↔
      (f = .uint16 .workerThreads → UInt16.ofInt (ncpu * 2) = .ofInt (ncpu' * 2)) ∧
        (f = .bool .dirListing → cd.dirListing = cd'.dirListing) := by
  cases f with
  | uint16 f =>
    cases f with
    | workerThreads => simp [ConfigData.current, loadConfigDefaults]
    | _ => exact iff_of_true rfl ⟨fun h => (nomatch h), fun h => (nomatch h)⟩
  | string f =>
    exact iff_of_true (by cases f <;> rfl) ⟨fun h => (nomatch h), fun h => (nomatch h)⟩
  | bool f =>
    cases f
    simp [ConfigData.current, loadConfigDefaults]

/-! ## Post-processing -/

/-- `next_power_of_2` -/
def nextPowerOf2 (v : UInt32) : UInt32 :=
  let v := v - 1
  let v := v ||| v >>> 1
  let v := v ||| v >>> 2
  let v := v ||| v >>> 4
  let v := v ||| v >>> 8
  let v := v ||| v >>> 16
  let v := v + 1
  if v = 0 then 1 else v

/-- One line of the smear. -/
theorem spread_line {n w : ℕ} {v k : UInt32} (h : Spread n v.toNat w) (hk : k.toNat = w)
    (hw : w < 32) : Spread n (v ||| v >>> k).toNat (w + w) := by
  have hor : (v ||| v >>> k).toNat = v.toNat ||| v.toNat >>> w := by
    rw [UInt32.toNat_or, UInt32.toNat_shiftRight, hk, Nat.mod_eq_of_lt hw]
  rw [hor]
  exact h.smear

/-- The smear sets every bit below the highest one; where that is the top bit, the increment
wraps. -/
theorem toNat_nextPowerOf2_size (v : UInt32) : (nextPowerOf2 v).toNat =
    if (v - 1).toNat.size = 32 then 1 else 2 ^ (v - 1).toNat.size := by
  have hlt : (v - 1).toNat < 2 ^ 32 := (v - 1).toNat_lt
  unfold nextPowerOf2
  extract_lets v₀ v₁ v₂ v₃ v₄ v₅ v₆
  have hsize : v₀.toNat.size ≤ 32 := Nat.size_le.mpr hlt
  have h₁ : Spread _ v₁.toNat 2 := spread_line (Spread.one v₀.toNat) rfl (by omega)
  have h₂ : Spread _ v₂.toNat 4 := spread_line h₁ rfl (by omega)
  have h₃ : Spread _ v₃.toNat 8 := spread_line h₂ rfl (by omega)
  have h₄ : Spread _ v₄.toNat 16 := spread_line h₃ rfl (by omega)
  have h₅ : Spread _ v₅.toNat 32 := spread_line h₄ rfl (by omega)
  have hall : v₅.toNat = 2 ^ v₀.toNat.size - 1 := h₅.eq hlt
  have hsucc : v₆.toNat = (2 ^ v₀.toNat.size - 1 + 1) % 2 ^ 32 := by
    rw [UInt32.toNat_add, hall, UInt32.toNat_one]
  have hpos : 0 < 2 ^ v₀.toNat.size := Nat.two_pow_pos _
  rw [Nat.sub_add_cancel hpos] at hsucc
  by_cases htop : v₀.toNat.size = 32
  · have hzero : v₆ = 0 := by
      rw [← UInt32.toNat_inj, hsucc, htop]
      rfl
    rw [if_pos hzero, if_pos htop]
    rfl
  · have hfit : 2 ^ v₀.toNat.size < 2 ^ 32 := Nat.pow_lt_pow_right Nat.one_lt_two (by omega)
    rw [Nat.mod_eq_of_lt hfit] at hsucc
    have hne : v₆ ≠ 0 := by
      intro h
      rw [h, UInt32.toNat_zero] at hsucc
      omega
    rw [if_neg hne, if_neg htop, hsucc]

/-- Up to the greatest power of two that fits, the smear rounds up. -/
theorem toNat_nextPowerOf2 {v : UInt32} (h0 : v ≠ 0) (hmax : v.toNat ≤ 2 ^ 31) :
    (nextPowerOf2 v).toNat = roundUp v.toNat := by
  have hpos : 1 ≤ v.toNat := Nat.one_le_iff_ne_zero.mpr fun h => h0 (UInt32.toNat_inj.mp h)
  have hsub : (v - 1).toNat = v.toNat - 1 := UInt32.toNat_sub_of_le _ _ hpos
  have hsize : (v.toNat - 1).size ≤ 31 := Nat.size_le.mpr (by omega)
  have hpow : 2 ^ (v.toNat - 1).size = roundUp v.toNat := by
    rw [size_eq_clog, Nat.sub_add_cancel hpos]
    rfl
  rw [toNat_nextPowerOf2_size, hsub, if_neg (by omega), hpow]

/-- For the others it wraps. -/
theorem nextPowerOf2_eq_one {v : UInt32} (h : v = 0 ∨ 2 ^ 31 < v.toNat) : nextPowerOf2 v = 1 := by
  have htop : 2 ^ 31 ≤ (v - 1).toNat := by
    rcases h with rfl | h
    · decide
    · have hsub : (v - 1).toNat = v.toNat - 1 := UInt32.toNat_sub_of_le _ _ (by
        show 1 ≤ v.toNat
        omega)
      omega
  have hsize : (v - 1).toNat.size = 32 := by
    apply le_antisymm
    · exact Nat.size_le.mpr (v - 1).toNat_lt
    · exact Nat.lt_size.mpr htop
  rw [← UInt32.toNat_inj, toNat_nextPowerOf2_size, if_pos hsize]
  rfl

/-- The store of the result in a 16-bit field. -/
def roundedQueueSize (v : UInt16) : UInt16 := (nextPowerOf2 v.toUInt32).toUInt16

/-- **The queue sizes that are stored**: zero becomes one, and what would be rounded up to
`65536` becomes zero. -/
theorem toNat_roundedQueueSize (v : UInt16) : (roundedQueueSize v).toNat =
    if v = 0 then 1 else if v.toNat ≤ 2 ^ 15 then roundUp v.toNat else 0 := by
  by_cases h0 : v = 0
  · subst h0
    decide
  have hmax : v.toNat < 2 ^ 16 := v.toNat_lt
  have h0' : v.toUInt32 ≠ 0 := by
    intro h
    apply h0
    simpa [← UInt16.toNat_inj, ← UInt32.toNat_inj] using h
  have hround : (nextPowerOf2 v.toUInt32).toNat = roundUp v.toNat := by
    rw [toNat_nextPowerOf2 h0' (by rw [UInt16.toNat_toUInt32]; omega), UInt16.toNat_toUInt32]
  have hle : roundUp v.toNat ≤ 2 ^ 16 := roundUp_le_iff.mpr (by omega)
  rw [if_neg h0, roundedQueueSize, UInt32.toNat_toUInt16, hround]
  by_cases h15 : v.toNat ≤ 2 ^ 15
  · have : roundUp v.toNat ≤ 2 ^ 15 := roundUp_le_iff.mpr h15
    rw [if_pos h15, Nat.mod_eq_of_lt (by omega)]
  · -- the next power of two is `65536`
    have hclog : Nat.clog 2 v.toNat = 16 := by
      apply le_antisymm
      · exact (Nat.clog_le_iff_le_pow Nat.one_lt_two).mpr (by omega)
      · apply Nat.lt_of_not_le
        intro h
        exact h15 ((Nat.clog_le_iff_le_pow Nat.one_lt_two).mp h)
    calc roundUp v.toNat % 2 ^ 16
        = 2 ^ 16 % 2 ^ 16 := by rw [roundUp, hclog]
      _ = 0 := Nat.mod_self _
      _ = if v.toNat ≤ 2 ^ 15 then roundUp v.toNat else 0 := (if_neg h15).symm

/-- `strlen(s) - 1`, in `size_t`. -/
def lastIndex (s : Bytes) : ℕ := sizeOfInt ((s.length : ℤ) - 1)

/-- `s[strlen(s) - 1]`, if it is a character of the string. -/
def lastChar (s : Bytes) : Option UInt8 := s[lastIndex s]?

theorem lastChar_eq {s : Bytes} (h : s.length < 2 ^ 64) : lastChar s = s.getLast? := by
  unfold lastChar lastIndex sizeOfInt
  cases s with
  | nil => rfl
  | cons c cs =>
    rw [List.length_cons] at h
    have hidx : ((((c :: cs).length : ℤ) - 1) % 2 ^ 64).toNat = (c :: cs).length - 1 := by
      rw [List.length_cons]
      omega
    rw [hidx, List.getLast?_eq_getElem?]

/-- The test of the last character of `lock_file_path`, with no result where it indexes something
else than a character of the string. -/
def stripLockPathIn (path : Bytes) : Option Bytes :=
  (lastChar path).map fun c => if c ≠ charByte '/' then path.dropLast else path

/-- The same where the string has a last character. The empty one is left alone here, while the
program reads and may write outside of the array. -/
def stripLockPath (path : Bytes) : Bytes :=
  match path.getLast? with
  | none => path
  | some c => if c ≠ charByte '/' then path.dropLast else path

theorem stripLockPathIn_eq {path : Bytes} (h : path.length < PATH_MAX) :
    stripLockPathIn path = if path = [] then none else some (stripLockPath path) := by
  have hmax : PATH_MAX = 4096 := rfl
  rw [stripLockPathIn, lastChar_eq (by omega)]
  by_cases hnil : path = []
  · rw [if_pos hnil, hnil]
    rfl
  · rw [if_neg hnil, stripLockPath, List.getLast?_eq_some_getLast hnil]
    rfl

/-- The end of `parse_and_validate_config_file`. -/
def postProcess (conf : ConfigData) : ConfigData :=
  { conf with
    logQueueSize := roundedQueueSize conf.logQueueSize
    connQueueSize := roundedQueueSize conf.connQueueSize
    lockFilePath := stripLockPath conf.lockFilePath }

/-- The same for the value of one field. -/
def Assignment.postProcess : Assignment → Assignment
  | .uint16 .logQueueSize v => .uint16 .logQueueSize (roundedQueueSize v)
  | .uint16 .connQueueSize v => .uint16 .connQueueSize (roundedQueueSize v)
  | .string .lockFilePath v => .string .lockFilePath (stripLockPath v)
  | a => a

theorem current_postProcess (conf : ConfigData) (f : Field) :
    (postProcess conf).current f = (conf.current f).postProcess := by
  cases f with
  | uint16 f => cases f <;> rfl
  | string f => cases f <;> rfl
  | bool f => cases f; rfl

end Celeritas
