import Mathlib.Data.List.Basic
import Mathlib.Data.List.Infix
import Mathlib.Data.List.TakeWhile
import Mathlib.Data.Int.Order.Basic
import Mathlib.Algebra.Ring.Int.Defs
import Mathlib.Algebra.Ring.Nat

/-!
# The C string functions the program calls

Memory is a list of bytes; a `char *` argument is the list from the pointer on, and a C
function that takes a *string* sees it up to the first NUL (`cstr`). Nothing here is about
the server: these are the documented meanings of `strcmp`, `strcasecmp`, `strstr`,
`strncpy`, `snprintf` and of the `%d` conversion, in the C locale.
-/

set_option autoImplicit false

namespace Celeritas.CLib

abbrev Bytes := List UInt8

/-- The bytes of a string literal of the source, in UTF-8. -/
def lit (s : String) : Bytes := s.toList.flatMap String.utf8EncodeChar

/-- The string a pointer to these bytes denotes. -/
def cstr (m : Bytes) : Bytes := m.takeWhile (· != 0)

def toLower (c : UInt8) : UInt8 := if 65 ≤ c ∧ c ≤ 90 then c + 32 else c

/-- `strcmp(a, b) == 0` -/
def strcmpEq (a b : Bytes) : Bool := cstr a == cstr b

/-- `strcasecmp(a, b) == 0` -/
def strcasecmpEq (a b : Bytes) : Bool := (cstr a).map toLower == (cstr b).map toLower

/-- Offset of the first occurrence of `needle`. -/
def indexOf (needle : Bytes) : Bytes → Option ℕ
  | [] => if needle = [] then some 0 else none
  | c :: cs => if needle.isPrefixOf (c :: cs) then some 0 else (indexOf needle cs).map (· + 1)

/-- `strstr(hay, needle)`, as an offset into `hay`. -/
def strstr (hay needle : Bytes) : Option ℕ := indexOf needle (cstr hay)

/-- `strstr` in an array, which it leaves where there is no NUL. -/
def strstrIn (cells needle : Bytes) : Option (Option ℕ) :=
  if 0 ∈ cells then some (strstr cells needle) else none

/-- `strcasecmp` of an array and a string, and with no more right to leave the array. -/
def strcasecmpIn (cells b : Bytes) : Option Bool :=
  if 0 ∈ cells then some (strcasecmpEq cells b) else none

/-- What `strncpy(dst, src, n)` leaves in `dst` when read as a string; `dst` has `n` bytes
or more, and a source of `n` bytes or more leaves no terminator among the first `n`. -/
def strncpy (src : Bytes) (n : ℕ) : Bytes := (cstr src).take n

/-- What `snprintf(dst, size, …)` stores before the terminator. -/
def snprintfStored (size : ℕ) (text : Bytes) : Bytes := text.take (size - 1)

def intMax : ℕ := 2 ^ 31 - 1
def sizeMax : ℕ := 2 ^ 64 - 1

/-- What `snprintf` and `vsnprintf` return: the length the text wanted, or `-1`
(`EOVERFLOW`) where that is no `int`. -/
def snprintfRet (text : Bytes) : ℤ := if text.length ≤ intMax then text.length else -1

/-- The conversion of an `int` to `size_t`. -/
def sizeOfInt (i : ℤ) : ℕ := (i % 2 ^ 64).toNat

/-- The conversion of a non-negative 64-bit value to `int`. -/
def intOfSize (n : ℕ) : ℤ := Int.bmod n (2 ^ 32)

/-- `(int)` of a `time_t` -/
def intOfTime (t : ℤ) : ℤ := Int.bmod t (2 ^ 32)

/-- `a * b` on two `int`s; `none` is an overflow. -/
def intMul (a b : ℤ) : Option ℤ := if -2 ^ 31 ≤ a * b ∧ a * b < 2 ^ 31 then some (a * b) else none

/-- A property of every byte of a string, by computation. -/
theorem forall_mem_of_all {m : Bytes} {P : UInt8 → Prop} [DecidablePred P]
    (h : (m.all fun c => decide (P c)) = true) : ∀ c ∈ m, P c := by
  intro c hc
  exact of_decide_eq_true (List.all_eq_true.mp h c hc)

/-- A literal is as long as its encoding. -/
theorem length_lit (s : String) : (lit s).length = s.utf8ByteSize := by
  rw [← String.size_toByteArray, ← String.utf8Encode_toList, List.utf8Encode,
    List.size_toByteArray]
  rfl

/-! ## Strings without a NUL -/

theorem cstr_eq_self {m : Bytes} (h : 0 ∉ m) : cstr m = m := by
  apply List.takeWhile_eq_self_iff.mpr
  intro c hc
  have : c ≠ 0 := fun e => h (e ▸ hc)
  simpa using this

theorem cstr_append {a : Bytes} (b : Bytes) (h : 0 ∉ a) : cstr (a ++ b) = a ++ cstr b := by
  apply List.takeWhile_append_of_pos
  intro c hc
  have : c ≠ 0 := fun e => h (e ▸ hc)
  simpa using this

/-- A NUL behind a string ends it. -/
theorem cstr_of_prefix {s cells : Bytes} (h : s ++ [0] <+: cells) : cstr cells = cstr s := by
  obtain ⟨rest, rfl⟩ := h
  induction s with
  | nil => rfl
  | cons c s ih =>
    simp only [cstr, List.cons_append, List.takeWhile_cons] at ih ⊢
    split_ifs
    · rw [ih]
    · rfl

theorem cstr_sublist (m : Bytes) : (cstr m).Sublist m := List.takeWhile_sublist _

theorem zero_not_mem_cstr (m : Bytes) : 0 ∉ cstr m := by
  intro h
  simpa using List.mem_takeWhile_imp h

theorem length_cstr_le (m : Bytes) : (cstr m).length ≤ m.length :=
  (cstr_sublist m).length_le

/-- A string that is cut at `n` bytes is read back whole exactly if it fits. -/
theorem cstr_take_eq_self {m : Bytes} {n : ℕ} : cstr (m.take n) = m ↔ m.length ≤ n ∧ 0 ∉ m := by
  constructor
  · intro h
    have hlen : m.length ≤ n := by
      have := (length_cstr_le (m.take n)).trans (List.length_take_le n m)
      rwa [h] at this
    refine ⟨hlen, ?_⟩
    rw [← h]
    exact zero_not_mem_cstr _
  · rintro ⟨hlen, h0⟩
    rw [List.take_of_length_le hlen, cstr_eq_self h0]

/-! ## The first occurrence -/

theorem indexOf_nil_of_ne {needle : Bytes} (h : needle ≠ []) : indexOf needle [] = none := by
  simp [indexOf, h]

theorem indexOf_cons_of_not {needle cs : Bytes} {c : UInt8} (h : ¬ needle <+: c :: cs) :
    indexOf needle (c :: cs) = (indexOf needle cs).map (· + 1) := by
  rw [indexOf, if_neg (by simpa [List.isPrefixOf_iff_prefix] using h)]

theorem indexOf_at_start {needle hay : Bytes} (h : needle <+: hay) :
    indexOf needle hay = some 0 := by
  cases hay with
  | nil => simp [indexOf, List.prefix_nil.mp h]
  | cons c cs => rw [indexOf, if_pos (List.isPrefixOf_iff_prefix.mpr h)]

/-- What is found is an occurrence, and the first one. -/
theorem indexOf_eq_some_iff {needle : Bytes} (hn : needle ≠ []) {hay : Bytes} {i : ℕ} :
    indexOf needle hay = some i ↔
      needle <+: hay.drop i ∧ ∀ j < i, ¬ needle <+: hay.drop j := by
  induction hay generalizing i with
  | nil => simp [indexOf_nil_of_ne hn, hn]
  | cons c cs ih =>
    by_cases hp : needle <+: c :: cs
    · rw [indexOf_at_start hp, Option.some.injEq]
      constructor
      · rintro rfl
        exact ⟨hp, fun j hj => absurd hj (Nat.not_lt_zero j)⟩
      · rintro ⟨-, hfirst⟩
        by_contra hi
        exact hfirst 0 (Nat.pos_of_ne_zero (Ne.symm hi)) hp
    · rw [indexOf_cons_of_not hp, Option.map_eq_some_iff]
      cases i with
      | zero => simp [hp]
      | succ i =>
        simp only [Nat.add_right_cancel_iff, exists_eq_right, ih, List.drop_succ_cons]
        refine and_congr_right fun _ => ⟨fun h j hj => ?_, fun h j hj => h (j + 1) (by omega)⟩
        cases j with
        | zero => exact hp
        | succ j => exact h j (by omega)

/-- An occurrence found is one. -/
theorem indexOf_spec {needle hay : Bytes} {i : ℕ} (h : indexOf needle hay = some i) :
    needle <+: hay.drop i := by
  induction hay generalizing i with
  | nil =>
    by_cases hn : needle = []
    · rw [hn]
      exact List.nil_prefix
    · rw [indexOf_nil_of_ne hn] at h
      exact absurd h (by simp)
  | cons c cs ih =>
    by_cases hp : needle <+: c :: cs
    · rw [indexOf_at_start hp, Option.some.injEq] at h
      exact h ▸ hp
    · rw [indexOf_cons_of_not hp, Option.map_eq_some_iff] at h
      obtain ⟨j, hj, rfl⟩ := h
      exact ih hj

theorem indexOf_add_le {needle hay : Bytes} {i : ℕ} (h : indexOf needle hay = some i)
    (hn : needle ≠ []) : i + needle.length ≤ hay.length := by
  have hl := (indexOf_spec h).length_le
  have : 0 < needle.length := List.length_pos_iff.mpr hn
  rw [List.length_drop] at hl
  omega

/-- An occurrence, seen from its end. -/
theorem suffix_take_iff {needle text : Bytes} {j : ℕ} (h : j + needle.length ≤ text.length) :
    needle <:+ text.take (j + needle.length) ↔ needle <+: text.drop j := by
  rw [List.suffix_iff_eq_drop, List.prefix_iff_eq_take, List.length_take, Nat.min_eq_left h,
    Nat.add_sub_cancel, List.drop_take, Nat.add_sub_cancel_left]

/-- The first occurrence in a longer text is the first occurrence in any prefix of it
that is long enough to show it, and there is none in a shorter one. -/
theorem indexOf_take {needle : Bytes} (hn : needle ≠ []) : ∀ {hay : Bytes} {i : ℕ} (n : ℕ),
    indexOf needle hay = some i →
      indexOf needle (hay.take n) = if i + needle.length ≤ n then some i else none := by
  intro hay
  induction hay with
  | nil =>
    intro i n h
    rw [indexOf_nil_of_ne hn] at h
    exact absurd h (by simp)
  | cons c cs ih =>
    intro i n h
    have hpos : 0 < needle.length := List.length_pos_iff.mpr hn
    cases n with
    | zero => rw [List.take_zero, indexOf_nil_of_ne hn, if_neg (by omega)]
    | succ n =>
      by_cases hp : needle <+: c :: cs
      · rw [indexOf_at_start hp, Option.some.injEq] at h
        subst h
        by_cases hl : needle.length ≤ n + 1
        · rw [if_pos (by omega), indexOf_at_start]
          rw [List.prefix_take_iff]
          exact ⟨hp, hl⟩
        · rw [if_neg (by omega), Option.eq_none_iff_forall_not_mem]
          intro j hj
          have := indexOf_add_le hj hn
          have := List.length_take_le (n + 1) (c :: cs)
          omega
      · rw [indexOf_cons_of_not hp, Option.map_eq_some_iff] at h
        obtain ⟨j, hj, rfl⟩ := h
        have hp' : ¬ needle <+: (c :: cs).take (n + 1) :=
          fun hpre => hp (hpre.trans (List.take_prefix _ _))
        rw [List.take_succ_cons] at hp' ⊢
        rw [indexOf_cons_of_not hp', ih n hj]
        by_cases hl : j + needle.length ≤ n
        · rw [if_pos hl, if_pos (by omega)]; rfl
        · rw [if_neg hl, if_neg (by omega)]; rfl

/-- Bytes that cannot start the needle only shift its first occurrence. -/
theorem indexOf_append_of_not_mem {c : UInt8} {cs a : Bytes} (rest : Bytes) (h : c ∉ a) :
    indexOf (c :: cs) (a ++ rest) = (indexOf (c :: cs) rest).map (· + a.length) := by
  induction a with
  | nil => simp
  | cons b a ih =>
    rw [List.mem_cons, not_or] at h
    have hp : ¬ c :: cs <+: b :: (a ++ rest) := fun hpre => h.1 (List.cons_prefix_cons.mp hpre).1
    rw [List.cons_append, indexOf_cons_of_not hp, ih h.2, Option.map_map]
    rfl

theorem indexOf_append {needle : Bytes} (hn : needle ≠ []) : ∀ {hay : Bytes} {i : ℕ}
    (rest : Bytes), indexOf needle hay = some i → indexOf needle (hay ++ rest) = some i := by
  intro hay
  induction hay with
  | nil =>
    intro i rest h
    rw [indexOf_nil_of_ne hn] at h
    exact absurd h (by simp)
  | cons c cs ih =>
    intro i rest h
    by_cases hp : needle <+: c :: cs
    · rw [indexOf_at_start hp] at h
      rw [← h]
      exact indexOf_at_start (hp.trans (List.prefix_append _ _))
    · rw [indexOf_cons_of_not hp, Option.map_eq_some_iff] at h
      obtain ⟨j, hj, rfl⟩ := h
      have hle := indexOf_add_le hj hn
      have hp' : ¬ needle <+: c :: (cs ++ rest) := by
        intro hpre
        have hhay : c :: cs <+: c :: (cs ++ rest) := List.prefix_append (c :: cs) rest
        have hlen : needle.length ≤ (c :: cs).length := by
          rw [List.length_cons]
          omega
        exact hp (List.prefix_of_prefix_length_le hpre hhay hlen)
      rw [List.cons_append, indexOf_cons_of_not hp', ih rest hj]
      rfl

/-- There is a first occurrence exactly when there is one at all. -/
theorem isSome_indexOf {needle hay : Bytes} : (indexOf needle hay).isSome ↔ needle <:+: hay := by
  induction hay with
  | nil =>
    by_cases hn : needle = []
    · simp [indexOf, hn]
    · simp [indexOf, hn]
  | cons c cs ih =>
    by_cases hp : needle <+: c :: cs
    · rw [indexOf_at_start hp]
      exact iff_of_true rfl hp.isInfix
    · rw [indexOf_cons_of_not hp, Option.isSome_map, ih, List.infix_cons_iff, or_iff_right hp]

theorem isSome_strstr {hay needle : Bytes} (h : 0 ∉ hay) :
    (strstr hay needle).isSome ↔ needle <:+: hay := by
  rw [strstr, cstr_eq_self h]
  exact isSome_indexOf

/-! ## Comparison -/

/-- Two strings that differ at most in the case of their letters. -/
def EqIgnoringCase (a b : Bytes) : Prop := a.map toLower = b.map toLower

theorem strcasecmpEq_iff {a b : Bytes} (ha : 0 ∉ a) (hb : 0 ∉ b) :
    strcasecmpEq a b = true ↔ EqIgnoringCase a b := by
  rw [strcasecmpEq, cstr_eq_self ha, cstr_eq_self hb, beq_iff_eq]
  rfl

/-! ## Lines -/

def charByte (c : Char) : UInt8 := c.toNat.toUInt8

/-- A text without a carriage return and without a line feed. -/
def OneLine (m : Bytes) : Prop := charByte '\r' ∉ m ∧ charByte '\n' ∉ m

theorem OneLine.nil : OneLine [] := ⟨List.not_mem_nil, List.not_mem_nil⟩

theorem OneLine.append {a b : Bytes} (ha : OneLine a) (hb : OneLine b) : OneLine (a ++ b) :=
  ⟨List.not_mem_append ha.1 hb.1, List.not_mem_append ha.2 hb.2⟩

theorem OneLine.snoc {m : Bytes} (h : OneLine m) {c : UInt8}
    (hc : c ≠ charByte '\r' ∧ c ≠ charByte '\n') : OneLine (m ++ [c]) :=
  h.append ⟨by simpa using hc.1.symm, by simpa using hc.2.symm⟩

theorem oneLine_append {a b : Bytes} : OneLine (a ++ b) ↔ OneLine a ∧ OneLine b := by
  constructor
  · intro h
    exact ⟨⟨fun hm => h.1 (List.mem_append_left _ hm), fun hm => h.2 (List.mem_append_left _ hm)⟩,
      fun hm => h.1 (List.mem_append_right _ hm), fun hm => h.2 (List.mem_append_right _ hm)⟩
  · rintro ⟨ha, hb⟩
    exact ha.append hb

theorem OneLine.of_subset {a b : Bytes} (h : OneLine b) (hab : a ⊆ b) : OneLine a :=
  ⟨fun hm => h.1 (hab hm), fun hm => h.2 (hab hm)⟩

theorem OneLine.ne {m : Bytes} (h : OneLine m) {c : UInt8} (hc : c ∈ m) :
    c ≠ charByte '\r' ∧ c ≠ charByte '\n' :=
  ⟨ne_of_mem_of_not_mem hc h.1, ne_of_mem_of_not_mem hc h.2⟩

/-! ## The decimal conversion -/

/-- `%u` -/
def decimalNat (n : ℕ) : Bytes := (Nat.toDigits 10 n).map charByte

/-- `%d` -/
def decimal : ℤ → Bytes
  | .ofNat n => decimalNat n
  | .negSucc n => 45 :: decimalNat (n + 1)

/-- The inverse of `charByte` on ASCII. -/
private def byteChar (b : UInt8) : Char := Char.ofNat b.toNat

private theorem digit_toNat {c : Char} (h : c.isDigit) : 48 ≤ c.toNat ∧ c.toNat ≤ 57 :=
  Char.isDigit_iff_toNat.mp h

private theorem toNat_charByte {c : Char} (h : c.isDigit) : (charByte c).toNat = c.toNat := by
  have := digit_toNat h
  rw [charByte, UInt8.toNat_ofNat', Nat.mod_eq_of_lt (by omega)]

private theorem byteChar_charByte {c : Char} (h : c.isDigit) : byteChar (charByte c) = c := by
  rw [byteChar, toNat_charByte h, Char.ofNat_toNat]

theorem decimalNat_injective : Function.Injective decimalNat := by
  intro m n h
  have hc : ∀ k : ℕ, (decimalNat k).map byteChar = Nat.toDigits 10 k := by
    intro k
    rw [decimalNat, List.map_map]
    refine (List.map_congr_left fun c hc => ?_).trans (List.map_id _)
    exact byteChar_charByte (Nat.isDigit_of_mem_toDigits (by omega) (by omega) hc)
  have hd : Nat.toDigits 10 m = Nat.toDigits 10 n := by rw [← hc m, ← hc n, h]
  rw [← Nat.ofDigitChars_toDigits (n := m) (b := 10) (by omega) (by omega), hd,
    Nat.ofDigitChars_toDigits (by omega) (by omega)]

/-- A digit's byte is between `'0'` and `'9'`. -/
theorem mem_decimalNat {n : ℕ} {b : UInt8} (h : b ∈ decimalNat n) : 48 ≤ b ∧ b ≤ 57 := by
  obtain ⟨c, hc, rfl⟩ := List.mem_map.mp h
  have hd : c.isDigit := Nat.isDigit_of_mem_toDigits (by omega) (by omega) hc
  rw [UInt8.le_iff_toNat_le, UInt8.le_iff_toNat_le, toNat_charByte hd]
  exact digit_toNat hd

theorem decimal_injective : Function.Injective decimal := by
  intro a b h
  cases a with
  | ofNat m =>
    cases b with
    | ofNat n => rw [decimalNat_injective h]
    | negSucc n =>
      have hm : (45 : UInt8) ∈ decimalNat m := by
        rw [show decimalNat m = 45 :: decimalNat (n + 1) from h]
        exact List.mem_cons_self
      exact absurd (mem_decimalNat hm).1 (by decide)
  | negSucc m =>
    cases b with
    | ofNat n =>
      have hn : (45 : UInt8) ∈ decimalNat n := by
        rw [← show 45 :: decimalNat (m + 1) = decimalNat n from h]
        exact List.mem_cons_self
      exact absurd (mem_decimalNat hn).1 (by decide)
    | negSucc n =>
      have := decimalNat_injective (List.cons.inj h).2
      rw [show m = n by omega]

/-- The text of an `int` has at most eleven characters. -/
theorem length_decimal_le {i : ℤ} (hlo : -2 ^ 31 ≤ i) (hhi : i < 2 ^ 31) :
    (decimal i).length ≤ 11 := by
  have hd : ∀ n : ℕ, n < 10 ^ 10 → (decimalNat n).length ≤ 10 := by
    intro n hn
    rw [decimalNat, List.length_map]
    exact (Nat.length_toDigits_le_iff (by omega) (by omega)).mpr hn
  cases i with
  | ofNat n =>
    have := hd n (by simp only [Int.ofNat_eq_natCast] at hhi; omega)
    simp only [decimal]; omega
  | negSucc n =>
    have := hd (n + 1) (by omega)
    simp only [decimal, List.length_cons]; omega

theorem zero_not_mem_decimal (i : ℤ) : (0 : UInt8) ∉ decimal i := by
  have hd : ∀ n : ℕ, (0 : UInt8) ∉ decimalNat n :=
    fun n h => absurd (mem_decimalNat h).1 (by decide)
  cases i with
  | ofNat n => exact hd n
  | negSucc n =>
    intro h
    rcases List.mem_cons.mp h with h | h
    · exact absurd h (by decide)
    · exact hd _ h

theorem oneLine_decimalNat (n : ℕ) : OneLine (decimalNat n) :=
  ⟨fun h => absurd (mem_decimalNat h).1 (by decide), fun h => absurd (mem_decimalNat h).1 (by decide)⟩

theorem oneLine_decimal (i : ℤ) : OneLine (decimal i) := by
  cases i with
  | ofNat n => exact oneLine_decimalNat n
  | negSucc n =>
    have hsign : OneLine [45] := ⟨by decide, by decide⟩
    exact hsign.append (oneLine_decimalNat (n + 1))

end Celeritas.CLib
