import Mathlib.Data.List.DropRight
import Celeritas.CLib.Str

/-!
# Reading a text file

`isspace`, `strcspn` and `strtol` in the C locale, and `fgets`. A loop
`while (fgets(buf, size, fp))` sees the file in *pieces* (`fgetsAll`): a line that does not
fit the buffer comes in several. What the pieces have to do with the lines is
`fgetsAll_eq_flatMap`: every line is cut up on its own, and one that fits stays whole.
-/

set_option autoImplicit false

namespace Celeritas.CLib

def newline : UInt8 := charByte '\n'
def carriageReturn : UInt8 := charByte '\r'

def isSpace (c : UInt8) : Bool := c == 32 || (9 ≤ c && c ≤ 13)

def isDigit (c : UInt8) : Bool := 48 ≤ c && c ≤ 57

/-- The part of a string before the first byte of `reject`, which is what `strcspn`
measures. -/
def strBefore (reject : Bytes) (m : Bytes) : Bytes := (cstr m).takeWhile fun c => !reject.contains c

theorem strBefore_cons (reject : Bytes) (c : UInt8) (cs : Bytes) : strBefore reject (c :: cs) =
    if c = 0 ∨ c ∈ reject then [] else c :: strBefore reject cs := by
  unfold strBefore cstr
  by_cases h0 : c = 0
  · rw [if_pos (.inl h0), List.takeWhile_cons, if_neg (by simpa using h0), List.takeWhile_nil]
  rw [List.takeWhile_cons, if_pos (by simpa using h0), List.takeWhile_cons]
  by_cases hr : c ∈ reject
  · rw [if_pos (Or.inr hr), if_neg (by simpa using hr)]
  · rw [if_neg (not_or.mpr ⟨h0, hr⟩), if_pos (by simp [hr])]

theorem strBefore_eq_self {reject s : Bytes} (h : ∀ c ∈ s, c ≠ 0 ∧ c ∉ reject) :
    strBefore reject s = s := by
  induction s with
  | nil => rfl
  | cons c cs ih =>
    rw [List.forall_mem_cons] at h
    rw [strBefore_cons, if_neg (not_or.mpr h.1), ih h.2]

/-- What follows such a byte does not matter. -/
theorem strBefore_append {reject s : Bytes} {c : UInt8} (hc : c ∈ reject) (rest : Bytes) :
    strBefore reject (s ++ c :: rest) = strBefore reject s := by
  induction s with
  | nil => rw [List.nil_append, strBefore_cons, if_pos (.inr hc)]; rfl
  | cons d s ih => rw [List.cons_append, strBefore_cons, strBefore_cons, ih]

/-! ## `strtol` -/

/-- The value of a run of digits. -/
def digitsVal (ds : Bytes) : ℕ := ds.foldl (fun n d => 10 * n + (d.toNat - 48)) 0

/-- What `strtol` gives: the value, whether `errno` was set to `ERANGE`, and the string at
`endptr`. -/
structure Strtol where
  val : ℤ
  range : Bool
  rest : Bytes
  deriving DecidableEq

def longMax : ℤ := 2 ^ 63 - 1
def longMin : ℤ := -2 ^ 63

/-- `strtol(s, &endptr, 10)` -/
def strtol (s : Bytes) : Strtol :=
  let s := cstr s
  let t := s.dropWhile isSpace
  let neg := t.head? = some (charByte '-')
  let u := if neg ∨ t.head? = some (charByte '+') then t.tail else t
  let ds := u.takeWhile isDigit
  if ds = [] then ⟨0, false, s⟩
  else
    let v : ℤ := if neg then -digitsVal ds else digitsVal ds
    let rest := u.dropWhile isDigit
    if v > longMax then ⟨longMax, true, rest⟩
    else if v < longMin then ⟨longMin, true, rest⟩
    else ⟨v, false, rest⟩

theorem takeWhile_of_all {p : UInt8 → Bool} {ds : Bytes} (h : ∀ c ∈ ds, p c = true) :
    ds.takeWhile p = ds := List.takeWhile_eq_self_iff.mpr h

/-! ### Numerals -/

/-- A digit is no blank and no sign. -/
theorem isDigit_plain {c : UInt8} (h : isDigit c = true) :
    c ≠ 0 ∧ isSpace c = false ∧ c ≠ charByte '-' ∧ c ≠ charByte '+' := by
  have hspace : isSpace c = false := by
    simp only [isDigit, isSpace, Bool.and_eq_true, decide_eq_true_eq, UInt8.le_iff_toNat_le,
      Bool.or_eq_false_iff, Bool.and_eq_false_iff, decide_eq_false_iff_not, beq_eq_false_iff_ne,
      ne_eq, ← UInt8.toNat_inj] at h ⊢
    simp at h ⊢
    omega
  refine ⟨?_, hspace, ?_, ?_⟩ <;>
  · rintro rfl
    exact absurd h (by decide)

/-- An optionally signed, non-empty string of digits, and the integer it stands for. -/
inductive Numeral : Bytes → ℤ → Prop
  | plain {ds : Bytes} (hne : ds ≠ []) (hd : ∀ c ∈ ds, isDigit c = true) :
    Numeral ds (digitsVal ds)
  | plus {ds : Bytes} (hne : ds ≠ []) (hd : ∀ c ∈ ds, isDigit c = true) :
    Numeral (charByte '+' :: ds) (digitsVal ds)
  | minus {ds : Bytes} (hne : ds ≠ []) (hd : ∀ c ∈ ds, isDigit c = true) :
    Numeral (charByte '-' :: ds) (-digitsVal ds)

theorem not_numeral_nil (i : ℤ) : ¬ Numeral [] i := by
  intro h
  cases h with
  | plain hne hd => exact hne rfl

/-- `strtol` behind the blanks and the sign; `s` is the whole string. -/
def convertDigits (neg : Prop) [Decidable neg] (s u : Bytes) : Strtol :=
  if u.takeWhile isDigit = [] then ⟨0, false, s⟩
  else
    let v : ℤ := if neg then -digitsVal (u.takeWhile isDigit) else digitsVal (u.takeWhile isDigit)
    if v > longMax then ⟨longMax, true, u.dropWhile isDigit⟩
    else if v < longMin then ⟨longMin, true, u.dropWhile isDigit⟩
    else ⟨v, false, u.dropWhile isDigit⟩

theorem strtol_eq_convertDigits {s : Bytes} (h0 : 0 ∉ s) (hs : ∀ c ∈ s.head?, isSpace c = false) :
    strtol s = convertDigits (s.head? = some (charByte '-')) s
      (if s.head? = some (charByte '-') ∨ s.head? = some (charByte '+') then s.tail else s) := by
  have hblanks : s.dropWhile isSpace = s := by
    cases s with
    | nil => rfl
    | cons c cs => rw [List.dropWhile_cons, if_neg (by simp [hs c rfl])]
  have hstrtol : strtol s =
      (let t := (cstr s).dropWhile isSpace
      convertDigits (t.head? = some (charByte '-')) (cstr s)
        (if t.head? = some (charByte '-') ∨ t.head? = some (charByte '+') then t.tail else t)) := rfl
  rw [hstrtol]
  simp only [cstr_eq_self h0, hblanks]

theorem convertDigits_digits {neg : Prop} [Decidable neg] {u : Bytes} (hne : u ≠ [])
    (hd : ∀ c ∈ u, isDigit c = true) (s : Bytes) :
    let v : ℤ := if neg then -digitsVal u else digitsVal u
    longMin ≤ v → v ≤ longMax → convertDigits neg s u = ⟨v, false, []⟩ := by
  intro v hmin hmax
  have hrest : u.dropWhile isDigit = [] := List.dropWhile_eq_nil_iff.mpr hd
  simp only [convertDigits, takeWhile_of_all hd, if_neg hne, hrest]
  rw [if_neg (not_lt.mpr hmax), if_neg (not_lt.mpr hmin)]

/-- What is converted whole is digits. -/
theorem digits_of_convertDigits {neg : Prop} [Decidable neg] {s u : Bytes} {v : ℤ} (hne : s ≠ [])
    (h : convertDigits neg s u = ⟨v, false, []⟩) :
    u ≠ [] ∧ (∀ c ∈ u, isDigit c = true) ∧
      v = if neg then -(digitsVal u : ℤ) else (digitsVal u : ℤ) := by
  unfold convertDigits at h
  dsimp only at h
  by_cases hds : u.takeWhile isDigit = []
  · rw [if_pos hds] at h
    exact absurd (Strtol.mk.inj h).2.2 hne
  rw [if_neg hds] at h
  have hrest : u.dropWhile isDigit = [] := by
    split_ifs at h <;> exact (Strtol.mk.inj h).2.2
  have hd : ∀ c ∈ u, isDigit c = true := List.dropWhile_eq_nil_iff.mp hrest
  rw [takeWhile_of_all hd] at h hds
  refine ⟨hds, hd, ?_⟩
  split_ifs at h ⊢
  all_goals first
    | exact absurd (Strtol.mk.inj h).2.1 (by decide)
    | exact (Strtol.mk.inj h).1.symm


/-- A numeral that fits a `long` is read as its value, -/
theorem strtol_of_numeral {s : Bytes} {v : ℤ} (h : Numeral s v) (hmin : longMin ≤ v)
    (hmax : v ≤ longMax) : strtol s = ⟨v, false, []⟩ := by
  have hplain : ∀ {ds : Bytes}, (∀ c ∈ ds, isDigit c = true) → 0 ∉ ds :=
    fun hd h0 => (isDigit_plain (hd 0 h0)).1 rfl
  cases h with
  | plain hne hd =>
    have hhead : ∀ c ∈ s.head?, isDigit c = true := fun c hc => hd c (List.mem_of_head? hc)
    rw [strtol_eq_convertDigits (hplain hd) fun c hc => (isDigit_plain (hhead c hc)).2.1]
    have hminus : ¬ s.head? = some (charByte '-') :=
      fun hc => (isDigit_plain (hhead _ hc)).2.2.1 rfl
    have hplus : ¬ s.head? = some (charByte '+') :=
      fun hc => (isDigit_plain (hhead _ hc)).2.2.2 rfl
    simp only [hminus, hplus, or_self, if_false]
    exact convertDigits_digits hne hd s (by simpa using hmin) (by simpa using hmax)
  | @plus ds hne hd =>
    have h0 : (0 : UInt8) ∉ charByte '+' :: ds := by
      rw [List.mem_cons, not_or]
      exact ⟨by decide, hplain hd⟩
    have hsign : isSpace (charByte '+') = false := by decide
    rw [strtol_eq_convertDigits h0 fun c hc => Option.some.inj hc ▸ hsign]
    exact convertDigits_digits hne hd _ hmin hmax
  | @minus ds hne hd =>
    have h0 : (0 : UInt8) ∉ charByte '-' :: ds := by
      rw [List.mem_cons, not_or]
      exact ⟨by decide, hplain hd⟩
    have hsign : isSpace (charByte '-') = false := by decide
    rw [strtol_eq_convertDigits h0 fun c hc => Option.some.inj hc ▸ hsign]
    exact convertDigits_digits hne hd _ hmin hmax

/-- and nothing else is read to its end, but for the empty string. -/
theorem numeral_of_strtol {s : Bytes} {v : ℤ} (h0 : 0 ∉ s) (hs : ∀ c ∈ s.head?, isSpace c = false)
    (hne : s ≠ []) (h : strtol s = ⟨v, false, []⟩) : Numeral s v := by
  rw [strtol_eq_convertDigits h0 hs] at h
  obtain ⟨hu, hd, rfl⟩ := digits_of_convertDigits hne h
  obtain ⟨c, cs, rfl⟩ := List.exists_cons_of_ne_nil hne
  simp only [List.head?_cons, Option.some.injEq, List.tail_cons] at hu hd ⊢
  by_cases hminus : c = charByte '-'
  · subst hminus
    simp only [true_or, if_true] at hu hd ⊢
    exact .minus hu hd
  by_cases hplus : c = charByte '+'
  · subst hplus
    simp only [or_true, if_true, hminus, if_false] at hu hd ⊢
    exact .plus hu hd
  · simp only [hminus, hplus, or_self, if_false] at hu hd ⊢
    exact .plain hu hd

/-! ### What is printed -/

theorem isDigit_decimalNat {n : ℕ} {c : UInt8} (h : c ∈ decimalNat n) : isDigit c = true := by
  obtain ⟨h0, h9⟩ := mem_decimalNat h
  simp only [isDigit, Bool.and_eq_true, decide_eq_true_eq]
  exact ⟨h0, h9⟩

theorem decimalNat_ne_nil (n : ℕ) : decimalNat n ≠ [] := by
  simp [decimalNat, Nat.toDigits_ne_nil]

theorem digitsVal_decimalNat (n : ℕ) : digitsVal (decimalNat n) = n := by
  have hchars : ∀ (cs : List Char) (k : ℕ), (∀ c ∈ cs, c.isDigit = true) →
      (cs.map charByte).foldl (fun n d => 10 * n + (d.toNat - 48)) k = Nat.ofDigitChars 10 cs k := by
    intro cs
    induction cs with
    | nil => simp
    | cons c cs ih =>
      intro k hcs
      have hc : 48 ≤ c.toNat ∧ c.toNat ≤ 57 :=
        Char.isDigit_iff_toNat.mp (hcs c List.mem_cons_self)
      have hbyte : (charByte c).toNat = c.toNat := by
        rw [charByte, UInt8.toNat_ofNat', Nat.mod_eq_of_lt (by omega)]
      rw [List.map_cons, List.foldl_cons, hbyte, Nat.ofDigitChars_cons,
        ih _ fun d hd => hcs d (List.mem_cons_of_mem c hd)]
      rfl
  rw [digitsVal, decimalNat, hchars _ _ fun c hc => Nat.isDigit_of_mem_toDigits (by omega) le_rfl hc]
  exact Nat.ofDigitChars_toDigits (by omega) le_rfl

theorem numeral_decimal (i : ℤ) : Numeral (decimal i) i := by
  cases i with
  | ofNat n =>
    have h := Numeral.plain (decimalNat_ne_nil n) fun c hc => isDigit_decimalNat hc
    rw [digitsVal_decimalNat] at h
    exact h
  | negSucc n =>
    have h := Numeral.minus (decimalNat_ne_nil (n + 1)) fun c hc => isDigit_decimalNat hc
    rw [digitsVal_decimalNat] at h
    exact h

/-! ## Pieces and lines -/

/-- What successive calls `fgets(buf, size, fp)` store until one returns `NULL`; `room` is
what the buffer of the current call still takes, its terminating NUL included. -/
def fgetsAll (size : ℕ) : ℕ → Bytes → List Bytes
  | _, [] => []
  | room, c :: cs =>
    if c = newline ∨ room ≤ 2 then [c] :: fgetsAll size size cs
    else match fgetsAll size (room - 1) cs with
      | [] => [[c]]
      | piece :: pieces => (c :: piece) :: pieces

/-- The lines of a file, each with the newline that ends it. -/
def physicalLines : Bytes → List Bytes
  | [] => []
  | c :: cs =>
    if c = newline then [c] :: physicalLines cs
    else match physicalLines cs with
      | [] => [[c]]
      | line :: lines => (c :: line) :: lines

theorem fgetsAll_flatten (size room : ℕ) (file : Bytes) :
    (fgetsAll size room file).flatten = file := by
  induction file generalizing room with
  | nil => rfl
  | cons c cs ih =>
    rw [fgetsAll]
    split
    · rw [List.flatten_cons, ih size]
      rfl
    · have hcs := ih (room - 1)
      split <;> rename_i hpieces <;> rw [hpieces] at hcs
      · rw [← hcs]
        rfl
      · simpa using hcs

theorem fgetsAll_ne_nil {size room : ℕ} {file : Bytes} (h : file ≠ []) :
    fgetsAll size room file ≠ [] := by
  intro hnil
  apply h
  rw [← fgetsAll_flatten size room file, hnil]
  rfl

/-- Up to the end of its first line, a file is read as that line alone. -/
theorem fgetsAll_append {size : ℕ} {line : Bytes} (hline : newline ∉ line) (rest : Bytes) :
    ∀ room, fgetsAll size room (line ++ newline :: rest) =
      fgetsAll size room (line ++ [newline]) ++ fgetsAll size size rest := by
  induction line with
  | nil =>
    intro room
    simp [fgetsAll]
  | cons c cs ih =>
    intro room
    rw [List.mem_cons, not_or] at hline
    rw [List.cons_append, List.cons_append, fgetsAll, fgetsAll]
    split
    · rw [ih hline.2, List.cons_append]
    · have hne : fgetsAll size (room - 1) (cs ++ [newline]) ≠ [] := fgetsAll_ne_nil (by simp)
      obtain ⟨piece, pieces, hpieces⟩ := List.exists_cons_of_ne_nil hne
      rw [ih hline.2, hpieces]
      rfl

/-- A file is empty, or one line without its newline, or a line and a rest. -/
theorem physicalLines_cases (file : Bytes) :
    (newline ∉ file ∧ physicalLines file = if file = [] then [] else [file]) ∨
      ∃ line rest, newline ∉ line ∧ file = line ++ newline :: rest ∧
        physicalLines file = (line ++ [newline]) :: physicalLines rest := by
  induction file with
  | nil => exact .inl ⟨List.not_mem_nil, rfl⟩
  | cons c cs ih =>
    by_cases hc : c = newline
    · exact .inr ⟨[], cs, List.not_mem_nil, by rw [hc, List.nil_append],
        by rw [physicalLines, if_pos hc, hc, List.nil_append]⟩
    · rw [physicalLines, if_neg hc]
      rcases ih with ⟨hcs, hl⟩ | ⟨line, rest, hline, rfl, hl⟩
      · refine .inl ⟨by simpa [hcs] using Ne.symm hc, ?_⟩
        rw [hl]
        by_cases hnil : cs = []
        · simp [hnil]
        · simp [hnil]
      · refine .inr ⟨c :: line, rest, by simpa [hline] using Ne.symm hc, rfl, ?_⟩
        rw [hl]
        rfl

/-- **The pieces of a file are the pieces of its lines**, one line after the other. -/
theorem fgetsAll_eq_flatMap (size : ℕ) (file : Bytes) :
    fgetsAll size size file = (physicalLines file).flatMap (fgetsAll size size) := by
  induction hn : file.length using Nat.strong_induction_on generalizing file with
  | _ n ih =>
    rcases physicalLines_cases file with ⟨-, hl⟩ | ⟨line, rest, hline, rfl, hl⟩
    · rw [hl]
      split
      · simp_all [fgetsAll]
      · simp
    · rw [hl, fgetsAll_append hline, List.flatMap_cons,
        ih rest.length (by simp at hn; omega) rest rfl]

/-- What fits the buffer is one piece. -/
theorem fgetsAll_eq_singleton {size room : ℕ} {line : Bytes} (hline : newline ∉ line)
    (hne : line ≠ []) (hfit : line.length < room) : fgetsAll size room line = [line] := by
  induction line generalizing room with
  | nil => exact absurd rfl hne
  | cons c cs ih =>
    rw [List.mem_cons, not_or] at hline
    rw [List.length_cons] at hfit
    by_cases hcs : cs = []
    · subst hcs
      rw [fgetsAll]
      split <;> rfl
    · have hpos : 0 < cs.length := List.length_pos_iff.mpr hcs
      rw [fgetsAll, if_neg (not_or.mpr ⟨Ne.symm hline.1, by omega⟩), ih hline.2 hcs (by omega)]

/-- So is a line that fits with its newline; one whose newline alone does not fit leaves it
as a piece of its own. -/
theorem fgetsAll_snoc_newline {size room : ℕ} {line : Bytes} (hline : newline ∉ line)
    (hfit : line.length < room) (hroom : 2 ≤ room) : fgetsAll size room (line ++ [newline]) =
      if line.length + 1 < room then [line ++ [newline]] else [line, [newline]] := by
  induction line generalizing room with
  | nil => simp [fgetsAll, show 0 + 1 < room by omega]
  | cons c cs ih =>
    rw [List.mem_cons, not_or] at hline
    rw [List.length_cons] at hfit
    rw [List.cons_append, fgetsAll]
    by_cases hr : room ≤ 2
    · -- there is room for one byte only
      have hcs : cs = [] := List.length_eq_zero_iff.mp (by omega)
      subst hcs
      rw [if_pos (.inr hr), if_neg (by simp only [List.length_cons, List.length_nil]; omega)]
      simp [fgetsAll]
    · rw [if_neg (not_or.mpr ⟨Ne.symm hline.1, hr⟩), ih hline.2 (by omega) (by omega),
        List.length_cons]
      by_cases hlt : cs.length + 1 + 1 < room
      · rw [if_pos (by omega), if_pos hlt]
      · rw [if_neg (by omega), if_neg hlt]

end Celeritas.CLib
