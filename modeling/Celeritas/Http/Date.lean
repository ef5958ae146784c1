import Celeritas.CLib.Text
import Celeritas.Lib.Calendar

/-!
# The dates in the headers

`get_http_date_time_t` prints a time for `Last-Modified`, and `get_http_date_now` the current
one for `Date`, into 30 bytes. `strftime` writes nothing of use if the text and its terminator
do not fit, and its result is not looked at; the times for which it fits are those of the
years with at most four characters, and then the client gets the time back from the text
(`httpDate_spec`).
-/

set_option autoImplicit false

namespace Celeritas

open CLib Lib

/-- `struct tm`, with its `int`s as integers. -/
structure Tm where
  sec : ℤ
  min : ℤ
  hour : ℤ
  mday : ℤ
  mon : ℤ
  year : ℤ
  wday : ℤ
  deriving DecidableEq

/-- `gmtime_r`; it fails where the year is not an `int`. -/
def gmtime (t : ℤ) : Option Tm :=
  let date := Date.ofDays (t / 86400)
  let tm : Tm :=
    { sec := t % 60
      min := t / 60 % 60
      hour := t / 3600 % 24
      mday := date.day
      mon := date.month - 1
      year := date.year - 1900
      wday := (t / 86400 + 4) % 7 }
  if -2 ^ 31 ≤ tm.year ∧ tm.year < 2 ^ 31 then some tm else none

def dayNames : List Bytes :=
  [lit "Sun", lit "Mon", lit "Tue", lit "Wed", lit "Thu", lit "Fri", lit "Sat"]

def monthNames : List Bytes :=
  [lit "Jan", lit "Feb", lit "Mar", lit "Apr", lit "May", lit "Jun", lit "Jul", lit "Aug",
    lit "Sep", lit "Oct", lit "Nov", lit "Dec"]

/-- `%d`, `%H`, `%M` and `%S` -/
def twoDigits (i : ℤ) : Bytes := [(48 + i / 10).toNat.toUInt8, (48 + i % 10).toNat.toUInt8]

/-- The text of `"%a, %d %b %Y %H:%M:%S GMT"`. -/
def imfFixdate (tm : Tm) : Bytes :=
  dayNames.getD tm.wday.toNat (lit "???") ++ lit ", " ++ twoDigits tm.mday ++ lit " " ++
    monthNames.getD tm.mon.toNat (lit "???") ++ lit " " ++ decimal (tm.year + 1900) ++ lit " " ++
    twoDigits tm.hour ++ lit ":" ++ twoDigits tm.min ++ lit ":" ++ twoDigits tm.sec ++ lit " GMT"

/-- `strftime` into `len` bytes: `none` are indeterminate contents. -/
def strftime (len : ℕ) (text : Bytes) : Option Bytes := if text.length < len then some text else none

/-- `get_http_date_time_t` -/
def getHttpDateTimeT (len : ℕ) (theTime : ℤ) : Option Bytes :=
  (gmtime theTime).bind fun tm => strftime len (imfFixdate tm)

/-! ## Reading a date -/

def readDigits (text : Bytes) : ℤ := digitsVal text

/-- The date of a header, by the places of its parts. -/
def readHttpDate (text : Bytes) : ℤ :=
  let year := (text.drop 12).takeWhile (· != charByte ' ')
  let clock := (text.drop (13 + year.length))
  let day := Date.toDays
    { year := (strtol year).val
      month := monthNames.findIdx (· == (text.drop 8).take 3) + 1
      day := readDigits ((text.drop 5).take 2) }
  86400 * day + 3600 * readDigits (clock.take 2) + 60 * readDigits ((clock.drop 3).take 2) +
    readDigits ((clock.drop 6).take 2)

theorem readDigits_twoDigits {i : ℤ} (h0 : 0 ≤ i) (h99 : i < 100) :
    readDigits (twoDigits i) = i := by
  obtain ⟨n, rfl⟩ := Int.eq_ofNat_of_zero_le h0
  have hall : ∀ n < 100, readDigits (twoDigits (n : ℕ)) = (n : ℤ) := by decide
  exact hall n (by omega)

theorem monthNames_spec {m : ℤ} (h0 : 0 ≤ m) (h11 : m < 12) :
    (monthNames.getD m.toNat (lit "???")).length = 3 ∧
      monthNames.findIdx (· == monthNames.getD m.toNat (lit "???")) = m.toNat := by
  have hall : ∀ n < 12, (monthNames.getD n (lit "???")).length = 3 ∧
      monthNames.findIdx (· == monthNames.getD n (lit "???")) = n := by decide
  exact hall m.toNat (by omega)

theorem length_dayName {w : ℤ} (h0 : 0 ≤ w) (h6 : w < 7) :
    (dayNames.getD w.toNat (lit "???")).length = 3 := by
  have hall : ∀ n < 7, (dayNames.getD n (lit "???")).length = 3 := by decide
  exact hall w.toNat (by omega)

/-- What `gmtime_r` makes of a time. -/
structure Tm.Of (t : ℤ) (tm : Tm) : Prop where
  sec : 0 ≤ tm.sec ∧ tm.sec < 60
  min : 0 ≤ tm.min ∧ tm.min < 60
  hour : 0 ≤ tm.hour ∧ tm.hour < 24
  mday : 1 ≤ tm.mday ∧ tm.mday ≤ 31
  mon : 0 ≤ tm.mon ∧ tm.mon < 12
  year : -2 ^ 31 ≤ tm.year ∧ tm.year < 2 ^ 31
  wday : 0 ≤ tm.wday ∧ tm.wday < 7
  time : 86400 * Date.toDays ⟨tm.year + 1900, tm.mon + 1, tm.mday⟩ +
    3600 * tm.hour + 60 * tm.min + tm.sec = t

theorem gmtime_spec {t : ℤ} {tm : Tm} (h : gmtime t = some tm) : tm.Of t := by
  simp only [gmtime, Option.ite_none_right_eq_some, Option.some.injEq] at h
  obtain ⟨hyear, rfl⟩ := h
  have hdate := Date.ofDays_bounds (t / 86400)
  have hday := Date.toDays_ofDays (t / 86400)
  generalize Date.ofDays (t / 86400) = date at *
  constructor
  case year => exact hyear
  case mday => exact hdate.2
  case time =>
    simp only [Int.sub_add_cancel, hday]
    omega
  all_goals
    dsimp only
    omega

/-- The parts in their places; `cl` is the clock and what follows. -/
theorem readHttpDate_parts {wd mo yr cl : Bytes} {d : ℤ} (hwd : wd.length = 3)
    (hmo : mo.length = 3) (hyr : charByte ' ' ∉ yr) {text : Bytes}
    (htext : text = wd ++ (lit ", " ++ (twoDigits d ++ (lit " " ++ (mo ++ (lit " " ++
      (yr ++ (lit " " ++ cl)))))))) :
    (text.drop 5).take 2 = twoDigits d ∧ (text.drop 8).take 3 = mo ∧
      (text.drop 12).takeWhile (· != charByte ' ') = yr ∧ text.drop (13 + yr.length) = cl := by
  obtain ⟨a, b, c, rfl⟩ := List.length_eq_three.mp hwd
  obtain ⟨x, y, z, rfl⟩ := List.length_eq_three.mp hmo
  have hspace : lit " " = [charByte ' '] := by decide
  have hcomma : lit ", " = [charByte ',', charByte ' '] := by decide
  have hyear : text.drop 12 = yr ++ charByte ' ' :: cl := by
    rw [htext, hspace, hcomma]
    rfl
  refine ⟨?_, ?_, ?_, ?_⟩
  · rw [htext, hcomma]
    rfl
  · rw [htext, hspace, hcomma]
    rfl
  · have hall : ∀ e ∈ yr, (e != charByte ' ') = true := by
      intro e he
      exact bne_iff_ne.mpr (ne_of_mem_of_not_mem he hyr)
    rw [hyear, List.takeWhile_append_of_pos hall, List.takeWhile_cons]
    simp
  · have hsplit : 13 + yr.length = 12 + (yr.length + 1) := by omega
    rw [hsplit, ← List.drop_drop, hyear, ← List.drop_drop, List.drop_left]
    rfl

theorem readHttpDate_clock {h m sec : ℤ} {rest clock : Bytes}
    (hclock : clock = twoDigits h ++ (lit ":" ++ (twoDigits m ++ (lit ":" ++
      (twoDigits sec ++ rest))))) :
    clock.take 2 = twoDigits h ∧ (clock.drop 3).take 2 = twoDigits m ∧
      (clock.drop 6).take 2 = twoDigits sec := by
  have hcolon : lit ":" = [charByte ':'] := by decide
  rw [hclock, hcolon]
  exact ⟨rfl, rfl, rfl⟩

theorem space_not_mem_decimal (i : ℤ) : charByte ' ' ∉ decimal i := by
  have hd : ∀ n : ℕ, charByte ' ' ∉ decimalNat n :=
    fun n h => absurd (mem_decimalNat h).1 (by decide)
  cases i with
  | ofNat n => exact hd n
  | negSucc n =>
    intro h
    rcases List.mem_cons.mp h with h | h
    · exact absurd h (by decide)
    · exact hd _ h

/-- The clock and what follows. -/
def clockText (tm : Tm) : Bytes :=
  twoDigits tm.hour ++ (lit ":" ++ (twoDigits tm.min ++ (lit ":" ++
    (twoDigits tm.sec ++ lit " GMT"))))

theorem imfFixdate_eq (tm : Tm) : imfFixdate tm = dayNames.getD tm.wday.toNat (lit "???") ++
    (lit ", " ++ (twoDigits tm.mday ++ (lit " " ++ (monthNames.getD tm.mon.toNat (lit "???") ++
      (lit " " ++ (decimal (tm.year + 1900) ++ (lit " " ++ clockText tm))))))) := by
  simp only [imfFixdate, clockText, List.append_assoc]

/-- **The time comes back** from its text. -/
theorem readHttpDate_imfFixdate {t : ℤ} {tm : Tm} (h : tm.Of t) :
    readHttpDate (imfFixdate tm) = t := by
  obtain ⟨hmlen, hmidx⟩ := monthNames_spec h.mon.1 h.mon.2
  have hwd := length_dayName h.wday.1 h.wday.2
  obtain ⟨hd, hm, hy, hc⟩ := readHttpDate_parts hwd hmlen (space_not_mem_decimal _)
    (imfFixdate_eq tm)
  obtain ⟨hh, hmin, hs⟩ := readHttpDate_clock (clockText.eq_1 tm)
  have hyear : (strtol (decimal (tm.year + 1900))).val = tm.year + 1900 := by
    have hlong := h.year
    rw [strtol_of_numeral (numeral_decimal _) (by simp only [longMin]; omega)
      (by simp only [longMax]; omega)]
  have hmon := Int.toNat_of_nonneg h.mon.1
  simp only [readHttpDate, hd, hm, hy, hc, hh, hmin, hs, hyear, hmidx, hmon]
  rw [readDigits_twoDigits h.hour.1 (h.hour.2.trans (by decide)),
    readDigits_twoDigits h.min.1 (h.min.2.trans (by decide)),
    readDigits_twoDigits h.sec.1 (h.sec.2.trans (by decide)),
    readDigits_twoDigits (by have := h.mday.1; omega) (by have := h.mday.2; omega)]
  exact h.time

/-! ## The buffer -/

/-- The sign takes the place of a digit. -/
theorem length_decimal_le_iff {i : ℤ} {k : ℕ} :
    (decimal i).length ≤ k + 2 ↔ -10 ^ (k + 1) < i ∧ i < 10 ^ (k + 2) := by
  have hd : ∀ n j : ℕ, (decimalNat n).length ≤ j + 1 ↔ (n : ℤ) < 10 ^ (j + 1) := by
    intro n j
    rw [decimalNat, List.length_map, Nat.length_toDigits_le_iff (by omega) (by omega)]
    exact_mod_cast Iff.rfl
  have hpos : (0 : ℤ) < 10 ^ (k + 1) ∧ (0 : ℤ) < 10 ^ (k + 2) := ⟨by positivity, by positivity⟩
  cases i with
  | ofNat n =>
    have h : (decimalNat n).length ≤ k + 2 ↔ (n : ℤ) < 10 ^ (k + 2) := hd n (k + 1)
    simp only [decimal, Int.ofNat_eq_natCast, h]
    omega
  | negSucc n =>
    have h := hd (n + 1) k
    simp only [decimal, List.length_cons]
    omega

theorem length_imfFixdate {t : ℤ} {tm : Tm} (h : tm.Of t) :
    (imfFixdate tm).length = 25 + (decimal (tm.year + 1900)).length := by
  have hwd := length_dayName h.wday.1 h.wday.2
  have hmo := (monthNames_spec h.mon.1 h.mon.2).1
  have hlit : (lit " ").length = 1 ∧ (lit ", ").length = 2 ∧ (lit ":").length = 1 ∧
      (lit " GMT").length = 4 := by decide
  simp only [imfFixdate_eq, clockText, List.length_append, hwd, hmo, hlit, twoDigits,
    List.length_cons, List.length_nil]
  omega

/-- Of the years that `gmtime_r` knows, those with four characters. -/
theorem year_bounds {t : ℤ} : -999 ≤ (Date.ofDays (t / 86400)).year ∧
    (Date.ofDays (t / 86400)).year ≤ 9999 ↔ -93692592000 ≤ t ∧ t < 253402300800 := by
  have hlo : (Date.ofDays (t / 86400)).year < -999 ↔ t / 86400 < -1084405 := Date.year_lt_iff
  have hhi : (Date.ofDays (t / 86400)).year < 10000 ↔ t / 86400 < 2932897 := Date.year_lt_iff
  omega

theorem year_of_gmtime {t : ℤ} {tm : Tm} (h : gmtime t = some tm) :
    tm.year + 1900 = (Date.ofDays (t / 86400)).year := by
  simp only [gmtime, Option.ite_none_right_eq_some, Option.some.injEq] at h
  rw [← h.2]
  exact Int.sub_add_cancel _ _

theorem twoDigits_spec {i : ℤ} (h0 : 0 ≤ i) (h99 : i < 100) :
    OneLine (twoDigits i) ∧ 0 ∉ twoDigits i := by
  obtain ⟨n, rfl⟩ := Int.eq_ofNat_of_zero_le h0
  have hall : ∀ n < 100, OneLine (twoDigits (n : ℕ)) ∧ 0 ∉ twoDigits (n : ℕ) := by
    unfold OneLine
    decide
  exact hall n (by omega)

theorem oneLine_imfFixdate {t : ℤ} {tm : Tm} (h : tm.Of t) :
    OneLine (imfFixdate tm) ∧ 0 ∉ imfFixdate tm := by
  have hname : ∀ (names : List Bytes) (n : ℕ), (∀ m ∈ names, OneLine m ∧ 0 ∉ m) →
      OneLine (names.getD n (lit "???")) ∧ 0 ∉ names.getD n (lit "???") := by
    intro names n hall
    rw [List.getD_eq_getElem?_getD]
    cases hn : names[n]? with
    | some m => exact hall m (List.mem_of_getElem? hn)
    | none =>
      unfold OneLine
      decide
  have hwd := hname dayNames tm.wday.toNat (by unfold OneLine; decide)
  have hmo := hname monthNames tm.mon.toNat (by unfold OneLine; decide)
  have hlit : (OneLine (lit " ") ∧ OneLine (lit ", ") ∧ OneLine (lit ":") ∧
      OneLine (lit " GMT")) ∧ 0 ∉ lit " " ∧ 0 ∉ lit ", " ∧ 0 ∉ lit ":" ∧ 0 ∉ lit " GMT" := by
    unfold OneLine
    decide
  have hyear := oneLine_decimal (tm.year + 1900)
  have hyear0 := zero_not_mem_decimal (tm.year + 1900)
  have hmday := twoDigits_spec (Int.le_of_lt h.mday.1) (h.mday.2.trans_lt (by decide))
  have hhour := twoDigits_spec h.hour.1 (h.hour.2.trans (by decide))
  have hmin := twoDigits_spec h.min.1 (h.min.2.trans (by decide))
  have hsec := twoDigits_spec h.sec.1 (h.sec.2.trans (by decide))
  simp only [imfFixdate, oneLine_append, List.mem_append, not_or]
  tauto

theorem getHttpDateTimeT_eq_some {len : ℕ} {t : ℤ} {text : Bytes} :
    getHttpDateTimeT len t = some text ↔
      ∃ tm, gmtime t = some tm ∧ (imfFixdate tm).length < len ∧ imfFixdate tm = text := by
  simp only [getHttpDateTimeT, Option.bind_eq_some_iff, strftime, Option.ite_none_right_eq_some,
    Option.some.injEq]

/-- **A date is written for the times from the year -999 to the year 9999**, and no others;
and the time can be read from it. -/
theorem httpDate_spec (t : ℤ) :
    ((getHttpDateTimeT 30 t).isSome ↔ -93692592000 ≤ t ∧ t < 253402300800) ∧
      ∀ text, getHttpDateTimeT 30 t = some text →
        readHttpDate text = t ∧ (-30610224000 ≤ t → text.length = 29) := by
  rw [← year_bounds, Option.isSome_iff_exists]
  refine ⟨⟨?_, ?_⟩, ?_⟩
  · rintro ⟨text, htext⟩
    obtain ⟨tm, htm, hlen, -⟩ := getHttpDateTimeT_eq_some.mp htext
    have htotal := length_imfFixdate (gmtime_spec htm)
    have hyear : (decimal (tm.year + 1900)).length ≤ 2 + 2 := by omega
    rw [length_decimal_le_iff, year_of_gmtime htm] at hyear
    omega
  · intro hyear
    have hsome : ∃ tm, gmtime t = some tm := by
      refine ⟨_, if_pos ?_⟩
      dsimp only
      omega
    obtain ⟨tm, htm⟩ := hsome
    refine ⟨_, getHttpDateTimeT_eq_some.mpr ⟨tm, htm, ?_, rfl⟩⟩
    have htotal := length_imfFixdate (gmtime_spec htm)
    have hdec : (decimal (tm.year + 1900)).length ≤ 2 + 2 := by
      rw [length_decimal_le_iff, year_of_gmtime htm]
      omega
    omega
  · intro text htext
    obtain ⟨tm, htm, hlen, rfl⟩ := getHttpDateTimeT_eq_some.mp htext
    refine ⟨readHttpDate_imfFixdate (gmtime_spec htm), ?_⟩
    intro ht
    have htotal := length_imfFixdate (gmtime_spec htm)
    have hyear : ¬ (Date.ofDays (t / 86400)).year < 1000 := by
      rw [Date.year_lt_iff]
      have hjan : Date.toDays ⟨1000, 1, 1⟩ = -354285 := by decide
      omega
    have hdec : ¬ (decimal (tm.year + 1900)).length ≤ 1 + 2 := by
      rw [length_decimal_le_iff, year_of_gmtime htm]
      omega
    omega

theorem httpDate_november :
    getHttpDateTimeT 30 784111777 = some (lit "Sun, 06 Nov 1994 08:49:37 GMT") ∧
      readHttpDate (lit "Sun, 06 Nov 1994 08:49:37 GMT") = 784111777 := by
  have htext : getHttpDateTimeT 30 784111777 = some (lit "Sun, 06 Nov 1994 08:49:37 GMT") := by
    decide
  exact ⟨htext, ((httpDate_spec 784111777).2 _ htext).1⟩

end Celeritas
