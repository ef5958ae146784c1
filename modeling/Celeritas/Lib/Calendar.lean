import Mathlib.Data.Int.Notation
import Mathlib.Order.Basic
import Mathlib.Tactic.NormNum

/-!
# The Gregorian calendar

The dates of the days before and after the first of January 1970, which is day `0`. In
between the years are counted from March on, so that the leap day is the last of its year
(`splitYear`), and the months of such a year begin at multiples of 30.6 days.
-/

set_option autoImplicit false

namespace Celeritas.Lib

/-- `month` counts from 1. -/
structure Date where
  year : ℤ
  month : ℤ
  day : ℤ
  deriving DecidableEq

/-- The days of `y` years. -/
def daysBeforeYear (y : ℤ) : ℤ := 365 * y + y / 4 - y / 100 + y / 400

def Date.toDays (c : Date) : ℤ :=
  daysBeforeYear (if c.month ≤ 2 then c.year - 1 else c.year) +
    (153 * ((c.month + 9) % 12) + 2) / 5 + c.day - 719469

/-- A year from March on, and the day in it. The last century of four and the last year of
four are one day longer than the others, and so are not to be left for the next one. -/
def splitYear (n : ℤ) : ℤ × ℤ :=
  let r := n % 146097
  let c := min (r / 36524) 3
  let r := r - 36524 * c
  let q := r / 1461
  let r := r - 1461 * q
  let a := min (r / 365) 3
  (400 * (n / 146097) + 100 * c + 4 * q + a, r - 365 * a)

def Date.ofDays (n : ℤ) : Date :=
  let (y, d) := splitYear (n + 719468)
  let m := (5 * d + 2) / 153
  let month := if m < 10 then m + 3 else m - 9
  { year := if month ≤ 2 then y + 1 else y
    month
    day := d - (153 * m + 2) / 5 + 1 }

theorem splitYear_spec (n : ℤ) : daysBeforeYear (splitYear n).1 + (splitYear n).2 = n ∧
    0 ≤ (splitYear n).2 ∧ (splitYear n).2 ≤ 365 := by
  simp only [splitYear, daysBeforeYear]
  generalize hc : min (n % 146097 / 36524) 3 = c
  have hcb : 0 ≤ c ∧ c ≤ 3 ∧ 0 ≤ n % 146097 - 36524 * c ∧ n % 146097 - 36524 * c ≤ 36524 := by
    omega
  generalize hr : n % 146097 - 36524 * c = r at *
  have hqb : 0 ≤ r / 1461 ∧ r / 1461 ≤ 24 := by omega
  generalize hq : r / 1461 = q at *
  have hsb : 0 ≤ r - 1461 * q ∧ r - 1461 * q ≤ 1460 := by omega
  generalize hs : r - 1461 * q = s at *
  generalize ha : min (s / 365) 3 = a
  have hab : 0 ≤ a ∧ a ≤ 3 ∧ 0 ≤ s - 365 * a ∧ s - 365 * a ≤ 365 := by omega
  -- the leap years among those before this one
  have h4 : (400 * (n / 146097) + 100 * c + 4 * q + a) / 4 =
      100 * (n / 146097) + 25 * c + q := by omega
  have h100 : (400 * (n / 146097) + 100 * c + 4 * q + a) / 100 = 4 * (n / 146097) + c := by omega
  have h400 : (400 * (n / 146097) + 100 * c + 4 * q + a) / 400 = n / 146097 := by omega
  rw [h4, h100, h400]
  omega

/-- The day of a date is the day it is the date of. -/
theorem Date.toDays_ofDays (n : ℤ) : (Date.ofDays n).toDays = n := by
  obtain ⟨hn, h0, h1⟩ := splitYear_spec (n + 719468)
  generalize hs : splitYear (n + 719468) = p at *
  obtain ⟨y, d⟩ := p
  simp only [Date.ofDays, Date.toDays, hs] at *
  generalize hm : (5 * d + 2) / 153 = m
  have hmb : 0 ≤ m ∧ m ≤ 11 := by omega
  by_cases h10 : m < 10
  · have hmonth : ¬ m + 3 ≤ 2 := by omega
    simp only [if_pos h10, if_neg hmonth]
    omega
  · have hmonth : m - 9 ≤ 2 := by omega
    simp only [if_neg h10, if_pos hmonth, Int.add_sub_cancel]
    omega

theorem Date.ofDays_bounds (n : ℤ) : (1 ≤ (Date.ofDays n).month ∧ (Date.ofDays n).month ≤ 12) ∧
    1 ≤ (Date.ofDays n).day ∧ (Date.ofDays n).day ≤ 31 := by
  obtain ⟨-, h0, h1⟩ := splitYear_spec (n + 719468)
  generalize hs : splitYear (n + 719468) = p at *
  obtain ⟨y, d⟩ := p
  simp only [Date.ofDays, hs] at *
  split_ifs <;> omega

theorem daysBeforeYear_mono {y y' : ℤ} (h : y ≤ y') : daysBeforeYear y ≤ daysBeforeYear y' := by
  simp only [daysBeforeYear]
  omega

theorem daysBeforeYear_succ (y : ℤ) : daysBeforeYear y + 365 ≤ daysBeforeYear (y + 1) := by
  simp only [daysBeforeYear]
  omega

/-- January is the month from the day 306 on. -/
theorem Date.year_ofDays (n : ℤ) : (Date.ofDays n).year =
    if (splitYear (n + 719468)).2 < 306 then (splitYear (n + 719468)).1
    else (splitYear (n + 719468)).1 + 1 := by
  obtain ⟨-, h0, h1⟩ := splitYear_spec (n + 719468)
  simp only [Date.ofDays]
  split_ifs <;> omega

/-- The days before a year are those before its first of January. -/
theorem Date.year_lt_iff {n y : ℤ} : (Date.ofDays n).year < y ↔ n < Date.toDays ⟨y, 1, 1⟩ := by
  obtain ⟨hn, h0, h1⟩ := splitYear_spec (n + 719468)
  have hjan : Date.toDays ⟨y, 1, 1⟩ = daysBeforeYear (y - 1) + 306 - 719468 := by
    simp only [Date.toDays]
    norm_num
    omega
  rw [Date.year_ofDays, hjan]
  generalize splitYear (n + 719468) = p at *
  have hsucc := daysBeforeYear_succ (y - 1)
  have hpred := daysBeforeYear_succ (y - 2)
  rw [show y - 1 + 1 = y by omega] at hsucc
  rw [show y - 2 + 1 = y - 1 by omega] at hpred
  rcases lt_trichotomy p.1 (y - 1) with hlt | heq | hgt
  · have hle : p.1 ≤ y - 2 := by omega
    have hmono := daysBeforeYear_mono hle
    split_ifs <;> omega
  · rw [heq] at hn ⊢
    split_ifs <;> omega
  · have hle : y ≤ p.1 := by omega
    have hmono := daysBeforeYear_mono hle
    split_ifs <;> omega

example : Date.ofDays 11016 = ⟨2000, 2, 29⟩ := by decide

end Celeritas.Lib
