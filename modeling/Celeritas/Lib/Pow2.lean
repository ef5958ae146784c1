import Mathlib.Algebra.Group.Nat.Defs
import Mathlib.Data.Nat.Size
import Mathlib.Data.Nat.Log

/-!
# Rounding up to a power of two by smearing bits

Or-ing a number with itself shifted down by one, two, four, … places sets every bit below
its highest one; the successor of the result is a power of two. The argument is one
invariant: a bit of the result is set if one of the next `w` bits of the number is, and each
step doubles `w` (`Spread.smear`).
-/

set_option autoImplicit false

namespace Celeritas.Lib

/-- The bits of `s` are those of `v` and the `w - 1` places below each. -/
def Spread (v s w : ℕ) : Prop := ∀ i, s.testBit i = true ↔ ∃ j < w, v.testBit (i + j) = true

theorem Spread.one (v : ℕ) : Spread v v 1 := by
  intro i
  simp

/-- **One step of the smear** doubles the distance. -/
theorem Spread.smear {v s w : ℕ} (h : Spread v s w) : Spread v (s ||| s >>> w) (w + w) := by
  intro i
  rw [Nat.testBit_or, Nat.testBit_shiftRight, Bool.or_eq_true, h i, h (w + i)]
  constructor
  · rintro (⟨j, hj, hv⟩ | ⟨j, hj, hv⟩)
    · exact ⟨j, by omega, hv⟩
    · exact ⟨w + j, by omega, by rwa [show i + (w + j) = w + i + j by omega]⟩
  · rintro ⟨j, hj, hv⟩
    by_cases hjw : j < w
    · exact .inl ⟨j, hjw, hv⟩
    · exact .inr ⟨j - w, by omega, by rwa [show w + i + (j - w) = i + j by omega]⟩

/-- A number smeared over all its bits has every bit below its size. -/
theorem Spread.eq {v s w : ℕ} (h : Spread v s w) (hv : v < 2 ^ w) : s = 2 ^ v.size - 1 := by
  apply Nat.eq_of_testBit_eq
  intro i
  rw [Nat.testBit_two_pow_sub_one, Bool.eq_iff_iff, h i, decide_eq_true_iff]
  constructor
  · rintro ⟨j, -, hbit⟩
    have hle : 2 ^ (i + j) ≤ v := Nat.ge_two_pow_of_testBit hbit
    have := Nat.lt_size.mpr hle
    omega
  · intro hi
    have hsize : v.size ≤ w := Nat.size_le.mpr hv
    refine ⟨v.size - 1 - i, by omega, ?_⟩
    rw [show i + (v.size - 1 - i) = v.size - 1 by omega]
    -- the highest bit is at `v.size - 1`: some bit is there or above, and none is above
    have hle : 2 ^ (v.size - 1) ≤ v := Nat.lt_size.mp (by omega)
    obtain ⟨k, hk, hbit⟩ := Nat.exists_ge_and_testBit_of_ge_two_pow hle
    have hlt : k < v.size := Nat.lt_size.mpr (Nat.ge_two_pow_of_testBit hbit)
    rwa [show v.size - 1 = k by omega]

/-- The size of a number is the exponent of the power of two that its successor is rounded
up to. -/
theorem size_eq_clog (v : ℕ) : v.size = Nat.clog 2 (v + 1) := by
  apply le_antisymm
  · exact Nat.size_le.mpr (Nat.le_pow_clog Nat.one_lt_two (v + 1))
  · exact (Nat.clog_le_iff_le_pow Nat.one_lt_two).mpr (Nat.lt_size_self v)

/-- The least power of two that is no smaller. -/
def roundUp (n : ℕ) : ℕ := 2 ^ Nat.clog 2 n

theorem le_roundUp (n : ℕ) : n ≤ roundUp n := Nat.le_pow_clog Nat.one_lt_two n

theorem roundUp_le_iff {n k : ℕ} : roundUp n ≤ 2 ^ k ↔ n ≤ 2 ^ k := by
  rw [roundUp, Nat.pow_le_pow_iff_right Nat.one_lt_two, Nat.clog_le_iff_le_pow Nat.one_lt_two]

theorem roundUp_pos (n : ℕ) : 0 < roundUp n := Nat.two_pow_pos _

theorem roundUp_mono {m n : ℕ} (h : m ≤ n) : roundUp m ≤ roundUp n :=
  roundUp_le_iff.mpr (h.trans (le_roundUp n))

@[simp] theorem roundUp_roundUp (n : ℕ) : roundUp (roundUp n) = roundUp n :=
  le_antisymm (roundUp_le_iff.mpr le_rfl) (le_roundUp _)

end Celeritas.Lib
