import Mathlib.Algebra.Group.Int.Defs

/-!
# C integers

An `int` of 32 bits, as the integer it stands for.
-/

namespace ZeosSOA

abbrev intMax : Int := 2 ^ 31 - 1

/-- A C `int`: arithmetic modulo `2^32`, read as signed. -/
def toInt32 (x : Int) : Int := (x + 2 ^ 31) % 2 ^ 32 - 2 ^ 31

theorem toInt32_of_range {x : Int} (h : -2 ^ 31 ≤ x) (h' : x ≤ intMax) : toInt32 x = x := by
  unfold toInt32
  simp only [intMax] at h'
  omega

theorem toInt32_range (x : Int) : -2 ^ 31 ≤ toInt32 x ∧ toInt32 x ≤ intMax := by
  unfold toInt32 intMax
  omega

end ZeosSOA
