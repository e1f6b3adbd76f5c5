/-
Little-endian bytes of a natural number, for any number of bytes. `leNat_leBytes`: reading back what was written gives
the value, when it fits.
-/
import Mathlib.Tactic

namespace NuStars.LittleEndian

/-- the low n bytes of v, least significant first -/
def leBytes : ℕ → ℕ → List UInt8
  | 0, _ => []
  | n + 1, v => UInt8.ofNat v :: leBytes n (v / 256)

/-- the number a byte string spells, least significant byte first -/
def leNat : List UInt8 → ℕ
  | [] => 0
  | b :: bs => b.toNat + 256 * leNat bs

@[simp] theorem length_leBytes (n v : ℕ) : (leBytes n v).length = n := by
  induction n generalizing v with
  | zero => rfl
  | succ n ih => simp [leBytes, ih]

theorem leNat_leBytes (n v : ℕ) (h : v < 256 ^ n) : leNat (leBytes n v) = v := by
  induction n generalizing v with
  | zero =>
    simp only [pow_zero, Nat.lt_one_iff] at h
    simp [leBytes, leNat, h]
  | succ n ih =>
    have hdiv : v / 256 < 256 ^ n := by
      rw [pow_succ] at h
      exact Nat.div_lt_of_lt_mul (by rwa [Nat.mul_comm])
    have hlow : (UInt8.ofNat v).toNat = v % 256 := by simp
    rw [leBytes, leNat, ih _ hdiv, hlow]
    exact Nat.mod_add_div v 256

end NuStars.LittleEndian
