/-
The covariance and the gain of the filter, along every call.

The estimates of a call carry positive definite covariances, so what is left is to read them in the columns and to put
the numbers of this filter, Q = 25 and R = 1, in.

- `iteration`: each iteration of a call that returns takes one of its estimates to the next one;
- `covariance_valid`: each column of `p` is symmetric and positive definite; each innovation has a variance of 26 or
  more; the gain of the position is in [25/26, 1), the updated position is the combination of prediction and measurement
  it weighs, and its variance is below 1.
-/
import NuStars.Kalman.Filter

namespace NuStars.Kalman

open Matrix NuStars.Linear NuStars.Parser

/-! ## One update -/

theorem residual_predicted {P : Matrix (Fin 2) (Fin 2) ℚ} (hP : P.PosDef) (dt : ℚ) : 26 ≤ residual (pPred dt P) := by
  have hA : (A dt * P * (A dt)ᵀ).PosDef := by
    rw [← conjTranspose_eq_transpose_of_trivial]
    exact hP.mul_mul_conjTranspose_same (vecMul_injective_of_isUnit (isUnit_A dt))
  have hdiag : 0 < (A dt * P * (A dt)ᵀ) 0 0 := hA.diag_pos
  have h : residual (pPred dt P) = (A dt * P * (A dt)ᵀ) 0 0 + 25 + 1 := by
    rw [residual, mul_C, C_mul, pPred, map_apply, Q, R]
  linarith

theorem gain_bounds (E : Estimate (Fin 2) ℚ) (z : Sample) :
    25 / 26 ≤ sensor.gain (E.predict (motion z)).cov 0 0 ∧ sensor.gain (E.predict (motion z)).cov 0 0 < 1 := by
  have hS : 26 ≤ sensor.innovation (E.predict (motion z)).cov := by
    rw [← residual_eq]
    exact residual_predicted E.posDef z.dt
  have hgain : (C * sensor.gain (E.predict (motion z)).cov) 0 0 =
      1 - 1 / sensor.innovation (E.predict (motion z)).cov :=
    sensor.measured_gain (E.predict (motion z)).posDef.posSemidef
  have hpos : 0 < 1 / sensor.innovation (E.predict (motion z)).cov := by positivity
  have hle : 1 / sensor.innovation (E.predict (motion z)).cov ≤ 1 / 26 := one_div_le_one_div_of_le (by norm_num) hS
  rw [C_mul] at hgain
  rw [hgain]
  exact ⟨by linarith, by linarith⟩

theorem variance_advance (E : Estimate (Fin 2) ℚ) (z : Sample) : (advance E z).cov 0 0 < 1 := by
  have hM := (E.predict (motion z)).posDef.posSemidef
  have hvar : (C * (advance E z).cov * Cᵀ) 0 0 = 1 - 1 ^ 2 / sensor.innovation (E.predict (motion z)).cov :=
    sensor.measured_updated hM
  have hS := sensor.innovation_pos hM
  have hpos : 0 < 1 ^ 2 / sensor.innovation (E.predict (motion z)).cov := by positivity
  rw [mul_C, C_mul] at hvar
  linarith

theorem position_advance (E : Estimate (Fin 2) ℚ) (z : Sample) :
    (advance E z).mean 0 0 = (1 - sensor.gain (E.predict (motion z)).cov 0 0) * xPred z.dt z.acc E.mean 0 0 +
      sensor.gain (E.predict (motion z)).cov 0 0 * z.pos := by
  have h := (E.predict (motion z)).measured_mean sensor z.pos
  simp only [sensor, C_mul] at h
  exact h

/-! ## Along a call -/

/-- the iteration `ii` of a call that returned `c`: what it reads, and the columns it leaves in `c` -/
structure Iteration (t h a : List ℚ) (s e : ℤ) (c : Columns) (ii : ℤ) (z : Sample) (x x' : Column 2)
    (p p' : Column 4) : Prop where
  dt : ∃ t1 t0, element t (ii + 1) = some t1 ∧ element t ii = some t0 ∧ z.dt = t1 - t0
  acc : element a (ii + 1) = some z.acc
  pos : element h (ii + 1) = some z.pos
  read : ∃ c₀, (saved s e).bind (loop t h a s (ii - s).toNat) = some c₀ ∧
    element c₀.x (ii - s + 1) = some (some x) ∧ element c₀.p (ii - s + 1) = some (some p)
  x' : element c.x (ii + 1 - s + 1) = some (some x')
  p' : element c.p (ii + 1 - s + 1) = some (some p')

/-- each iteration takes an estimate to the next one -/
theorem iteration {t h a : List ℚ} {s e : ℤ} (hse : s ≤ e) {c : Columns} (hc : kalmanExample t h a s e = some c)
    {ii : ℤ} (hs : s ≤ ii) (he : ii < e) :
    ∃ (z : Sample) (E : Estimate (Fin 2) ℚ),
      Iteration t h a s e c ii z E.mean (advance E z).mean (column E.cov) (column (advance E z).cov) := by
  obtain ⟨zs, hlen, hzs, rfl⟩ := (kalmanExample_some hse).1 hc
  obtain ⟨k, rfl⟩ := Int.le.dest hs
  have hk : k < zs.length := by omega
  obtain ⟨hdt, hacc, hpos⟩ := sample_eq.1 (hzs k hk)
  have hloop := loop_samples hse hlen hzs hk.le
  obtain ⟨hx', hp'⟩ := element_columns zs (k := k + 1) hk
  rw [List.take_succ_eq_append_getElem hk, List.foldl_concat] at hx' hp'
  obtain ⟨Es, hEs, hlast⟩ := estimates_last (zs.take k)
  obtain ⟨hx, hp⟩ := filled_last (e - s + 1).toNat Es ((zs.take k).foldl advance start)
  rw [← hlast, hEs, List.length_take_of_le hk.le] at hx hp
  have hread : s + (k : ℤ) - s + 1 = k + 1 := by ring
  have hwrite : s + (k : ℤ) + 1 - s + 1 = (k + 1 : ℕ) + 1 := by push_cast; ring
  have hindex : (s + (k : ℤ) - s).toNat = k := by omega
  refine ⟨zs[k], (zs.take k).foldl advance start, ⟨hdt, hacc, hpos, ?_, ?_, ?_⟩⟩
  · rw [hindex, hread]
    exact ⟨_, hloop, hx, hp⟩
  · rw [hwrite, hx']
  · rw [hwrite, hp']

/-- **The covariance stays valid.** A call on a window s ≤ e inside the arrays returns. Whenever a call with s ≤ e
returns, all e − s + 1 columns of `p` are written, each one symmetric and positive definite as a 2×2 matrix. In each
iteration `C * p_pred * C' + R` is 26 or more, so that the gain is defined; the position component of the gain is in
[25/26, 1), the updated position is the convex combination of prediction and measurement it gives, and the updated
position variance is below 1. -/
theorem covariance_valid (t h a : List ℚ) {s e : ℤ} (hse : s ≤ e) :
    (1 ≤ s → e ≤ t.length → e ≤ h.length → e ≤ a.length → ∃ c, kalmanExample t h a s e = some c) ∧
      ∀ c, kalmanExample t h a s e = some c →
        (c.p.length = e - s + 1 ∧
          ∀ v ∈ c.p, ∃ p, v = some p ∧ (square p).IsSymm ∧ (square p).PosDef) ∧
        ∀ ii, s ≤ ii → ii < e → ∃ z x x' p p', Iteration t h a s e c ii z x x' p p' ∧
          26 ≤ residual (pPred z.dt (square p)) ∧ p' 0 0 < 1 ∧
          ∃ k, K (pPred z.dt (square p)) = some k ∧ 25 / 26 ≤ k 0 0 ∧ k 0 0 < 1 ∧
            x' 0 0 = (1 - k 0 0) * xPred z.dt z.acc x 0 0 + k 0 0 * z.pos := by
  refine ⟨fun hs ht hh ha => kalmanExample_isSome t h a hs hse ht hh ha, ?_⟩
  intro c hc
  refine ⟨⟨?_, ?_⟩, ?_⟩
  · obtain ⟨zs, hlen, -, rfl⟩ := (kalmanExample_some hse).1 hc
    exact (length_columns hse hlen).2
  · intro v hv
    obtain ⟨zs, -, -, rfl⟩ := (kalmanExample_some hse).1 hc
    obtain ⟨E, -, rfl⟩ := List.mem_map.1 hv
    refine ⟨column E.cov, rfl, ?_⟩
    rw [square_column]
    exact ⟨isSymm_of_posSemidef E.posDef.posSemidef, E.posDef⟩
  · intro ii hs he
    obtain ⟨z, E, hit⟩ := iteration hse hc hs he
    have hK : K (pPred z.dt E.cov) = some (sensor.gain (E.predict (motion z)).cov) :=
      K_eq (E.predict (motion z)).posDef.posSemidef
    refine ⟨z, _, _, _, _, hit, ?_, variance_advance E z, _, ?_, (gain_bounds E z).1, (gain_bounds E z).2,
      position_advance E z⟩
    · rw [square_column]
      exact residual_predicted E.posDef z.dt
    · rw [square_column]
      exact hK

/-- three samples, two of them at one time -/
theorem covariance_valid_repeated : ∃ c, kalmanExample [0, 1, 1] [0, 5, 7] [0, 2, 3] 1 3 = some c ∧
    c.p.length = (3 : ℤ) ∧ ∀ v ∈ c.p, ∃ p, v = some p ∧ (square p).IsSymm ∧ (square p).PosDef := by
  obtain ⟨hret, hvalid⟩ := covariance_valid [0, 1, 1] [0, 5, 7] [0, 2, 3] (s := 1) (e := 3) (by decide)
  obtain ⟨c, hc⟩ := hret (by decide) (by decide) (by decide) (by decide)
  obtain ⟨hlen, hcols⟩ := (hvalid c hc).1
  exact ⟨c, hc, hlen, hcols⟩

end NuStars.Kalman
