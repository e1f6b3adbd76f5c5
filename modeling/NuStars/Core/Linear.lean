/-
Linear estimation with a scalar measurement, over any linearly ordered field.

An `Estimate` is a mean and a covariance that is positive definite. A `Motion` moves the estimated vector linearly and
adds noise, a `Sensor` measures one linear combination of it with noise of variance r > 0.

- `predicted_posDef`, `updated_posDef`: moving and measuring keep a covariance positive definite, so that `predict` and
  `update` build estimates;
- `le_innovation`, `measured_gain`: the variance of the innovation is at least r, and the measured combination of the
  gain is 1 − r / innovation;
- `measured_updated`, `measured_mean`: after a measurement the measured combination has a variance below r, and its
  mean is a combination of the prediction and the measurement with the weights of the gain;
- `updated_inj`: a measurement forgets nothing about the covariance;
- `update_exact`: a measurement of the predicted value leaves the mean;
- `Combines.predict`, `Combines.update`: a linear combination of estimates with one covariance stays one.
-/
import Mathlib.Tactic
import Mathlib.LinearAlgebra.Matrix.PosDef
import Mathlib.LinearAlgebra.SesquilinearForm.Basic

namespace NuStars.Linear

open Matrix

variable {n 𝕜 : Type*} [Field 𝕜] [LinearOrder 𝕜]

/-! ## Quadratic forms -/

section
variable [StarRing 𝕜] [TrivialStar 𝕜]

theorem isSymm_of_posSemidef {M : Matrix n n 𝕜} (hM : M.PosSemidef) : M.IsSymm := by
  have h := hM.isHermitian
  rwa [IsHermitian, conjTranspose_eq_transpose_of_trivial] at h

variable [Fintype n]

theorem quadratic_nonneg {M : Matrix n n 𝕜} (hM : M.PosSemidef) (v : n → 𝕜) : 0 ≤ v ⬝ᵥ M *ᵥ v := by
  simpa using hM.dotProduct_mulVec_nonneg v

variable [IsStrictOrderedRing 𝕜]

/-- Cauchy–Schwarz for a positive semidefinite matrix -/
theorem sq_le_mul {M : Matrix n n 𝕜} (hM : M.PosSemidef) (v w : n → 𝕜) :
    (v ⬝ᵥ M *ᵥ w) ^ 2 ≤ (v ⬝ᵥ M *ᵥ v) * (w ⬝ᵥ M *ᵥ w) := by
  classical
  have hpos : ∀ x, 0 ≤ toBilin' M x x := by
    intro x
    rw [toBilin'_apply']
    exact quadratic_nonneg hM x
  have hsymm : (toBilin' M).IsSymm := isSymm_toBilin'_iff_isSymm.2 (isSymm_of_posSemidef hM)
  have h := LinearMap.BilinForm.apply_sq_le_of_symm (toBilin' M) hpos ⟨hsymm.eq⟩ v w
  rwa [toBilin'_apply', toBilin'_apply', toBilin'_apply'] at h

theorem posSemidef_const {q : 𝕜} (hq : 0 ≤ q) : (of fun _ _ => q : Matrix n n 𝕜).PosSemidef := by
  refine .of_dotProduct_mulVec_nonneg ?_ ?_
  · ext i j
    simp
  · intro x
    have h : star x ⬝ᵥ (of fun _ _ => q : Matrix n n 𝕜) *ᵥ x = q * (∑ i, x i) ^ 2 := by
      simp only [dotProduct, mulVec, of_apply, Pi.star_apply, star_trivial, ← Finset.mul_sum, ← Finset.sum_mul]
      ring
    rw [h]
    exact mul_nonneg hq (sq_nonneg _)

end

/-! ## Motions -/

/-- x ↦ F x + u + noise of covariance N -/
structure Motion (n 𝕜 : Type*) [Fintype n] [DecidableEq n] [Field 𝕜] [LinearOrder 𝕜] [StarRing 𝕜] where
  F : Matrix n n 𝕜
  u : Matrix n (Fin 1) 𝕜
  N : Matrix n n 𝕜
  isUnit : IsUnit F
  posSemidef : N.PosSemidef

variable [Fintype n]

theorem predicted_posDef [DecidableEq n] [StarRing 𝕜] [TrivialStar 𝕜] [IsStrictOrderedRing 𝕜] (m : Motion n 𝕜)
    {P : Matrix n n 𝕜} (hP : P.PosDef) : (m.F * P * m.Fᵀ + m.N).PosDef := by
  have hF : (m.F * P * m.Fᵀ).PosDef := by
    rw [← conjTranspose_eq_transpose_of_trivial]
    exact hP.mul_mul_conjTranspose_same (vecMul_injective_of_isUnit m.isUnit)
  exact hF.add_posSemidef m.posSemidef

/-! ## Sensors -/

/-- z = H x + noise of variance r -/
structure Sensor (n 𝕜 : Type*) [Field 𝕜] [LinearOrder 𝕜] where
  H : Matrix (Fin 1) n 𝕜
  r : 𝕜
  pos : 0 < r

namespace Sensor
variable (S : Sensor n 𝕜) (M : Matrix n n 𝕜)

/-- the variance of the difference between a measurement and its prediction -/
def innovation : 𝕜 := (S.H * M * S.Hᵀ).trace + S.r

def gain : Matrix n (Fin 1) 𝕜 := (S.innovation M)⁻¹ • (M * S.Hᵀ)

def updated [DecidableEq n] : Matrix n n 𝕜 := (1 - S.gain M * S.H) * M

theorem variance_eq : (S.H * M * S.Hᵀ) 0 0 = S.innovation M - S.r := by
  rw [innovation, trace_fin_one, add_sub_cancel_right]

theorem innovation_eq : S.innovation M = S.H.row 0 ⬝ᵥ M *ᵥ S.H.row 0 + S.r := by
  rw [innovation, trace_fin_one, Matrix.mul_assoc]
  rfl

theorem updated_eq [DecidableEq n] : S.updated M = M - (S.innovation M)⁻¹ • (M * S.Hᵀ * (S.H * M)) := by
  rw [updated, gain, Matrix.sub_mul, Matrix.one_mul, Matrix.smul_mul, Matrix.smul_mul, Matrix.mul_assoc (M * S.Hᵀ)]

variable {M} [StarRing 𝕜] [TrivialStar 𝕜]

theorem updated_isSymm [DecidableEq n] (hM : M.PosSemidef) : (S.updated M).IsSymm := by
  have hs : Mᵀ = M := isSymm_of_posSemidef hM
  rw [IsSymm, updated_eq, transpose_sub, transpose_smul, transpose_mul, transpose_mul, transpose_mul, hs,
    transpose_transpose]

/-- measuring takes the square of v M h, over the innovation, off the form v M v -/
theorem quadratic_updated [DecidableEq n] (hM : M.PosSemidef) (v : n → 𝕜) :
    v ⬝ᵥ S.updated M *ᵥ v = v ⬝ᵥ M *ᵥ v - (S.innovation M)⁻¹ * (v ⬝ᵥ M *ᵥ S.H.row 0) ^ 2 := by
  have hs : Mᵀ = M := isSymm_of_posSemidef hM
  have hcol : v ᵥ* (M * S.Hᵀ) = fun _ => v ⬝ᵥ M *ᵥ S.H.row 0 := by
    funext k
    rw [Subsingleton.elim k 0]
    rfl
  have hrow : (S.H * M) *ᵥ v = fun _ => v ⬝ᵥ M *ᵥ S.H.row 0 := by
    rw [← hcol, ← vecMul_transpose, transpose_mul, hs]
  have hcross : v ⬝ᵥ (M * S.Hᵀ * (S.H * M)) *ᵥ v = (v ⬝ᵥ M *ᵥ S.H.row 0) ^ 2 := by
    rw [← mulVec_mulVec, dotProduct_mulVec, hcol, hrow, sq]
    exact Fin.sum_univ_one _
  rw [updated_eq, sub_mulVec, dotProduct_sub, smul_mulVec, dotProduct_smul, hcross, smul_eq_mul]

variable [IsStrictOrderedRing 𝕜]

theorem le_innovation (hM : M.PosSemidef) : S.r ≤ S.innovation M := by
  rw [innovation_eq]
  exact le_add_of_nonneg_left (quadratic_nonneg hM _)

theorem innovation_pos (hM : M.PosSemidef) : 0 < S.innovation M := S.pos.trans_le (S.le_innovation hM)

theorem measured_gain (hM : M.PosSemidef) : (S.H * S.gain M) 0 0 = 1 - S.r / S.innovation M := by
  have hS := (S.innovation_pos hM).ne'
  calc (S.H * S.gain M) 0 0 = (S.innovation M)⁻¹ * (S.H * M * S.Hᵀ) 0 0 := by
        rw [gain, Matrix.mul_smul, ← Matrix.mul_assoc]
        rfl
    _ = (S.innovation M)⁻¹ * (S.innovation M - S.r) := by rw [variance_eq]
    _ = 1 - S.r / S.innovation M := by field_simp

variable [DecidableEq n]

theorem updated_posDef (hM : M.PosDef) : (S.updated M).PosDef := by
  refine .of_dotProduct_mulVec_pos ?_ ?_
  · rw [IsHermitian, conjTranspose_eq_transpose_of_trivial]
    exact S.updated_isSymm hM.posSemidef
  · intro v hv
    have hpos : 0 < v ⬝ᵥ M *ᵥ v := by simpa using hM.dotProduct_mulVec_pos hv
    have hS := S.innovation_pos hM.posSemidef
    rw [star_trivial, S.quadratic_updated hM.posSemidef, sub_pos, inv_mul_lt_iff₀ hS, mul_comm (S.innovation M)]
    calc (v ⬝ᵥ M *ᵥ S.H.row 0) ^ 2
        ≤ (v ⬝ᵥ M *ᵥ v) * (S.H.row 0 ⬝ᵥ M *ᵥ S.H.row 0) := sq_le_mul hM.posSemidef v (S.H.row 0)
      _ < (v ⬝ᵥ M *ᵥ v) * S.innovation M := by
        rw [S.innovation_eq]
        exact mul_lt_mul_of_pos_left (lt_add_of_pos_right _ S.pos) hpos

/-- measuring scales the row of the measured combination -/
theorem measured_row (hM : M.PosSemidef) : S.H * S.updated M = (S.r / S.innovation M) • (S.H * M) := by
  have hgain : 1 - S.H * S.gain M = (S.r / S.innovation M) • (1 : Matrix (Fin 1) (Fin 1) 𝕜) := by
    ext i j
    rw [Subsingleton.elim i 0, Subsingleton.elim j 0, Matrix.sub_apply, S.measured_gain hM, Matrix.smul_apply,
      one_apply_eq, smul_eq_mul, mul_one, sub_sub_cancel]
  calc S.H * S.updated M = (1 - S.H * S.gain M) * (S.H * M) := by
        simp only [updated, Matrix.mul_sub, Matrix.sub_mul, Matrix.mul_assoc, Matrix.one_mul]
    _ = (S.r / S.innovation M) • (S.H * M) := by rw [hgain, Matrix.smul_mul, Matrix.one_mul]

theorem measured_updated (hM : M.PosSemidef) :
    (S.H * S.updated M * S.Hᵀ) 0 0 = S.r - S.r ^ 2 / S.innovation M := by
  have hS := (S.innovation_pos hM).ne'
  calc (S.H * S.updated M * S.Hᵀ) 0 0 = S.r / S.innovation M * (S.H * M * S.Hᵀ) 0 0 := by
        rw [S.measured_row hM, Matrix.smul_mul]
        rfl
    _ = S.r / S.innovation M * (S.innovation M - S.r) := by rw [variance_eq]
    _ = S.r - S.r ^ 2 / S.innovation M := by
        field_simp

/-- **A measurement forgets nothing about the covariance**: the updated one determines the one before. -/
theorem updated_inj {M' : Matrix n n 𝕜} (hM : M.PosSemidef) (hM' : M'.PosSemidef) (h : S.updated M = S.updated M') :
    M = M' := by
  have hS := (S.innovation_pos hM).ne'
  have hS' := (S.innovation_pos hM').ne'
  have hr := S.pos.ne'
  have hinnovation : S.innovation M = S.innovation M' := by
    have hvar := S.measured_updated hM
    rw [h, S.measured_updated hM', sub_right_inj, div_eq_mul_inv, div_eq_mul_inv] at hvar
    exact (inv_inj.1 (mul_left_cancel₀ (pow_ne_zero 2 hr) hvar)).symm
  have hrow : S.H * M = S.H * M' := by
    have hrow := S.measured_row hM
    rw [h, S.measured_row hM', hinnovation] at hrow
    exact (smul_right_injective _ (div_ne_zero hr hS') hrow).symm
  have hcol : M * S.Hᵀ = M' * S.Hᵀ := by
    have hs : Mᵀ = M := isSymm_of_posSemidef hM
    have hs' : M'ᵀ = M' := isSymm_of_posSemidef hM'
    rw [← hs, ← hs', ← transpose_mul, ← transpose_mul, hrow]
  have heq := S.updated_eq M
  rw [h, S.updated_eq M', hrow, hcol, hinnovation] at heq
  exact (sub_left_injective heq).symm

end Sensor

/-! ## Estimates -/

structure Estimate (n 𝕜 : Type*) [Field 𝕜] [LinearOrder 𝕜] [StarRing 𝕜] where
  mean : Matrix n (Fin 1) 𝕜
  cov : Matrix n n 𝕜
  posDef : cov.PosDef

namespace Estimate
variable [DecidableEq n] [StarRing 𝕜] [TrivialStar 𝕜] [IsStrictOrderedRing 𝕜] (E : Estimate n 𝕜)

def predict (m : Motion n 𝕜) : Estimate n 𝕜 where
  mean := m.F * E.mean + m.u
  cov := m.F * E.cov * m.Fᵀ + m.N
  posDef := predicted_posDef m E.posDef

def update (S : Sensor n 𝕜) (z : 𝕜) : Estimate n 𝕜 where
  mean := E.mean + S.gain E.cov * (!![z] - S.H * E.mean)
  cov := S.updated E.cov
  posDef := S.updated_posDef E.posDef

@[simp] theorem predict_mean (m : Motion n 𝕜) : (E.predict m).mean = m.F * E.mean + m.u := rfl

@[simp] theorem predict_cov (m : Motion n 𝕜) : (E.predict m).cov = m.F * E.cov * m.Fᵀ + m.N := rfl

@[simp] theorem update_mean (S : Sensor n 𝕜) (z : 𝕜) :
    (E.update S z).mean = E.mean + S.gain E.cov * (!![z] - S.H * E.mean) := rfl

@[simp] theorem update_cov (S : Sensor n 𝕜) (z : 𝕜) : (E.update S z).cov = S.updated E.cov := rfl

/-- a measurement that is the predicted one leaves the mean -/
theorem update_exact (S : Sensor n 𝕜) {z : 𝕜} (hz : z = (S.H * E.mean) 0 0) : (E.update S z).mean = E.mean := by
  have hzero : !![z] - S.H * E.mean = 0 := by
    ext i j
    rw [Subsingleton.elim i 0, Subsingleton.elim j 0, Matrix.sub_apply, hz]
    exact sub_self _
  rw [update_mean, hzero, Matrix.mul_zero, add_zero]

theorem measured_mean (S : Sensor n 𝕜) (z : 𝕜) :
    (S.H * (E.update S z).mean) 0 0 =
      (1 - (S.H * S.gain E.cov) 0 0) * (S.H * E.mean) 0 0 + (S.H * S.gain E.cov) 0 0 * z := by
  have h : S.H * (E.update S z).mean = S.H * E.mean + S.H * S.gain E.cov * (!![z] - S.H * E.mean) := by
    rw [update_mean, Matrix.mul_add, Matrix.mul_assoc S.H]
  rw [h, Matrix.add_apply, mul_apply (M := S.H * S.gain E.cov), Fin.sum_univ_one, Matrix.sub_apply]
  simp only [of_apply, cons_val_fin_one]
  ring

end Estimate

/-! ## Superposition -/

/-- `E` is the combination of `E₁` and `E₂` with the weights c₁ and c₂, and the three have one covariance -/
structure Combines (c₁ c₂ : 𝕜) [StarRing 𝕜] (E₁ E₂ E : Estimate n 𝕜) : Prop where
  mean : E.mean = c₁ • E₁.mean + c₂ • E₂.mean
  cov₁ : E₁.cov = E.cov
  cov₂ : E₂.cov = E.cov

namespace Combines
variable [DecidableEq n] [StarRing 𝕜] [TrivialStar 𝕜] [IsStrictOrderedRing 𝕜] {c₁ c₂ : 𝕜} {E₁ E₂ E : Estimate n 𝕜}

theorem predict (h : Combines c₁ c₂ E₁ E₂ E) {m₁ m₂ m : Motion n 𝕜} (hF₁ : m₁.F = m.F) (hF₂ : m₂.F = m.F)
    (hN₁ : m₁.N = m.N) (hN₂ : m₂.N = m.N) (hu : m.u = c₁ • m₁.u + c₂ • m₂.u) :
    Combines c₁ c₂ (E₁.predict m₁) (E₂.predict m₂) (E.predict m) := by
  refine ⟨?_, ?_, ?_⟩
  · calc (E.predict m).mean = m.F * (c₁ • E₁.mean + c₂ • E₂.mean) + (c₁ • m₁.u + c₂ • m₂.u) := by
          rw [Estimate.predict_mean, h.mean, hu]
      _ = c₁ • (E₁.predict m₁).mean + c₂ • (E₂.predict m₂).mean := by
          rw [Estimate.predict_mean, Estimate.predict_mean, hF₁, hF₂, Matrix.mul_add, Matrix.mul_smul, Matrix.mul_smul,
            smul_add, smul_add]
          abel
  · rw [Estimate.predict_cov, Estimate.predict_cov, h.cov₁, hF₁, hN₁]
  · rw [Estimate.predict_cov, Estimate.predict_cov, h.cov₂, hF₂, hN₂]

theorem update (h : Combines c₁ c₂ E₁ E₂ E) (S : Sensor n 𝕜) (z₁ z₂ : 𝕜) :
    Combines c₁ c₂ (E₁.update S z₁) (E₂.update S z₂) (E.update S (c₁ * z₁ + c₂ * z₂)) := by
  have hresidual : !![c₁ * z₁ + c₂ * z₂] - S.H * E.mean =
      c₁ • (!![z₁] - S.H * E₁.mean) + c₂ • (!![z₂] - S.H * E₂.mean) := by
    have hz : !![c₁ * z₁ + c₂ * z₂] = c₁ • !![z₁] + c₂ • !![z₂] := by simp
    rw [hz, h.mean, Matrix.mul_add, Matrix.mul_smul, Matrix.mul_smul, smul_sub, smul_sub]
    abel
  refine ⟨?_, ?_, ?_⟩
  · calc (E.update S (c₁ * z₁ + c₂ * z₂)).mean = (c₁ • E₁.mean + c₂ • E₂.mean) +
          S.gain E.cov * (c₁ • (!![z₁] - S.H * E₁.mean) + c₂ • (!![z₂] - S.H * E₂.mean)) := by
          rw [Estimate.update_mean, hresidual, h.mean]
      _ = c₁ • (E₁.update S z₁).mean + c₂ • (E₂.update S z₂).mean := by
          rw [Estimate.update_mean, Estimate.update_mean, h.cov₁, h.cov₂, Matrix.mul_add, Matrix.mul_smul,
            Matrix.mul_smul, smul_add, smul_add]
          abel
  · rw [Estimate.update_cov, Estimate.update_cov, h.cov₁]
  · rw [Estimate.update_cov, Estimate.update_cov, h.cov₂]

end Combines

end NuStars.Linear
