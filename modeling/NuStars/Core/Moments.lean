/-
Second moments of random vectors, and of the errors of a linear filter, over any linearly ordered field.

All that is used of an expectation is that it is a linear functional on the random variables Ω → 𝕜. The moment of
two random column vectors is the matrix of the expectations of the products of their entries.

- `Sensor.weighed`: the second moment of the error after a measurement taken in with any gain (Joseph's form);
- `Sensor.weighed_sub`: it exceeds that of the filter's own gain by a positive semidefinite matrix;
- `White`: noises that are uncorrelated with each other, from step to step and with the first error;
- `error_moment`: under white noise the moments of the errors follow `Sensor.weighed`, for any gains;
- `filtered_le`: so no gains have smaller moments than the filter's, after any number of steps.
-/
import NuStars.Core.Linear

namespace NuStars.Linear

open Matrix

/-! ## Moments -/

section
variable {Ω n m l 𝕜 : Type*} [Field 𝕜] (E : (Ω → 𝕜) →ₗ[𝕜] 𝕜)

def moment (X : Ω → Matrix n (Fin 1) 𝕜) (Y : Ω → Matrix m (Fin 1) 𝕜) : Matrix n m 𝕜 :=
  of fun i j => E fun w => (X w * (Y w)ᵀ) i j

variable {E} {X X' : Ω → Matrix n (Fin 1) 𝕜} {Y Y' : Ω → Matrix m (Fin 1) 𝕜}

theorem moment_transpose : (moment E X Y)ᵀ = moment E Y X := by
  ext i j
  have hswap : ∀ w, (X w * (Y w)ᵀ) j i = (Y w * (X w)ᵀ) i j := by
    intro w
    rw [← transpose_apply (X w * (Y w)ᵀ), transpose_mul, transpose_transpose]
  simp only [moment, transpose_apply, of_apply, hswap]

theorem moment_add_left : moment E (fun w => X w + X' w) Y = moment E X Y + moment E X' Y := by
  ext i j
  have hsum : (fun w => ((X w + X' w) * (Y w)ᵀ) i j) =
      (fun w => (X w * (Y w)ᵀ) i j) + fun w => (X' w * (Y w)ᵀ) i j := by
    funext w
    rw [Matrix.add_mul]
    rfl
  rw [moment, of_apply, hsum, map_add]
  rfl

theorem moment_mul_left [Fintype n] (A : Matrix l n 𝕜) : moment E (fun w => A * X w) Y = A * moment E X Y := by
  ext i j
  have hsum : (fun w => (A * X w * (Y w)ᵀ) i j) = ∑ k, A i k • fun w => (X w * (Y w)ᵀ) k j := by
    funext w
    rw [Matrix.mul_assoc, mul_apply, Finset.sum_apply]
    rfl
  rw [moment, of_apply, hsum, map_sum, mul_apply]
  refine Finset.sum_congr rfl ?_
  intro k _
  exact map_smul E _ _

theorem moment_sub_left : moment E (fun w => X w - X' w) Y = moment E X Y - moment E X' Y := by
  rw [eq_sub_iff_add_eq, ← moment_add_left]
  simp only [sub_add_cancel]

theorem moment_symm (h : moment E X Y = 0) : moment E Y X = 0 := by rw [← moment_transpose, h, transpose_zero]

theorem moment_mul [Fintype n] (A : Matrix l n 𝕜) :
    moment E (fun w => A * X w) (fun w => A * X w) = A * moment E X X * Aᵀ := by
  rw [moment_mul_left, ← moment_transpose, moment_mul_left, transpose_mul, moment_transpose, Matrix.mul_assoc]

/-- the moment of a sum of uncorrelated vectors -/
theorem moment_add (h : moment E X X' = 0) :
    moment E (fun w => X w + X' w) (fun w => X w + X' w) = moment E X X + moment E X' X' := by
  have hleft : moment E X (fun w => X w + X' w) = moment E X X := by
    rw [← moment_transpose, moment_add_left, moment_symm h, add_zero, moment_transpose]
  have hright : moment E X' (fun w => X w + X' w) = moment E X' X' := by
    rw [← moment_transpose, moment_add_left, h, zero_add, moment_transpose]
  rw [moment_add_left, hleft, hright]

theorem moment_sub (h : moment E X X' = 0) :
    moment E (fun w => X w - X' w) (fun w => X w - X' w) = moment E X X + moment E X' X' := by
  have hleft : moment E X (fun w => X w - X' w) = moment E X X := by
    rw [← moment_transpose, moment_sub_left, moment_symm h, sub_zero, moment_transpose]
  have hright : moment E X' (fun w => X w - X' w) = -moment E X' X' := by
    rw [← moment_transpose, moment_sub_left, h, zero_sub, transpose_neg, moment_transpose]
  rw [moment_sub_left, hleft, hright, sub_neg_eq_add]

end

/-! ## Gains -/

variable {n 𝕜 : Type*} [Field 𝕜] [LinearOrder 𝕜]

namespace Sensor
variable [Fintype n] [DecidableEq n] (S : Sensor n 𝕜) (M : Matrix n n 𝕜)

/-- the moment of the error after a measurement with the gain L, when it was M before -/
def weighed (L : Matrix n (Fin 1) 𝕜) : Matrix n n 𝕜 :=
  (1 - L * S.H) * M * (1 - L * S.H)ᵀ + S.r • (L * Lᵀ)

variable {M} [StarRing 𝕜] [TrivialStar 𝕜]

/-- completing the square -/
theorem weighed_eq (hM : M.PosSemidef) (L : Matrix n (Fin 1) 𝕜) (hS : S.innovation M ≠ 0) :
    S.weighed M L = S.updated M + (L - S.gain M) * (S.innovation M • (1 : Matrix (Fin 1) (Fin 1) 𝕜)) *
      (L - S.gain M)ᵀ := by
  have hs : Mᵀ = M := isSymm_of_posSemidef hM
  have hvar : S.H * M * S.Hᵀ = (S.innovation M - S.r) • (1 : Matrix (Fin 1) (Fin 1) 𝕜) := by
    ext i j
    rw [Subsingleton.elim i 0, Subsingleton.elim j 0, S.variance_eq, Matrix.smul_apply, one_apply_eq, smul_eq_mul,
      mul_one]
  have hrow : S.H * M = (M * S.Hᵀ)ᵀ := by rw [transpose_mul, transpose_transpose, hs]
  rw [updated_eq, weighed, gain, hrow]
  generalize hc : M * S.Hᵀ = c
  have hexpand : (1 - L * S.H) * M * (1 - L * S.H)ᵀ =
      M - L * cᵀ - c * Lᵀ + (S.innovation M - S.r) • (L * Lᵀ) := by
    have hquad : L * S.H * M * (S.Hᵀ * Lᵀ) = (S.innovation M - S.r) • (L * Lᵀ) := by
      calc L * S.H * M * (S.Hᵀ * Lᵀ) = L * (S.H * M * S.Hᵀ) * Lᵀ := by simp only [Matrix.mul_assoc]
        _ = (S.innovation M - S.r) • (L * Lᵀ) := by
          rw [hvar, Matrix.mul_smul, Matrix.mul_one, Matrix.smul_mul]
    have hleft : L * S.H * M = L * cᵀ := by rw [Matrix.mul_assoc, hrow, hc]
    have hright : M * (S.Hᵀ * Lᵀ) = c * Lᵀ := by rw [← Matrix.mul_assoc, hc]
    rw [transpose_sub, transpose_one, transpose_mul, Matrix.sub_mul, Matrix.one_mul, Matrix.mul_sub, Matrix.mul_one,
      Matrix.sub_mul, hquad, hright, hleft]
    abel
  have hsquare : (L - (S.innovation M)⁻¹ • c) * (S.innovation M • (1 : Matrix (Fin 1) (Fin 1) 𝕜)) *
      (L - (S.innovation M)⁻¹ • c)ᵀ =
        S.innovation M • (L * Lᵀ) - L * cᵀ - c * Lᵀ + (S.innovation M)⁻¹ • (c * cᵀ) := by
    rw [Matrix.mul_smul, Matrix.mul_one, Matrix.smul_mul, transpose_sub, transpose_smul, Matrix.sub_mul, Matrix.mul_sub,
      Matrix.mul_sub, Matrix.mul_smul, Matrix.smul_mul, Matrix.smul_mul, Matrix.mul_smul, smul_sub, smul_sub, smul_sub,
      smul_inv_smul₀ hS, smul_inv_smul₀ hS, smul_inv_smul₀ hS]
    abel
  rw [hexpand, hsquare, sub_smul]
  abel

variable [IsStrictOrderedRing 𝕜]

/-- the filter's own gain leaves `updated` -/
theorem weighed_gain (hM : M.PosSemidef) : S.weighed M (S.gain M) = S.updated M := by
  rw [S.weighed_eq hM _ (S.innovation_pos hM).ne', sub_self, Matrix.zero_mul, Matrix.zero_mul, add_zero]

/-- **No gain leaves less than the filter's**, also from a larger moment. -/
theorem weighed_sub {M' : Matrix n n 𝕜} (hM : M.PosSemidef) (h : (M' - M).PosSemidef) (L : Matrix n (Fin 1) 𝕜) :
    (S.weighed M' L - S.updated M).PosSemidef := by
  have hmono : S.weighed M' L - S.weighed M L = (1 - L * S.H) * (M' - M) * (1 - L * S.H)ᵀ := by
    rw [weighed, weighed, Matrix.mul_sub (1 - L * S.H), Matrix.sub_mul ((1 - L * S.H) * M')]
    abel
  have hbest := S.weighed_eq hM L (S.innovation_pos hM).ne'
  have hpsd : ((1 - L * S.H) * (M' - M) * (1 - L * S.H)ᵀ).PosSemidef := by
    rw [← conjTranspose_eq_transpose_of_trivial]
    exact h.mul_mul_conjTranspose_same _
  have hone : (S.innovation M • (1 : Matrix (Fin 1) (Fin 1) 𝕜)).PosSemidef := by
    have hconst := posSemidef_const (n := Fin 1) (S.innovation_pos hM).le
    convert hconst using 1
    ext i j
    rw [Subsingleton.elim i j, Matrix.smul_apply, one_apply_eq, smul_eq_mul, mul_one]
    rfl
  have hgap : ((L - S.gain M) * (S.innovation M • (1 : Matrix (Fin 1) (Fin 1) 𝕜)) * (L - S.gain M)ᵀ).PosSemidef := by
    rw [← conjTranspose_eq_transpose_of_trivial]
    exact hone.mul_mul_conjTranspose_same _
  have hsplit : S.weighed M' L - S.updated M =
      (1 - L * S.H) * (M' - M) * (1 - L * S.H)ᵀ +
        (L - S.gain M) * (S.innovation M • (1 : Matrix (Fin 1) (Fin 1) 𝕜)) * (L - S.gain M)ᵀ := by
    rw [← hmono, hbest]
    abel
  rw [hsplit]
  exact hpsd.add hgap

end Sensor

/-! ## Errors -/

section
variable {n 𝕜 : Type*} [Field 𝕜] [LinearOrder 𝕜] [StarRing 𝕜] [Fintype n] [DecidableEq n]
variable (ms : ℕ → Motion n 𝕜) (S : Sensor n 𝕜)

/-- the moments of the errors with the gains L, from that of the first error -/
def errorMoment (L : ℕ → Matrix n (Fin 1) 𝕜) (P : Matrix n n 𝕜) : ℕ → Matrix n n 𝕜
  | 0 => P
  | k + 1 => S.weighed ((ms k).F * errorMoment L P k * (ms k).Fᵀ + (ms k).N) (L k)

/-- the covariances of the filter -/
def filtered (P : Matrix n n 𝕜) : ℕ → Matrix n n 𝕜
  | 0 => P
  | k + 1 => S.updated ((ms k).F * filtered P k * (ms k).Fᵀ + (ms k).N)

/-- the gains of the filter -/
def filterGain (P : Matrix n n 𝕜) (k : ℕ) : Matrix n (Fin 1) 𝕜 :=
  S.gain ((ms k).F * filtered ms S P k * (ms k).Fᵀ + (ms k).N)

section
variable [TrivialStar 𝕜] [IsStrictOrderedRing 𝕜] {P : Matrix n n 𝕜}

theorem filtered_posDef (hP : P.PosDef) (k : ℕ) : (filtered ms S P k).PosDef := by
  induction k with
  | zero => exact hP
  | succ k ih => exact S.updated_posDef (predicted_posDef (ms k) ih)

/-- with its own gains the filter leaves errors of the covariances it computes -/
theorem errorMoment_filter (hP : P.PosDef) (k : ℕ) :
    errorMoment ms S (filterGain ms S P) P k = filtered ms S P k := by
  induction k with
  | zero => rfl
  | succ k ih =>
    rw [errorMoment, ih]
    have hpred := (predicted_posDef (ms k) (filtered_posDef ms S hP k)).posSemidef
    exact S.weighed_gain hpred

/-- **No gains leave smaller errors.** -/
theorem filtered_le (hP : P.PosDef) (L : ℕ → Matrix n (Fin 1) 𝕜) (k : ℕ) :
    (errorMoment ms S L P k - filtered ms S P k).PosSemidef := by
  induction k with
  | zero =>
    rw [errorMoment, filtered, sub_self]
    exact PosSemidef.zero
  | succ k ih =>
    have hpred : (((ms k).F * errorMoment ms S L P k * (ms k).Fᵀ + (ms k).N) -
        ((ms k).F * filtered ms S P k * (ms k).Fᵀ + (ms k).N)).PosSemidef := by
      rw [add_sub_add_right_eq_sub, ← Matrix.sub_mul, ← Matrix.mul_sub, ← conjTranspose_eq_transpose_of_trivial]
      exact ih.mul_mul_conjTranspose_same _
    exact S.weighed_sub (predicted_posDef (ms k) (filtered_posDef ms S hP k)).posSemidef hpred (L k)

end

variable {Ω : Type*} (E : (Ω → 𝕜) →ₗ[𝕜] 𝕜)

/-- for K steps, noises `w` of the motions and `v` of the sensor that are uncorrelated with each other, from step to
step and with the first error -/
structure White (K : ℕ) (first : Ω → Matrix n (Fin 1) 𝕜) (w : ℕ → Ω → Matrix n (Fin 1) 𝕜)
    (v : ℕ → Ω → Matrix (Fin 1) (Fin 1) 𝕜) : Prop where
  process : ∀ k < K, moment E (w k) (w k) = (ms k).N
  sensor : ∀ k < K, moment E (v k) (v k) = S.r • (1 : Matrix (Fin 1) (Fin 1) 𝕜)
  first_w : ∀ k < K, moment E first (w k) = 0
  first_v : ∀ k < K, moment E first (v k) = 0
  w_w : ∀ j k, j < k → k < K → moment E (w j) (w k) = 0
  v_v : ∀ j k, j < k → k < K → moment E (v j) (v k) = 0
  w_v : ∀ j k, j < K → k < K → moment E (w j) (v k) = 0

/-- the errors of a filter with the gains L -/
def error (L : ℕ → Matrix n (Fin 1) 𝕜) (first : Ω → Matrix n (Fin 1) 𝕜) (w : ℕ → Ω → Matrix n (Fin 1) 𝕜)
    (v : ℕ → Ω → Matrix (Fin 1) (Fin 1) 𝕜) : ℕ → Ω → Matrix n (Fin 1) 𝕜
  | 0 => first
  | k + 1 => fun o => (1 - L k * S.H) * ((ms k).F * error L first w v k o + w k o) - L k * v k o

variable {ms S E} {K : ℕ} {first : Ω → Matrix n (Fin 1) 𝕜} {w : ℕ → Ω → Matrix n (Fin 1) 𝕜}
  {v : ℕ → Ω → Matrix (Fin 1) (Fin 1) 𝕜}

/-- an error is uncorrelated with the noises still to come -/
theorem White.ahead (h : White ms S E K first w v) (L : ℕ → Matrix n (Fin 1) 𝕜) (k : ℕ) :
    ∀ j, k ≤ j → j < K →
      moment E (error ms S L first w v k) (w j) = 0 ∧ moment E (error ms S L first w v k) (v j) = 0 := by
  induction k with
  | zero =>
    intro j _ hj
    exact ⟨h.first_w j hj, h.first_v j hj⟩
  | succ k ih =>
    intro j hkj hj
    have hk : k < K := (Nat.lt_of_succ_le hkj).trans hj
    obtain ⟨hw, hv⟩ := ih j (Nat.le_of_succ_le hkj) hj
    have hww := h.w_w k j hkj hj
    have hvv := h.v_v k j hkj hj
    have hwv := h.w_v k j hk hj
    have hvw := moment_symm (h.w_v j k hj hk)
    refine ⟨?_, ?_⟩
    · rw [error, moment_sub_left, moment_mul_left, moment_mul_left, moment_add_left, moment_mul_left, hw, hww, hvw]
      simp only [Matrix.mul_zero, add_zero, sub_zero]
    · rw [error, moment_sub_left, moment_mul_left, moment_mul_left, moment_add_left, moment_mul_left, hv, hwv, hvv]
      simp only [Matrix.mul_zero, add_zero, sub_zero]

/-- **The moments of the errors**, for any gains -/
theorem error_moment (h : White ms S E K first w v) (L : ℕ → Matrix n (Fin 1) 𝕜) {k : ℕ} (hk : k ≤ K) :
    moment E (error ms S L first w v k) (error ms S L first w v k) =
      errorMoment ms S L (moment E first first) k := by
  induction k with
  | zero => rfl
  | succ k ih =>
    have hlt : k < K := hk
    obtain ⟨hw, hv⟩ := h.ahead L k k le_rfl hlt
    -- moving and then measuring adds noise that is uncorrelated with the error so far
    have hmove : moment E (fun o => (ms k).F * error ms S L first w v k o + w k o)
        (fun o => (ms k).F * error ms S L first w v k o + w k o) =
          (ms k).F * errorMoment ms S L (moment E first first) k * (ms k).Fᵀ + (ms k).N := by
      rw [moment_add (by rw [moment_mul_left, hw, Matrix.mul_zero]), moment_mul, ih hlt.le, h.process k hlt]
    have hcross : moment E (fun o => (1 - L k * S.H) * ((ms k).F * error ms S L first w v k o + w k o))
        (fun o => L k * v k o) = 0 := by
      rw [moment_mul_left]
      refine mul_eq_zero_of_right _ (moment_symm ?_)
      rw [moment_mul_left, moment_symm, Matrix.mul_zero]
      rw [moment_add_left, moment_mul_left, hv, h.w_v k k hlt hlt, Matrix.mul_zero, add_zero]
    rw [error, errorMoment, moment_sub hcross, moment_mul, moment_mul, hmove, h.sensor k hlt, Matrix.mul_smul,
      Matrix.mul_one, Matrix.smul_mul, Sensor.weighed]

end

end NuStars.Linear
