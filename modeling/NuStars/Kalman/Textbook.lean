/-
Kalman_example.m against the filter of the model it names.

The model is x_{k+1} = A x_k + B (a_{k+1} + w), h = C x + v with Var(w) = 25 and Var(v) = 1: the noise of the
acceleration goes through B like the acceleration does, so the prediction is A P A' + B Q B'. The code adds the scalar
`Q` to all four entries of A P A' instead, whatever the time step is.

- `noise_ne`: no time step makes the process noises of the two equal;
- `columns_cons_ne`: the covariance after the first iteration is not that of the model;
- `textbook_iff`: so the two agree on the windows without an iteration, and on no other.
-/
import NuStars.Kalman.Filter

namespace NuStars.Kalman

open Matrix NuStars.Linear NuStars.Parser

/-! ## The filter of the model -/

/-- the variance of w -/
def varW : ℚ := 25

/-- the variance of v -/
def varV : ℚ := 1

/-- the input matrix, which the acceleration and its noise go through -/
def input (dt : ℚ) : Column 2 := !![dt ^ 2 / 2; dt]

theorem varW_nonneg : 0 ≤ varW := by norm_num [varW]

theorem varV_pos : 0 < varV := by norm_num [varV]

theorem isUnit_transition (z : Sample) : IsUnit !![1, z.dt; 0, 1] := isUnit_A z.dt

def constantAcceleration (z : Sample) : Motion (Fin 2) ℚ where
  F := !![1, z.dt; 0, 1]
  u := z.acc • input z.dt
  N := varW • (input z.dt * (input z.dt)ᵀ)
  isUnit := isUnit_transition z
  posSemidef := by
    rw [← conjTranspose_eq_transpose_of_trivial]
    exact (posSemidef_self_mul_conjTranspose (input z.dt)).smul varW_nonneg

/-- measures the position -/
def position : Sensor (Fin 2) ℚ where
  H := !![1, 0]
  r := varV
  pos := varV_pos

/-- at rest at height 0, with variances 10 and 1 -/
def initial : Estimate (Fin 2) ℚ where
  mean := !![0; 0]
  cov := diagonal ![10, 1]
  posDef := by
    apply PosDef.diagonal
    intro i
    fin_cases i <;> simp

def textbookStep (E : Estimate (Fin 2) ℚ) (z : Sample) : Estimate (Fin 2) ℚ :=
  (E.predict (constantAcceleration z)).update position z.pos

/-- the estimates after the samples `zs`, in columns like those of the code -/
def textbookColumns (zs : List Sample) : Columns where
  x := (zs.scanl textbookStep initial).map fun E => some E.mean
  p := (zs.scanl textbookStep initial).map fun E => some (column E.cov)

def textbook (t h a : List ℚ) (s e : ℤ) : Option Columns :=
  ((List.range (e - s).toNat).mapM (sample t h a s)).map textbookColumns

/-! ## Process noise -/

theorem noise_apply (z : Sample) (i j : Fin 2) :
    (constantAcceleration z).N i j = 25 * (input z.dt i 0 * input z.dt j 0) := by
  calc (constantAcceleration z).N i j = 25 * (input z.dt * (input z.dt)ᵀ) i j := rfl
    _ = 25 * (input z.dt i 0 * input z.dt j 0) := by rw [mul_apply, Fin.sum_univ_one, transpose_apply]

/-- no time step makes the two noises equal: the entries of the code's are equal, those of the model's are
25 dt⁴ / 4 and 25 dt² -/
theorem noise_ne (z : Sample) : (motion z).N ≠ (constantAcceleration z).N := by
  intro h
  have hpos : (25 : ℚ) = 25 * (z.dt ^ 2 / 2 * (z.dt ^ 2 / 2)) := by
    calc (25 : ℚ) = (constantAcceleration z).N 0 0 := by
          rw [← h]
          rfl
      _ = 25 * (z.dt ^ 2 / 2 * (z.dt ^ 2 / 2)) := noise_apply z 0 0
  have hvel : (25 : ℚ) = 25 * (z.dt * z.dt) := by
    calc (25 : ℚ) = (constantAcceleration z).N 1 1 := by
          rw [← h]
          rfl
      _ = 25 * (z.dt * z.dt) := noise_apply z 1 1
  have hsq : z.dt ^ 2 = 1 := by linarith
  rw [hsq] at hpos
  norm_num at hpos

/-! ## The first iteration -/

theorem start_eq : start = initial := by
  rw [start, initial]
  congr 1
  exact square_p0

/-- the first iteration leaves different covariances -/
theorem column_differs (z : Sample) : column (advance start z).cov ≠ column (textbookStep initial z).cov := by
  intro h
  have hcov : sensor.updated (start.predict (motion z)).cov =
      sensor.updated (start.predict (constantAcceleration z)).cov := by
    have h' := congrArg square h
    rw [square_column, square_column, ← start_eq] at h'
    exact h'
  have hpred : (start.predict (motion z)).cov = (start.predict (constantAcceleration z)).cov :=
    sensor.updated_inj (start.predict (motion z)).posDef.posSemidef
      (start.predict (constantAcceleration z)).posDef.posSemidef hcov
  exact noise_ne z (add_left_cancel hpred)

theorem columns_nil : columns [] = textbookColumns [] := by
  rw [columns, textbookColumns, estimates, List.scanl_nil, List.scanl_nil, start_eq]

theorem columns_cons_ne (z : Sample) (zs : List Sample) : columns (z :: zs) ≠ textbookColumns (z :: zs) := by
  intro h
  have hsecond : (columns (z :: zs)).p[1]? = (textbookColumns (z :: zs)).p[1]? := by rw [h]
  have hcolumn : some (some (column (advance start z).cov)) = some (some (column (textbookStep initial z).cov)) := by
    simpa [columns, textbookColumns, estimates, List.scanl_cons] using hsecond
  exact column_differs z (Option.some.inj (Option.some.inj hcolumn))

/-! ## The calls -/

theorem sample_bounds {t h a : List ℚ} {s : ℤ} {k : ℕ} {z : Sample} (hz : sample t h a s k = some z) :
    1 ≤ s + k ∧ s + k + 1 ≤ t.length ∧ s + k + 1 ≤ h.length ∧ s + k + 1 ≤ a.length := by
  obtain ⟨⟨t1, t0, ht1, ht0, -⟩, ha, hh⟩ := sample_eq.1 hz
  exact ⟨(element_bounds ht0).1, (element_bounds ht1).2, (element_bounds hh).2, (element_bounds ha).2⟩

/-- the first and the last sample show that the window is inside the arrays -/
theorem window_of_samples {t h a : List ℚ} {s e : ℤ} (hlt : s < e) {zs : List Sample}
    (hzs : (List.range (e - s).toNat).mapM (sample t h a s) = some zs) :
    1 ≤ s ∧ e ≤ t.length ∧ e ≤ h.length ∧ e ≤ a.length := by
  obtain ⟨hlen, hsamples⟩ := samples_eq.1 hzs
  have hfirst := sample_bounds (hsamples 0 (by omega))
  have hlast := sample_bounds (hsamples (zs.length - 1) (by omega))
  omega

/-- **The noise of the acceleration does not go through `B`.** On a window s ≤ e the columns are those of the filter of
the model, or both end in an index error, exactly when there is no iteration (e = s) or the window leaves the arrays:
wherever the code predicts at all, its columns are not the filter's. -/
theorem textbook_iff (t h a : List ℚ) {s e : ℤ} (hse : s ≤ e) :
    kalmanExample t h a s e = textbook t h a s e ↔
      e = s ∨ ¬ (1 ≤ s ∧ e ≤ t.length ∧ e ≤ h.length ∧ e ≤ a.length) := by
  cases hzs : (List.range (e - s).toNat).mapM (sample t h a s) with
  | none =>
    have hcode : kalmanExample t h a s e = none := by
      rw [kalmanExample_eq t h a hse, hzs]
      rfl
    have hmodel : textbook t h a s e = none := by
      rw [textbook, hzs]
      rfl
    refine ⟨fun _ => Or.inr ?_, fun _ => hcode.trans hmodel.symm⟩
    intro hinside
    obtain ⟨hs, ht, hh, ha⟩ := hinside
    obtain ⟨c, hc⟩ := kalmanExample_isSome t h a hs hse ht hh ha
    rw [hcode] at hc
    cases hc
  | some zs =>
    obtain ⟨hlen, hsamples⟩ := samples_eq.1 hzs
    have hcode : kalmanExample t h a s e = some (columns zs) := (kalmanExample_some hse).2 ⟨zs, hlen, hsamples, rfl⟩
    have hmodel : textbook t h a s e = some (textbookColumns zs) := by
      rw [textbook, hzs, Option.map_some]
    rw [hcode, hmodel, Option.some.injEq]
    cases zs with
    | nil =>
      rw [List.length_nil] at hlen
      exact ⟨fun _ => Or.inl (by omega), fun _ => columns_nil⟩
    | cons z zs =>
      rw [List.length_cons] at hlen
      refine ⟨fun h => absurd h (columns_cons_ne z zs), ?_⟩
      intro h
      rcases h with hes | hout
      · omega
      · exact absurd (window_of_samples (by omega) hzs) hout

/-- two samples at one time -/
theorem textbook_iff_repeated : ¬ kalmanExample [0, 0] [0, 0] [0, 0] 1 2 = textbook [0, 0] [0, 0] [0, 0] 1 2 := by
  rw [textbook_iff [0, 0] [0, 0] [0, 0] (s := 1) (e := 2) (by decide)]
  decide

/-- at a repeated time the position variance is 35/36, where the model has 10/11 -/
theorem repeated_differs :
    ((kalmanExample [0, 0] [0, 0] [0, 0] 1 2).bind fun c => element c.p 2) =
        some (some !![35 / 36; 25 / 36; 25 / 36; 311 / 36]) ∧
      ((textbook [0, 0] [0, 0] [0, 0] 1 2).bind fun c => element c.p 2) = some (some !![10 / 11; 0; 0; 1]) ∧
      kalmanExample [0, 0] [0, 0] [0, 0] 1 2 ≠ textbook [0, 0] [0, 0] [0, 0] 1 2 := by
  have hcode : ((kalmanExample [0, 0] [0, 0] [0, 0] 1 2).bind fun c => element c.p 2) =
      some (some !![35 / 36; 25 / 36; 25 / 36; 311 / 36]) := by decide +kernel
  have hmodel : ((textbook [0, 0] [0, 0] [0, 0] 1 2).bind fun c => element c.p 2) =
      some (some !![10 / 11; 0; 0; 1]) := by decide +kernel
  refine ⟨hcode, hmodel, ?_⟩
  intro h
  rw [h, hmodel] at hcode
  revert hcode
  decide +kernel

end NuStars.Kalman
