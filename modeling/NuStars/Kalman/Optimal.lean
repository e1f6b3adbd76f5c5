/-
What the columns of `p` say about the errors of the columns of `x`.

Take arrays `h` measured on random motions whose noises are those the update of the covariance stands for
(`Linear.White`): the noise of a motion is added to position and velocity directly, with the second moment that `pPred`
adds, Q in every entry; that of a measurement has the variance `R`. The acceleration of the arrays is exact here: an
error of it would go through `B`, which is not what the code computes with (Textbook.lean). The same call then has, for
each outcome, columns `x` of its own and one `p`.

- `estimate_error`: the error of an estimate, for any gains, in terms of the noises;
- `advance_gains`: the estimates of the code are those with the gains `K`;
- `optimal`: each column of `p` is the second moment of the error, and no gains leave smaller errors.
-/
import NuStars.Core.Moments
import NuStars.Kalman.Filter

namespace NuStars.Kalman

open Matrix NuStars.Linear

/-! ## Filters with any gains -/

/-- the motions the code predicts with -/
def motions (dt acc : ℕ → ℚ) (k : ℕ) : Motion (Fin 2) ℚ := motion ⟨dt k, acc k, 0⟩

/-- the estimates with the gains `L` in place of `K` -/
def gainFilter (L : ℕ → Column 2) (dt acc pos : ℕ → ℚ) : ℕ → Column 2
  | 0 => x0
  | k + 1 =>
    let x_pred := xPred (dt k) (acc k) (gainFilter L dt acc pos k)
    x_pred + L k * (!![pos k] - C * x_pred)

/-- the samples of the iterations -/
def samplesOf (dt acc pos : ℕ → ℚ) (n : ℕ) : List Sample := (List.range n).map fun k => ⟨dt k, acc k, pos k⟩

theorem samplesOf_succ (dt acc pos : ℕ → ℚ) (n : ℕ) :
    samplesOf dt acc pos (n + 1) = samplesOf dt acc pos n ++ [⟨dt n, acc n, pos n⟩] := by
  rw [samplesOf, List.range_succ, List.map_append]
  rfl

theorem samplesOf_take (dt acc pos : ℕ → ℚ) {k n : ℕ} (hk : k ≤ n) :
    (samplesOf dt acc pos n).take k = samplesOf dt acc pos k := by
  rw [samplesOf, ← List.map_take, List.take_range, Nat.min_eq_left hk]
  rfl

/-- the estimates of the code: its gains are those of the covariances -/
theorem advance_gains (dt acc pos : ℕ → ℚ) (k : ℕ) :
    ((samplesOf dt acc pos k).foldl advance start).mean =
        gainFilter (filterGain (motions dt acc) sensor (square p0)) dt acc pos k ∧
      ((samplesOf dt acc pos k).foldl advance start).cov = filtered (motions dt acc) sensor (square p0) k := by
  induction k with
  | zero => exact ⟨rfl, rfl⟩
  | succ k ih =>
    obtain ⟨hmean, hcov⟩ := ih
    rw [samplesOf_succ, List.foldl_concat, gainFilter, filtered, filterGain, ← hcov, ← hmean]
    exact ⟨rfl, rfl⟩

/-! ## Errors -/

section
variable {Ω : Type*} (E : (Ω → ℚ) →ₗ[ℚ] ℚ)

/-- the arrays of K iterations are those of motions `x`, where `w` is added to position and velocity in each step, and
whose positions are measured with noises `v` -/
structure Measured (t a : List ℚ) (h : Ω → List ℚ) (s : ℤ) (K : ℕ) (dt acc : ℕ → ℚ) (pos : ℕ → Ω → ℚ)
    (x w : ℕ → Ω → Column 2) (v : ℕ → Ω → Column 1) : Prop where
  read : ∀ o, ∀ k < K, sample t (h o) a s k = some ⟨dt k, acc k, pos k o⟩
  move : ∀ o, ∀ k < K, x (k + 1) o = xPred (dt k) (acc k) (x k o) + w k o
  measure : ∀ o, ∀ k < K, !![pos k o] = C * x (k + 1) o + v k o

variable {E} {t a : List ℚ} {h : Ω → List ℚ} {s : ℤ} {K : ℕ} {dt acc : ℕ → ℚ} {pos : ℕ → Ω → ℚ}
  {x w : ℕ → Ω → Column 2} {v : ℕ → Ω → Column 1}

/-- **The error of an estimate** -/
theorem estimate_error (hm : Measured t a h s K dt acc pos x w v) (L : ℕ → Column 2) {k : ℕ} (hk : k ≤ K) (o : Ω) :
    x k o - gainFilter L dt acc (fun k => pos k o) k =
      error (motions dt acc) sensor L (fun o => x 0 o - x0) w v k o := by
  induction k with
  | zero => rfl
  | succ k ih =>
    have hlt : k < K := hk
    have hmoved : x (k + 1) o - xPred (dt k) (acc k) (gainFilter L dt acc (fun k => pos k o) k) =
        A (dt k) * error (motions dt acc) sensor L (fun o => x 0 o - x0) w v k o + w k o := by
      rw [hm.move o k hlt, ← ih hlt.le, xPred, xPred, Matrix.mul_sub]
      abel
    generalize hd : A (dt k) * error (motions dt acc) sensor L (fun o => x 0 o - x0) w v k o + w k o = d at hmoved
    have hresidual : C * x (k + 1) o + v k o - C * xPred (dt k) (acc k) (gainFilter L dt acc (fun k => pos k o) k) =
        C * d + v k o := by
      rw [← hmoved, Matrix.mul_sub]
      abel
    calc x (k + 1) o - gainFilter L dt acc (fun k => pos k o) (k + 1)
        = d - L k * (C * d + v k o) := by rw [gainFilter, hm.measure o k hlt, ← sub_sub, hmoved, hresidual]
      _ = (1 - L k * C) * d - L k * v k o := by
        rw [Matrix.sub_mul, Matrix.one_mul, Matrix.mul_add, Matrix.mul_assoc, sub_sub]
      _ = error (motions dt acc) sensor L (fun o => x 0 o - x0) w v (k + 1) o := by
        rw [← hd]
        rfl

/-- **The filter is optimal for the noises its covariance stands for.** Let the arrays be measured on random motions,
where each step adds to position and velocity a noise whose second moment has Q = 25 in each entry, and each position is
measured with a noise of moment R = 1, all uncorrelated, with a first error of the moment `p0`.
Then every call returns, with the same `p` for every outcome, and each column of `p` is the second moment of the error
of that column of `x`. With any other gains in place of `K`, the second moment of the error exceeds it by a positive
semidefinite matrix. -/
theorem optimal {e : ℤ} (hse : s ≤ e) (hm : Measured t a h s (e - s).toNat dt acc pos x w v)
    (hfirst : moment E (fun o => x 0 o - x0) (fun o => x 0 o - x0) = square p0)
    (hnoise : White (motions dt acc) sensor E (e - s).toNat (fun o => x 0 o - x0) w v) :
    ∃ c : Ω → Columns, (∀ o, kalmanExample t (h o) a s e = some (c o)) ∧
      ∀ k ≤ (e - s).toNat, ∃ (p : Column 4) (est : Ω → Column 2),
        (∀ o, element (c o).x (k + 1) = some (some (est o)) ∧ element (c o).p (k + 1) = some (some p)) ∧
          moment E (fun o => x k o - est o) (fun o => x k o - est o) = square p ∧
          ∀ L : ℕ → Column 2, (moment E (fun o => x k o - gainFilter L dt acc (fun k => pos k o) k)
            (fun o => x k o - gainFilter L dt acc (fun k => pos k o) k) - square p).PosSemidef := by
  have hpos : (square p0).PosDef := posDef_p0
  have hmoment : ∀ (L : ℕ → Column 2) k, k ≤ (e - s).toNat →
      moment E (fun o => x k o - gainFilter L dt acc (fun k => pos k o) k)
          (fun o => x k o - gainFilter L dt acc (fun k => pos k o) k) =
        errorMoment (motions dt acc) sensor L (square p0) k := by
    intro L k hk
    simp only [estimate_error hm L hk]
    rw [error_moment hnoise L hk, hfirst]
  have hlen : ∀ o, (samplesOf dt acc (fun k => pos k o) (e - s).toNat).length = (e - s).toNat := by
    intro o
    rw [samplesOf, List.length_map, List.length_range]
  refine ⟨fun o => columns (samplesOf dt acc (fun k => pos k o) (e - s).toNat), ?_, ?_⟩
  · intro o
    refine (kalmanExample_some hse).2 ⟨_, hlen o, ?_, rfl⟩
    intro k hk
    rw [hlen o] at hk
    rw [hm.read o k hk]
    simp [samplesOf]
  · intro k hk
    refine ⟨column (filtered (motions dt acc) sensor (square p0) k),
      fun o => gainFilter (filterGain (motions dt acc) sensor (square p0)) dt acc (fun k => pos k o) k, ?_, ?_, ?_⟩
    · intro o
      obtain ⟨hx, hp⟩ := element_columns (samplesOf dt acc (fun k => pos k o) (e - s).toNat) (k := k)
        (hk.trans_eq (hlen o).symm)
      obtain ⟨hmean, hcov⟩ := advance_gains dt acc (fun k => pos k o) k
      rw [samplesOf_take _ _ _ hk, hmean] at hx
      rw [samplesOf_take _ _ _ hk, hcov] at hp
      exact ⟨hx, hp⟩
    · rw [hmoment _ k hk, square_column]
      exact errorMoment_filter (motions dt acc) sensor hpos k
    · intro L
      rw [hmoment L k hk, square_column]
      exact filtered_le (motions dt acc) sensor hpos L k

end

/-! ## One iteration -/

/-- what is wrong in an outcome: the first position or velocity, the acceleration or the measurement -/
inductive Outcome where
  | position
  | velocity
  | acceleration
  | measurement
deriving DecidableEq

/-- the outcomes with their weights -/
def weights : (Outcome → ℚ) →ₗ[ℚ] ℚ where
  toFun f := 10 * f .position + f .velocity + f .acceleration + f .measurement
  map_add' f g := by
    simp only [Pi.add_apply]
    ring
  map_smul' c f := by
    simp only [Pi.smul_apply, smul_eq_mul, RingHom.id_apply]
    ring

theorem weights_apply (f : Outcome → ℚ) :
    weights f = 10 * f .position + f .velocity + f .acceleration + f .measurement := rfl

def firstState (o : Outcome) : Column 2 := !![if o = .position then 1 else 0; if o = .velocity then 1 else 0]

def motionNoise (o : Outcome) : Column 2 := !![if o = .acceleration then 5 else 0; if o = .acceleration then 5 else 0]

def sensorNoise (o : Outcome) : Column 1 := !![if o = .measurement then 1 else 0]

def state (k : ℕ) (o : Outcome) : Column 2 :=
  if k = 0 then firstState o else xPred 1 0 (firstState o) + motionNoise o

def height (o : Outcome) : ℚ := if o = .acceleration then 5 else 1

theorem four_measured : Measured [0, 1] [0, 0] (fun o : Outcome => [0, height o]) 1 (2 - 1 : ℤ).toNat (fun _ => 1)
    (fun _ => 0) (fun _ => height) state (fun _ => motionNoise) fun _ => sensorNoise := by
  refine ⟨?_, ?_, ?_⟩
  · intro o k hk
    obtain rfl : k = 0 := Nat.lt_one_iff.1 hk
    simp [sample, element, Parser.index]
  · intro o k hk
    obtain rfl : k = 0 := Nat.lt_one_iff.1 hk
    rfl
  · intro o k hk
    obtain rfl : k = 0 := Nat.lt_one_iff.1 hk
    ext i j
    fin_cases i
    fin_cases j
    cases o <;> simp [height, state, firstState, motionNoise, sensorNoise, xPred, A, B, C]

theorem first_eq : (fun o => state 0 o - x0) = firstState := by
  funext o
  rw [x0, state, if_pos rfl]
  ext i j
  fin_cases i <;> simp

theorem four_white : White (motions (fun _ => 1) fun _ => 0) sensor weights (2 - 1 : ℤ).toNat
    (fun o => state 0 o - x0) (fun _ => motionNoise) fun _ => sensorNoise := by
  rw [first_eq]
  refine ⟨?_, ?_, ?_, ?_, ?_, ?_, ?_⟩
  · intro k _
    ext i j
    fin_cases i <;> fin_cases j <;>
      simp [moment, Matrix.mul_apply, weights_apply, motionNoise, motions, motion, Q] <;> norm_num
  · intro k _
    ext i j
    fin_cases i
    fin_cases j
    simp [moment, Matrix.mul_apply, weights_apply, sensorNoise, sensor, R]
  · intro k _
    ext i j
    fin_cases i <;> fin_cases j <;> simp [moment, Matrix.mul_apply, weights_apply, firstState, motionNoise]
  · intro k _
    ext i j
    fin_cases i <;> fin_cases j <;> simp [moment, Matrix.mul_apply, weights_apply, firstState, sensorNoise]
  · intro j k hjk hk
    exact absurd (Nat.lt_one_iff.1 hk) (Nat.ne_of_gt (Nat.zero_lt_of_lt hjk))
  · intro j k hjk hk
    exact absurd (Nat.lt_one_iff.1 hk) (Nat.ne_of_gt (Nat.zero_lt_of_lt hjk))
  · intro j k _ _
    ext i j
    fin_cases i <;> fin_cases j <;> simp [moment, Matrix.mul_apply, weights_apply, motionNoise, sensorNoise]

theorem four_first : moment weights (fun o => state 0 o - x0) (fun o => state 0 o - x0) = square p0 := by
  rw [first_eq, square_p0]
  ext i j
  fin_cases i <;> fin_cases j <;> simp [moment, Matrix.mul_apply, weights_apply, firstState]

/-- two samples of a motion with four outcomes -/
theorem optimal_four : ∃ c : Outcome → Columns,
    (∀ o, kalmanExample [0, 1] [0, height o] [0, 0] 1 2 = some (c o)) ∧
      ∃ (p : Column 4) (est : Outcome → Column 2), (∀ o, element (c o).p 2 = some (some p)) ∧
        moment weights (fun o => state 1 o - est o) (fun o => state 1 o - est o) = square p := by
  obtain ⟨c, hc, hcols⟩ := optimal (by decide) four_measured four_first four_white
  obtain ⟨p, est, hread, hmoment, -⟩ := hcols 1 le_rfl
  exact ⟨c, hc, p, est, fun o => (hread o).2, hmoment⟩

end NuStars.Kalman
