/-
The filter of Kalman_example.m, over the rationals.

Its arrays are 1-based, `none` is the error of an index outside an array. The columns of `x` and `p` are assigned and
read whole; a column is `none` while it is NaN, and whatever is computed from NaN or by a division by zero is `none`
again. A column assigned beyond the end grows the array, with zeros in between.

- `step_filled`, `steps_filled`: one iteration appends the estimate that moving and measuring make of the last one;
- `kalmanExample_some`: so a call with s ≤ e returns the estimates from the start on, one in each column, if the arrays
  have the samples, as they do on a window inside them (`kalmanExample_isSome`);
- `loop_samples`: before it returns, the columns up to the present iteration are written.
-/
import Mathlib.Data.Rat.Star
import NuStars.Core.Linear
import NuStars.Parser.Match

namespace NuStars.Kalman

open Matrix NuStars.Linear NuStars.Parser

/-! ## Model -/

abbrev Column (k : ℕ) := Matrix (Fin k) (Fin 1) ℚ

def C : Matrix (Fin 1) (Fin 2) ℚ := !![1, 0]

def x0 : Column 2 := !![0; 0]

def p0 : Column 4 := !![10; 0; 0; 1]

/-- error in position squared -/
def R : ℚ := 1

/-- error in acceleration squared -/
def Q : ℚ := 25

def A (dt : ℚ) : Matrix (Fin 2) (Fin 2) ℚ := !![1, dt; 0, 1]

def B (dt : ℚ) : Column 2 := !![0.5 * dt ^ 2; dt]

/-- `P`, from a column of `p` -/
def square (p : Column 4) : Matrix (Fin 2) (Fin 2) ℚ := !![p 0 0, p 1 0; p 2 0, p 3 0]

/-- a column of `p`, from `p_new` -/
def column (P : Matrix (Fin 2) (Fin 2) ℚ) : Column 4 := !![P 0 0; P 0 1; P 1 0; P 1 1]

def xPred (dt acc : ℚ) (x : Column 2) : Column 2 := A dt * x + acc • B dt

/-- the scalar `Q` is added to each entry -/
def pPred (dt : ℚ) (P : Matrix (Fin 2) (Fin 2) ℚ) : Matrix (Fin 2) (Fin 2) ℚ := (A dt * P * (A dt)ᵀ).map (· + Q)

/-- `C * p_pred * C' + R` -/
def residual (P : Matrix (Fin 2) (Fin 2) ℚ) : ℚ := (C * P * Cᵀ) 0 0 + R

def K (P : Matrix (Fin 2) (Fin 2) ℚ) : Option (Column 2) :=
  if residual P = 0 then none else some ((P * Cᵀ).map (· / residual P))

structure Columns where
  x : List (Option (Column 2))
  p : List (Option (Column 4))

/-- `v(i)` -/
def element {α : Type*} (v : List α) (i : ℤ) : Option α := index v i.toNat

/-- `m(:, j) = v` -/
def put {k : ℕ} (m : List (Option (Column k))) (j : ℤ) (v : Option (Column k)) : Option (List (Option (Column k))) :=
  if j < 1 then none
  else if j.toNat ≤ m.length then some (m.set (j.toNat - 1) v)
  else some (m ++ List.replicate (j.toNat - 1 - m.length) (some 0) ++ [v])

/-- one iteration of the loop -/
def step (t h a : List ℚ) (s : ℤ) (c : Columns) (ii : ℤ) : Option Columns := do
  let dt := (← element t (ii + 1)) - (← element t ii)
  let P := (← element c.p (ii - s + 1)).map square
  let x_pred := (← element c.x (ii - s + 1)).map (xPred dt (← element a (ii + 1)))
  let p_pred := P.map (pPred dt)
  let K := p_pred.bind K
  let pos ← element h (ii + 1)
  let x ← put c.x (ii + 1 - s + 1) (do return (← x_pred) + (← K) * (!![pos] - C * (← x_pred)))
  let p_new : Option (Matrix (Fin 2) (Fin 2) ℚ) := do return (1 - (← K) * C) * (← p_pred)
  let p ← put c.p (ii + 1 - s + 1) (p_new.map column)
  return ⟨x, p⟩

/-- the first m iterations, `ii` = s, s + 1, … -/
def loop (t h a : List ℚ) (s : ℤ) (m : ℕ) (c : Columns) : Option Columns :=
  (List.range m).foldlM (fun c (k : ℕ) => step t h a s c (s + k)) c

/-- the columns before the loop -/
def saved (s e : ℤ) : Option Columns := do
  let x ← put (List.replicate (e - s + 1).toNat none) 1 (some x0)
  let p ← put (List.replicate (e - s + 1).toNat none) 1 (some p0)
  return ⟨x, p⟩

def kalmanExample (t h a : List ℚ) (s e : ℤ) : Option Columns := do loop t h a s (e - s).toNat (← saved s e)

/-! ## The estimates -/

/-- what an iteration reads of the arrays -/
structure Sample where
  dt : ℚ
  acc : ℚ
  pos : ℚ

/-- the sample of the iteration `ii = s + k` -/
def sample (t h a : List ℚ) (s : ℤ) (k : ℕ) : Option Sample := do
  let dt := (← element t (s + k + 1)) - (← element t (s + k))
  return ⟨dt, ← element a (s + k + 1), ← element h (s + k + 1)⟩

theorem isUnit_A (dt : ℚ) : IsUnit (A dt) := by
  rw [isUnit_iff_isUnit_det]
  simp [A]

theorem square_p0 : square p0 = diagonal ![10, 1] := by
  decide +kernel

theorem posDef_p0 : (square p0).PosDef := by
  rw [square_p0]
  apply PosDef.diagonal
  intro i
  fin_cases i <;> simp

def motion (z : Sample) : Motion (Fin 2) ℚ where
  F := A z.dt
  u := z.acc • B z.dt
  N := of fun _ _ => Q
  isUnit := isUnit_A z.dt
  posSemidef := posSemidef_const (by norm_num [Q])

def sensor : Sensor (Fin 2) ℚ where
  H := C
  r := R
  pos := by norm_num [R]

def start : Estimate (Fin 2) ℚ where
  mean := x0
  cov := square p0
  posDef := posDef_p0

def advance (E : Estimate (Fin 2) ℚ) (z : Sample) : Estimate (Fin 2) ℚ := (E.predict (motion z)).update sensor z.pos

/-- the columns of a call for n indices, of which the estimates `Es` are written -/
def filled (n : ℕ) (Es : List (Estimate (Fin 2) ℚ)) : Columns where
  x := Es.map (fun E => some E.mean) ++ List.replicate (n - Es.length) none
  p := Es.map (fun E => some (column E.cov)) ++ List.replicate (n - Es.length) none

@[simp] theorem square_column (P : Matrix (Fin 2) (Fin 2) ℚ) : square (column P) = P := (eta_fin_two P).symm

theorem column_square (p : Column 4) : column (square p) = p := by
  ext i j
  fin_cases i <;> fin_cases j <;> rfl

theorem B_eq (dt : ℚ) : B dt = !![dt ^ 2 / 2; dt] := by
  have h : (0.5 : ℚ) * dt ^ 2 = dt ^ 2 / 2 := by ring
  rw [B, h]

section
variable {m : ℕ}

theorem C_mul (M : Matrix (Fin 2) (Fin m) ℚ) (j : Fin m) : (C * M) 0 j = M 0 j := by
  simp [C, mul_apply, Fin.sum_univ_two]

theorem mul_C (M : Matrix (Fin m) (Fin 2) ℚ) (i : Fin m) : (M * Cᵀ) i 0 = M i 0 := by
  simp [C, mul_apply, Fin.sum_univ_two]

end

theorem pPred_eq (z : Sample) (P : Matrix (Fin 2) (Fin 2) ℚ) :
    pPred z.dt P = (motion z).F * P * (motion z).Fᵀ + (motion z).N := by
  ext i j
  rfl

theorem residual_eq (P : Matrix (Fin 2) (Fin 2) ℚ) : residual P = sensor.innovation P := by
  rw [Sensor.innovation, trace_fin_one]
  rfl

theorem K_eq {P : Matrix (Fin 2) (Fin 2) ℚ} (hP : P.PosSemidef) : K P = some (sensor.gain P) := by
  have hne : sensor.innovation P ≠ 0 := (sensor.innovation_pos hP).ne'
  rw [K, residual_eq, if_neg hne]
  congr 1
  ext i j
  simp [Sensor.gain, sensor, div_eq_inv_mul]

/-! ## The run -/

section
variable {k : ℕ} {n : ℕ} (cols : List (Option (Column k)))

theorem element_filled (v : Option (Column k)) {j : ℤ} (hj : j = cols.length + 1) :
    element (cols ++ [v] ++ List.replicate n none) j = some v := by
  rw [element, List.append_assoc]
  exact index_mid _ _ _ (by omega)

theorem put_filled (v : Option (Column k)) {j : ℤ} (hj : j = cols.length + 1) :
    put (cols ++ List.replicate (n + 1) none) j v = some (cols ++ [v] ++ List.replicate n none) := by
  have hj' : j.toNat = cols.length + 1 := by omega
  rw [put, if_neg (by omega), if_pos (by simp; omega), hj', Nat.add_sub_cancel, List.set_append_right _ _ le_rfl,
    Nat.sub_self, List.replicate_succ, List.set_cons_zero, List.append_assoc]
  rfl

end

theorem filled_snoc (n : ℕ) (Es : List (Estimate (Fin 2) ℚ)) (E : Estimate (Fin 2) ℚ) :
    filled n (Es ++ [E]) =
      ⟨Es.map (fun E => some E.mean) ++ [some E.mean] ++ List.replicate (n - (Es.length + 1)) none,
        Es.map (fun E => some (column E.cov)) ++ [some (column E.cov)] ++
          List.replicate (n - (Es.length + 1)) none⟩ := by
  simp [filled]

/-- the last written columns are those of the last estimate -/
theorem filled_last (n : ℕ) (Es : List (Estimate (Fin 2) ℚ)) (E : Estimate (Fin 2) ℚ) :
    element (filled n (Es ++ [E])).x (Es.length + 1) = some (some E.mean) ∧
      element (filled n (Es ++ [E])).p (Es.length + 1) = some (some (column E.cov)) := by
  rw [filled_snoc]
  exact ⟨element_filled _ _ (by simp), element_filled _ _ (by simp)⟩

/-- the values an iteration assigns are those of the next estimate -/
theorem assigned_eq (E : Estimate (Fin 2) ℚ) (z : Sample) :
    ((K (pPred z.dt E.cov)).bind fun k =>
        some (xPred z.dt z.acc E.mean + k * (!![z.pos] - C * xPred z.dt z.acc E.mean))) = some (advance E z).mean ∧
      ((K (pPred z.dt E.cov)).bind fun k => some ((1 - k * C) * pPred z.dt E.cov)) = some (advance E z).cov := by
  have hK : K (pPred z.dt E.cov) = some (sensor.gain (E.predict (motion z)).cov) := by
    rw [pPred_eq]
    exact K_eq (E.predict (motion z)).posDef.posSemidef
  rw [hK, pPred_eq]
  exact ⟨rfl, rfl⟩

theorem step_filled (t h a : List ℚ) (s : ℤ) {n : ℕ} (Es : List (Estimate (Fin 2) ℚ)) (E : Estimate (Fin 2) ℚ)
    (hn : Es.length + 1 < n) :
    step t h a s (filled n (Es ++ [E])) (s + Es.length) =
      (sample t h a s Es.length).map fun z => filled n (Es ++ [E] ++ [advance E z]) := by
  obtain ⟨m, hm⟩ : ∃ m, n - (Es.length + 1) = m + 1 := ⟨n - (Es.length + 1) - 1, by omega⟩
  have hread : s + Es.length - s + 1 = (Es.length : ℤ) + 1 := by ring
  have hwrite : s + Es.length + 1 - s + 1 = (Es.length : ℤ) + 2 := by ring
  obtain ⟨hx, hp⟩ := filled_last n Es E
  rw [step, sample, hread, hwrite]
  simp only [hx, hp, Option.bind_eq_bind, Option.bind_some, Option.map_some, Option.pure_def, square_column]
  cases element t (s + Es.length + 1) with
  | none => rfl
  | some t1 =>
    cases element t (s + Es.length) with
    | none => rfl
    | some t0 =>
      cases element a (s + Es.length + 1) with
      | none => rfl
      | some acc =>
        cases element h (s + Es.length + 1) with
        | none => rfl
        | some pos =>
          obtain ⟨hmean, hcov⟩ := assigned_eq E ⟨t1 - t0, acc, pos⟩
          simp only [Option.bind_some, Option.map_some]
          rw [hmean, hcov, filled_snoc, hm, put_filled _ _ (by simp; ring), Option.map_some, Option.bind_some,
            put_filled _ _ (by simp; ring), Option.bind_some, filled_snoc]
          have hlast : n - ((Es ++ [E]).length + 1) = m := by
            rw [List.length_append, List.length_singleton]
            omega
          rw [hlast, List.map_append, List.map_append]
          rfl

/-- the estimates before, between and after the samples `zs` -/
def estimates (zs : List Sample) : List (Estimate (Fin 2) ℚ) := zs.scanl advance start

@[simp] theorem length_estimates (zs : List Sample) : (estimates zs).length = zs.length + 1 := List.length_scanl

theorem estimates_snoc (zs : List Sample) (z : Sample) :
    estimates (zs ++ [z]) = estimates zs ++ [advance (zs.foldl advance start) z] := by
  rw [estimates, List.scanl_append, List.scanl_singleton]
  rfl

/-- an estimate depends on the samples before it -/
theorem getElem?_estimates (zs : List Sample) {k : ℕ} (hk : k ≤ zs.length) :
    (estimates zs)[k]? = some ((zs.take k).foldl advance start) := by
  rw [estimates, List.getElem?_scanl, if_pos hk]

theorem estimates_last (zs : List Sample) :
    ∃ Es, Es.length = zs.length ∧ estimates zs = Es ++ [zs.foldl advance start] := by
  have hne : estimates zs ≠ [] := List.scanl_ne_nil
  refine ⟨(estimates zs).dropLast, by simp, ?_⟩
  conv_lhs => rw [← List.dropLast_concat_getLast hne]
  congr 2
  exact List.getLast_scanl hne

/-- `zs` are the samples of the first iterations -/
def Samples (t h a : List ℚ) (s : ℤ) (zs : List Sample) : Prop :=
  ∀ k (hk : k < zs.length), sample t h a s k = some zs[k]

theorem samples_eq {t h a : List ℚ} {s : ℤ} {n : ℕ} {zs : List Sample} :
    (List.range n).mapM (sample t h a s) = some zs ↔ zs.length = n ∧ Samples t h a s zs := by
  rw [mapM_eq_some, List.forall₂_iff_get]
  refine ⟨?_, ?_⟩
  · intro hall
    obtain ⟨hlen, hget⟩ := hall
    rw [List.length_range] at hlen
    refine ⟨hlen.symm, ?_⟩
    intro k hk
    simpa using hget k (by rw [List.length_range]; omega) hk
  · intro hsamples
    obtain ⟨hlen, hzs⟩ := hsamples
    refine ⟨by rw [List.length_range, hlen], ?_⟩
    intro k hk hk'
    simpa using hzs k hk'

theorem Samples.take {t h a : List ℚ} {s : ℤ} {zs : List Sample} (hzs : Samples t h a s zs) (k : ℕ) :
    Samples t h a s (zs.take k) := by
  intro i hi
  rw [List.getElem_take]
  rw [List.length_take] at hi
  exact hzs i (by omega)

theorem samples_exist {t h a : List ℚ} {s : ℤ} (n : ℕ) (hn : ∀ k < n, ∃ z, sample t h a s k = some z) :
    ∃ zs, zs.length = n ∧ Samples t h a s zs := by
  obtain ⟨zs, hzs, -⟩ := mapM_some (g := sample t h a s) (List.range n) (by
    intro k hk
    exact hn k (List.mem_range.1 hk))
  exact ⟨zs, samples_eq.1 hzs⟩

theorem steps_filled (t h a : List ℚ) (s : ℤ) {n : ℕ} (m : ℕ) (hm : m < n) :
    loop t h a s m (filled n [start]) =
      ((List.range m).mapM (sample t h a s)).map fun zs => filled n (estimates zs) := by
  induction m with
  | zero => rfl
  | succ m ih =>
    rw [loop] at ih
    rw [loop, List.range_succ, List.foldlM_append, ih (by omega), List.mapM_append]
    cases hzs : (List.range m).mapM (sample t h a s) with
    | none => rfl
    | some zs =>
      have hlen : zs.length = m := (samples_eq.1 hzs).1
      obtain ⟨Es, hEs, hlast⟩ := estimates_last zs
      have hstep := step_filled t h a s (n := n) Es (zs.foldl advance start) (by omega)
      rw [hEs, hlen, ← hlast] at hstep
      simp only [List.foldlM_cons, List.foldlM_nil, List.mapM_cons, List.mapM_nil, Option.map_some, Option.bind_eq_bind,
        Option.bind_some, Option.pure_def, hstep]
      cases sample t h a s m with
      | none => rfl
      | some z => simp [estimates_snoc]

theorem saved_eq {s e : ℤ} (hse : s ≤ e) : saved s e = some (filled (e - s + 1).toNat [start]) := by
  have hn : (e - s + 1).toNat = (e - s).toNat + 1 := by omega
  have hx := put_filled (n := (e - s).toNat) [] (some x0) (j := 1) (by simp)
  have hp := put_filled (n := (e - s).toNat) [] (some p0) (j := 1) (by simp)
  have hstart : filled ((e - s).toNat + 1) [start] =
      ⟨[] ++ [some x0] ++ List.replicate (e - s).toNat none, [] ++ [some p0] ++ List.replicate (e - s).toNat none⟩ := by
    rw [← column_square p0]
    rfl
  rw [saved, hn, hstart]
  rw [List.nil_append] at hx hp
  simp only [hx, hp, Option.bind_eq_bind, Option.bind_some, Option.pure_def]

theorem kalmanExample_eq (t h a : List ℚ) {s e : ℤ} (hse : s ≤ e) :
    kalmanExample t h a s e =
      ((List.range (e - s).toNat).mapM (sample t h a s)).map fun zs => filled (e - s + 1).toNat (estimates zs) := by
  rw [kalmanExample, saved_eq hse, Option.bind_eq_bind, Option.bind_some, steps_filled t h a s _ (by omega)]

/-- the columns of a call with the samples `zs` -/
def columns (zs : List Sample) : Columns where
  x := (estimates zs).map fun E => some E.mean
  p := (estimates zs).map fun E => some (column E.cov)

theorem filled_all (zs : List Sample) {n : ℕ} (hn : n = zs.length + 1) : filled n (estimates zs) = columns zs := by
  rw [filled, length_estimates, hn, Nat.sub_self]
  simp only [List.replicate_zero, List.append_nil]
  rfl

theorem element_map {α β : Type*} (v : List α) (f : α → β) (k : ℕ) : element (v.map f) (k + 1) = (v[k]?).map f := by
  have hk : ((k : ℤ) + 1).toNat = k + 1 := by omega
  rw [element, hk, index_eq (by omega), Nat.add_sub_cancel, List.getElem?_map]

/-- a call returns if the arrays have the samples, with an estimate for each column -/
theorem kalmanExample_some {t h a : List ℚ} {s e : ℤ} (hse : s ≤ e) {c : Columns} :
    kalmanExample t h a s e = some c ↔
      ∃ zs, zs.length = (e - s).toNat ∧ Samples t h a s zs ∧ c = columns zs := by
  rw [kalmanExample_eq t h a hse, Option.map_eq_some_iff]
  refine ⟨?_, ?_⟩
  · intro hc
    obtain ⟨zs, hzs, rfl⟩ := hc
    obtain ⟨hlen, hsamples⟩ := samples_eq.1 hzs
    exact ⟨zs, hlen, hsamples, filled_all zs (by omega)⟩
  · intro hc
    obtain ⟨zs, hlen, hsamples, rfl⟩ := hc
    exact ⟨zs, samples_eq.2 ⟨hlen, hsamples⟩, filled_all zs (by omega)⟩

theorem length_columns {zs : List Sample} {s e : ℤ} (hse : s ≤ e) (hlen : zs.length = (e - s).toNat) :
    (columns zs).x.length = e - s + 1 ∧ (columns zs).p.length = e - s + 1 := by
  simp only [columns, List.length_map, length_estimates, hlen]
  push_cast
  omega

/-- the loop writes the estimates one after another -/
theorem loop_samples {t h a : List ℚ} {s e : ℤ} (hse : s ≤ e) {zs : List Sample} (hlen : zs.length = (e - s).toNat)
    (hzs : Samples t h a s zs) {k : ℕ} (hk : k ≤ zs.length) :
    (saved s e).bind (loop t h a s k) = some (filled (e - s + 1).toNat (estimates (zs.take k))) := by
  have htake : (List.range k).mapM (sample t h a s) = some (zs.take k) :=
    samples_eq.2 ⟨List.length_take_of_le hk, hzs.take k⟩
  rw [saved_eq hse, Option.bind_some, steps_filled t h a s k (by omega), htake, Option.map_some]

/-- column k + 1 has the estimate after k iterations -/
theorem element_columns (zs : List Sample) {k : ℕ} (hk : k ≤ zs.length) :
    element (columns zs).x (k + 1) = some (some ((zs.take k).foldl advance start).mean) ∧
      element (columns zs).p (k + 1) = some (some (column ((zs.take k).foldl advance start).cov)) := by
  rw [columns, element_map, element_map, getElem?_estimates zs hk]
  exact ⟨rfl, rfl⟩

/-! ## When a call returns -/

theorem element_isSome {α : Type*} {v : List α} {i : ℤ} (hi : 1 ≤ i) (hlen : i ≤ v.length) :
    ∃ y, element v i = some y :=
  index_isSome v (by omega) (by omega)

theorem element_bounds {α : Type*} {v : List α} {i : ℤ} {y : α} (h : element v i = some y) :
    1 ≤ i ∧ i ≤ v.length := by
  unfold element index at h
  split_ifs at h with hi
  obtain ⟨hlen, -⟩ := List.getElem?_eq_some_iff.1 h
  omega

theorem sample_eq {t h a : List ℚ} {s : ℤ} {k : ℕ} {z : Sample} :
    sample t h a s k = some z ↔
      (∃ t1 t0, element t (s + k + 1) = some t1 ∧ element t (s + k) = some t0 ∧ z.dt = t1 - t0) ∧
        element a (s + k + 1) = some z.acc ∧ element h (s + k + 1) = some z.pos := by
  simp only [sample, Option.bind_eq_bind, Option.bind_eq_some_iff, Option.pure_def, Option.some.injEq]
  refine ⟨?_, ?_⟩
  · intro hz
    obtain ⟨t1, ht1, t0, ht0, acc, ha, pos, hh, rfl⟩ := hz
    exact ⟨⟨t1, t0, ht1, ht0, rfl⟩, ha, hh⟩
  · intro hz
    obtain ⟨⟨t1, t0, ht1, ht0, hdt⟩, ha, hh⟩ := hz
    refine ⟨t1, ht1, t0, ht0, _, ha, _, hh, ?_⟩
    rw [← hdt]

theorem kalmanExample_isSome (t h a : List ℚ) {s e : ℤ} (hs : 1 ≤ s) (hse : s ≤ e) (ht : e ≤ t.length)
    (hh : e ≤ h.length) (ha : e ≤ a.length) : ∃ c, kalmanExample t h a s e = some c := by
  obtain ⟨zs, hlen, hzs⟩ := samples_exist (t := t) (h := h) (a := a) (s := s) (e - s).toNat (by
    intro k hk
    obtain ⟨t1, ht1⟩ := element_isSome (v := t) (i := s + k + 1) (by omega) (by omega)
    obtain ⟨t0, ht0⟩ := element_isSome (v := t) (i := s + k) (by omega) (by omega)
    obtain ⟨acc, hacc⟩ := element_isSome (v := a) (i := s + k + 1) (by omega) (by omega)
    obtain ⟨pos, hpos⟩ := element_isSome (v := h) (i := s + k + 1) (by omega) (by omega)
    exact ⟨⟨t1 - t0, acc, pos⟩, sample_eq.2 ⟨⟨t1, t0, ht1, ht0, rfl⟩, hacc, hpos⟩⟩)
  exact ⟨columns zs, (kalmanExample_some hse).2 ⟨zs, hlen, hzs, rfl⟩⟩

end NuStars.Kalman
