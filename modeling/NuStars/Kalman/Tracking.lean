/-
What the filter makes of data without noise.

The true motion starts at rest and moves with the accelerations of `a`; `h` has its positions. As long as the estimate
is the true one, the prediction is the next true one, the measurement is the predicted one, and the gain multiplies 0.

- `advance_exact`: a measurement at the predicted position leaves the prediction;
- `FromRest.mean`: so each estimate is the true one;
- `tracks`: and with it each column of `x`.
-/
import NuStars.Kalman.Filter

namespace NuStars.Kalman

open Matrix NuStars.Linear NuStars.Parser

/-- `v` is [position; velocity] of a motion that is at rest at index s, and `h` has its positions -/
structure FromRest (t h a : List ℚ) (s e : ℤ) (v : ℤ → Column 2) : Prop where
  rest : v s = !![0; 0]
  move : ∀ k, s ≤ k → k < e → ∃ t1 t0 acc,
    element t (k + 1) = some t1 ∧ element t k = some t0 ∧ element a (k + 1) = some acc ∧
      v (k + 1) = !![1, t1 - t0; 0, 1] * v k + acc • !![(t1 - t0) ^ 2 / 2; t1 - t0]
  pos : ∀ k, s ≤ k → k < e → element h (k + 1) = some (v (k + 1) 0 0)

/-- whatever the gain is -/
theorem advance_exact {E : Estimate (Fin 2) ℚ} {z : Sample} (hpos : z.pos = xPred z.dt z.acc E.mean 0 0) :
    (advance E z).mean = xPred z.dt z.acc E.mean := by
  apply Estimate.update_exact
  calc z.pos = xPred z.dt z.acc E.mean 0 0 := hpos
    _ = (C * xPred z.dt z.acc E.mean) 0 0 := (C_mul _ 0).symm

namespace FromRest
variable {t h a : List ℚ} {s e : ℤ} {v : ℤ → Column 2}

theorem sample_next (hv : FromRest t h a s e v) {k : ℕ} (hk : k < (e - s).toNat) :
    ∃ z, sample t h a s k = some z ∧ xPred z.dt z.acc (v (s + k)) = v (s + k + 1) ∧ z.pos = v (s + k + 1) 0 0 := by
  obtain ⟨t1, t0, acc, ht1, ht0, ha, hnext⟩ := hv.move (s + k) (by omega) (by omega)
  have hh := hv.pos (s + k) (by omega) (by omega)
  refine ⟨⟨t1 - t0, acc, v (s + k + 1) 0 0⟩, sample_eq.2 ⟨⟨t1, t0, ht1, ht0, rfl⟩, ha, hh⟩, ?_, rfl⟩
  rw [hnext, xPred, A, B_eq]

/-- by induction on the iterations: the estimate after k of them is the true one at s + k -/
theorem mean (hv : FromRest t h a s e v) {zs : List Sample} (hlen : zs.length = (e - s).toNat)
    (hzs : Samples t h a s zs) {k : ℕ} (hk : k ≤ zs.length) :
    ((zs.take k).foldl advance start).mean = v (s + k) := by
  induction k with
  | zero =>
    have h : start.mean = v s := hv.rest.symm
    simpa using h
  | succ k ih =>
    obtain ⟨z, hz, hnext, hpos⟩ := hv.sample_next (k := k) (by omega)
    obtain rfl : zs[k] = z := Option.some.inj ((hzs k hk).symm.trans hz)
    have hE := ih (by omega)
    have hexact : (advance ((zs.take k).foldl advance start) zs[k]).mean =
        xPred zs[k].dt zs[k].acc ((zs.take k).foldl advance start).mean := by
      apply advance_exact
      rw [hE, hnext, hpos]
    rw [List.take_succ_eq_append_getElem hk, List.foldl_concat, hexact, hE, hnext]
    congr 1
    push_cast
    ring

end FromRest

/-- **Noise-free data is tracked exactly.** For all arrays `t` and `a` and every window s ≤ e, if `h` has the positions
of the motion from rest, the call returns, and each of the e − s + 1 columns of `x` is [position; velocity] of the
motion at its index. -/
theorem tracks (t h a : List ℚ) {s e : ℤ} (hse : s ≤ e) {v : ℤ → Column 2} (hv : FromRest t h a s e v) :
    ∃ c, kalmanExample t h a s e = some c ∧ c.x.length = e - s + 1 ∧
      ∀ j, s ≤ j → j ≤ e → element c.x (j - s + 1) = some (some (v j)) := by
  obtain ⟨zs, hlen, hzs⟩ := samples_exist (e - s).toNat (by
    intro k hk
    obtain ⟨z, hz, -⟩ := hv.sample_next hk
    exact ⟨z, hz⟩)
  refine ⟨columns zs, (kalmanExample_some hse).2 ⟨zs, hlen, hzs, rfl⟩, (length_columns hse hlen).1, ?_⟩
  intro j hs he
  obtain ⟨k, rfl⟩ := Int.le.dest hs
  have hk : k ≤ zs.length := by omega
  calc element (columns zs).x (s + k - s + 1) = element (columns zs).x (k + 1) := by rw [add_sub_cancel_left]
    _ = some (some ((zs.take k).foldl advance start).mean) := (element_columns zs hk).1
    _ = some (some (v (s + k))) := by rw [hv.mean hlen hzs hk]

/-- two iterations, with time steps of 1 and 2 -/
theorem tracks_irregular : ∃ c, kalmanExample [0, 1, 3] [7, 1, -3] [9, 2, -4] 1 3 = some c ∧ c.x.length = (3 : ℤ) ∧
    element c.x 1 = some (some !![0; 0]) ∧ element c.x 2 = some (some !![1; 2]) ∧
      element c.x 3 = some (some !![-3; -6]) := by
  have hv : FromRest [0, 1, 3] [7, 1, -3] [9, 2, -4] 1 3
      (fun j => if j = 1 then !![0; 0] else if j = 2 then !![1; 2] else !![-3; -6]) := by
    refine ⟨rfl, ?_, ?_⟩
    · intro k hs he
      interval_cases k
      · exact ⟨1, 0, 2, rfl, rfl, rfl, by decide +kernel⟩
      · exact ⟨3, 1, -4, rfl, rfl, rfl, by decide +kernel⟩
    · intro k hs he
      interval_cases k <;> rfl
  obtain ⟨c, hc, hlen, hx⟩ := tracks [0, 1, 3] [7, 1, -3] [9, 2, -4] (s := 1) (e := 3) (by decide) hv
  exact ⟨c, hc, hlen, hx 1 (by decide) (by decide), hx 2 (by decide) (by decide), hx 3 (by decide) (by decide)⟩

end NuStars.Kalman
