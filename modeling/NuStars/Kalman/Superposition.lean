/-
Calls of the filter with one time array.

What the covariances and the gains are made of is read from `t` alone, so calls that differ in `h` and `a` share them,
and the means are linear in the two. parse.m makes two such calls, which differ in `a`.

- `advance_combines`, `run_combines`: an iteration keeps a combination of two runs, and so a whole run does;
- `samples_mix`: the samples of combined arrays are combinations of the samples;
- `superposition`: one `p` for all `h` and `a`, and the combination of two arrays `x` for the combined `h` and `a`.
-/
import NuStars.Kalman.Filter

namespace NuStars.Kalman

open Matrix NuStars.Linear NuStars.Parser

/-- `c₁ * v + c₂ * w`, of arrays of one length -/
def combine (c₁ c₂ : ℚ) (v w : List ℚ) : List ℚ := v.zipWith (fun y y' => c₁ * y + c₂ * y') w

def mix (c₁ c₂ : ℚ) (z₁ z₂ : Sample) : Sample where
  dt := z₁.dt
  acc := c₁ * z₁.acc + c₂ * z₂.acc
  pos := c₁ * z₁.pos + c₂ * z₂.pos

/-! ## The runs -/

section
variable {c₁ c₂ : ℚ} {E₁ E₂ E : Estimate (Fin 2) ℚ}

theorem combines_start (c₁ c₂ : ℚ) : Combines c₁ c₂ start start start := by
  have hx0 : x0 = 0 := by
    ext i j
    fin_cases i <;> fin_cases j <;> rfl
  refine ⟨?_, rfl, rfl⟩
  calc start.mean = 0 := hx0
    _ = c₁ • 0 + c₂ • 0 := by rw [smul_zero, smul_zero, add_zero]
    _ = c₁ • start.mean + c₂ • start.mean := by rw [start, hx0]

theorem advance_combines (h : Combines c₁ c₂ E₁ E₂ E) {z₁ z₂ : Sample} (hdt : z₁.dt = z₂.dt) :
    Combines c₁ c₂ (advance E₁ z₁) (advance E₂ z₂) (advance E (mix c₁ c₂ z₁ z₂)) := by
  have hF₁ : (motion z₁).F = (motion (mix c₁ c₂ z₁ z₂)).F := rfl
  have hF₂ : (motion z₂).F = (motion (mix c₁ c₂ z₁ z₂)).F := congrArg A hdt.symm
  have hu : (motion (mix c₁ c₂ z₁ z₂)).u = c₁ • (motion z₁).u + c₂ • (motion z₂).u := by
    calc (c₁ * z₁.acc + c₂ * z₂.acc) • B z₁.dt = c₁ • z₁.acc • B z₁.dt + c₂ • z₂.acc • B z₁.dt := by
          rw [add_smul, mul_smul, mul_smul]
      _ = c₁ • z₁.acc • B z₁.dt + c₂ • z₂.acc • B z₂.dt := by rw [hdt]
  exact (h.predict hF₁ hF₂ rfl rfl hu).update sensor z₁.pos z₂.pos

/-- by induction on the samples: all three runs move on by one -/
theorem run_combines {zs₁ zs₂ : List Sample} (hdt : List.Forall₂ (fun z₁ z₂ => z₁.dt = z₂.dt) zs₁ zs₂)
    (h : Combines c₁ c₂ E₁ E₂ E) :
    Combines c₁ c₂ (zs₁.foldl advance E₁) (zs₂.foldl advance E₂)
      ((zs₁.zipWith (mix c₁ c₂) zs₂).foldl advance E) := by
  induction hdt generalizing E₁ E₂ E with
  | nil => exact h
  | cons hz _ ih =>
    apply ih
    exact advance_combines h hz

end

/-! ## The samples -/

theorem element_combine {v w : List ℚ} {i : ℤ} {y y' : ℚ} (c₁ c₂ : ℚ) (hv : element v i = some y)
    (hw : element w i = some y') : element (combine c₁ c₂ v w) i = some (c₁ * y + c₂ * y') := by
  have hi : 1 ≤ i.toNat := by
    have := (element_bounds hv).1
    omega
  rw [element, index_eq hi] at hv hw ⊢
  rw [combine, List.getElem?_zipWith, hv, hw]

section
variable {t h₁ a₁ h₂ a₂ : List ℚ} {s : ℤ}

theorem sample_mix {k : ℕ} {z₁ z₂ : Sample} (c₁ c₂ : ℚ) (hz₁ : sample t h₁ a₁ s k = some z₁)
    (hz₂ : sample t h₂ a₂ s k = some z₂) :
    z₁.dt = z₂.dt ∧ sample t (combine c₁ c₂ h₁ h₂) (combine c₁ c₂ a₁ a₂) s k = some (mix c₁ c₂ z₁ z₂) := by
  obtain ⟨⟨t1, t0, ht1, ht0, hdt₁⟩, ha₁, hh₁⟩ := sample_eq.1 hz₁
  obtain ⟨⟨t1', t0', ht1', ht0', hdt₂⟩, ha₂, hh₂⟩ := sample_eq.1 hz₂
  obtain rfl : t1 = t1' := Option.some.inj (ht1.symm.trans ht1')
  obtain rfl : t0 = t0' := Option.some.inj (ht0.symm.trans ht0')
  refine ⟨hdt₁.trans hdt₂.symm, ?_⟩
  exact sample_eq.2 ⟨⟨t1, t0, ht1, ht0, hdt₁⟩, element_combine c₁ c₂ ha₁ ha₂, element_combine c₁ c₂ hh₁ hh₂⟩

variable {zs₁ zs₂ : List Sample} (hlen : zs₁.length = zs₂.length) (hzs₁ : Samples t h₁ a₁ s zs₁)
  (hzs₂ : Samples t h₂ a₂ s zs₂)
include hlen hzs₁ hzs₂

theorem samples_dt : List.Forall₂ (fun z₁ z₂ => z₁.dt = z₂.dt) zs₁ zs₂ := by
  rw [List.forall₂_iff_get]
  refine ⟨hlen, ?_⟩
  intro k hk₁ hk₂
  exact (sample_mix 0 0 (hzs₁ k hk₁) (hzs₂ k hk₂)).1

theorem samples_mix (c₁ c₂ : ℚ) :
    Samples t (combine c₁ c₂ h₁ h₂) (combine c₁ c₂ a₁ a₂) s (zs₁.zipWith (mix c₁ c₂) zs₂) := by
  intro k hk
  rw [List.length_zipWith] at hk
  rw [List.getElem_zipWith]
  exact (sample_mix c₁ c₂ (hzs₁ k (by omega)) (hzs₂ k (by omega))).2

/-- the estimates after k iterations -/
theorem samples_combines (c₁ c₂ : ℚ) (k : ℕ) :
    Combines c₁ c₂ ((zs₁.take k).foldl advance start) ((zs₂.take k).foldl advance start)
      (((zs₁.zipWith (mix c₁ c₂) zs₂).take k).foldl advance start) := by
  rw [List.take_zipWith]
  exact run_combines (List.forall₂_take k (samples_dt hlen hzs₁ hzs₂)) (combines_start c₁ c₂)

theorem samples_p : (columns zs₁).p = (columns zs₂).p := by
  apply List.ext_getElem?
  intro k
  simp only [columns, List.getElem?_map]
  by_cases hk : k ≤ zs₁.length
  · have h := samples_combines hlen hzs₁ hzs₂ 0 0 k
    rw [getElem?_estimates zs₁ hk, getElem?_estimates zs₂ (by omega), Option.map_some, Option.map_some,
      h.cov₁.trans h.cov₂.symm]
  · have h₁ : (estimates zs₁).length ≤ k := by
      rw [length_estimates]
      omega
    have h₂ : (estimates zs₂).length ≤ k := by
      rw [length_estimates]
      omega
    rw [List.getElem?_eq_none h₁, List.getElem?_eq_none h₂]

end

/-- **Superposition.** On a window s ≤ e of one time array, all calls that return have the same `p`, whatever their `h`
and `a` are. Where the calls with h₁, a₁ and with h₂, a₂ return, the one with c₁ h₁ + c₂ h₂ and c₁ a₁ + c₂ a₂ returns
too, and each of the e − s + 1 columns of its `x` is c₁ times the column of the first plus c₂ times that of the
second. -/
theorem superposition (t : List ℚ) {s e : ℤ} (hse : s ≤ e) :
    (∀ (h₁ a₁ h₂ a₂ : List ℚ) (d₁ d₂ : Columns), kalmanExample t h₁ a₁ s e = some d₁ →
      kalmanExample t h₂ a₂ s e = some d₂ → d₁.p = d₂.p) ∧
    ∀ (h₁ a₁ h₂ a₂ : List ℚ) (c₁ c₂ : ℚ) (d₁ d₂ : Columns), kalmanExample t h₁ a₁ s e = some d₁ →
      kalmanExample t h₂ a₂ s e = some d₂ →
        ∃ d, kalmanExample t (combine c₁ c₂ h₁ h₂) (combine c₁ c₂ a₁ a₂) s e = some d ∧ d.x.length = e - s + 1 ∧
          ∀ j, 1 ≤ j → j ≤ e - s + 1 → ∃ x₁ x₂, element d₁.x j = some (some x₁) ∧ element d₂.x j = some (some x₂) ∧
            element d.x j = some (some (c₁ • x₁ + c₂ • x₂)) := by
  refine ⟨?_, ?_⟩
  · intro h₁ a₁ h₂ a₂ d₁ d₂ hd₁ hd₂
    obtain ⟨zs₁, hlen₁, hzs₁, rfl⟩ := (kalmanExample_some hse).1 hd₁
    obtain ⟨zs₂, hlen₂, hzs₂, rfl⟩ := (kalmanExample_some hse).1 hd₂
    exact samples_p (hlen₁.trans hlen₂.symm) hzs₁ hzs₂
  · intro h₁ a₁ h₂ a₂ c₁ c₂ d₁ d₂ hd₁ hd₂
    obtain ⟨zs₁, hlen₁, hzs₁, rfl⟩ := (kalmanExample_some hse).1 hd₁
    obtain ⟨zs₂, hlen₂, hzs₂, rfl⟩ := (kalmanExample_some hse).1 hd₂
    have hlen : zs₁.length = zs₂.length := hlen₁.trans hlen₂.symm
    have hmix : (zs₁.zipWith (mix c₁ c₂) zs₂).length = (e - s).toNat := by
      rw [List.length_zipWith]
      omega
    refine ⟨columns (zs₁.zipWith (mix c₁ c₂) zs₂), ?_, (length_columns hse hmix).1, ?_⟩
    · exact (kalmanExample_some hse).2 ⟨_, hmix, samples_mix hlen hzs₁ hzs₂ c₁ c₂, rfl⟩
    · intro j hj hje
      obtain ⟨k, rfl⟩ : ∃ k : ℕ, j = k + 1 := ⟨(j - 1).toNat, by omega⟩
      refine ⟨_, _, (element_columns zs₁ (by omega)).1, (element_columns zs₂ (by omega)).1, ?_⟩
      rw [(element_columns _ (by omega)).1, (samples_combines hlen hzs₁ hzs₂ c₁ c₂ k).mean]

/-- twice one call minus another -/
theorem superposition_difference : ∃ d₁ d₂ d, kalmanExample [0, 1, 3] [5, 6, 8] [9, 2, -4] 1 3 = some d₁ ∧
    kalmanExample [0, 1, 3] [1, 1, 2] [0, 7, 1] 1 3 = some d₂ ∧
    kalmanExample [0, 1, 3] [9, 11, 14] [18, -3, -9] 1 3 = some d ∧ d₁.p = d₂.p ∧
    ∃ x₁ x₂, element d₁.x 3 = some (some x₁) ∧ element d₂.x 3 = some (some x₂) ∧
      element d.x 3 = some (some ((2 : ℚ) • x₁ + (-1 : ℚ) • x₂)) := by
  obtain ⟨hp, hx⟩ := superposition [0, 1, 3] (s := 1) (e := 3) (by decide)
  obtain ⟨d₁, hd₁⟩ := kalmanExample_isSome [0, 1, 3] [5, 6, 8] [9, 2, -4] (s := 1) (e := 3) (by decide) (by decide)
    (by decide) (by decide) (by decide)
  obtain ⟨d₂, hd₂⟩ := kalmanExample_isSome [0, 1, 3] [1, 1, 2] [0, 7, 1] (s := 1) (e := 3) (by decide) (by decide)
    (by decide) (by decide) (by decide)
  obtain ⟨d, hd, -, hcol⟩ := hx _ _ _ _ 2 (-1) d₁ d₂ hd₁ hd₂
  have hh : combine 2 (-1) [5, 6, 8] [1, 1, 2] = [9, 11, 14] := by decide +kernel
  have ha : combine 2 (-1) [9, 2, -4] [0, 7, 1] = [18, -3, -9] := by decide +kernel
  rw [hh, ha] at hd
  exact ⟨d₁, d₂, d, hd₁, hd₂, hd, hp _ _ _ _ d₁ d₂ hd₁ hd₂, hcol 3 (by decide) (by decide)⟩

end NuStars.Kalman
