/-
The filter on a window of its arrays.

The loop index runs over the arrays of the caller, from s on; the columns are stored from 1 on. An iteration reads the
samples and the column at one distance from the two beginnings, so a call depends on the elements of its window, and not
on where the window is.

- `step_congr`, `loop_congr`, `kalmanExample_congr`: windows with the same elements make the same iterations, and so the
  same call;
- `kalmanExample_shorter`: a call on a window that ends earlier returns the first columns;
- `step_assigns`: what an iteration assigns, whatever the columns are that it does not read;
- `windowed`: what follows for a call: its slices, its columns, what it reads, and what a column depends on.
-/
import NuStars.Kalman.Covariance

namespace NuStars.Kalman

open Matrix NuStars.Linear NuStars.Parser

/-- the first m elements from index s on are those from index s' on of other arrays -/
structure SameWindow (t h a : List ℚ) (s : ℤ) (t' h' a' : List ℚ) (s' m : ℤ) : Prop where
  t : ∀ i, 0 ≤ i → i < m → element t (s + i) = element t' (s' + i)
  h : ∀ i, 0 ≤ i → i < m → element h (s + i) = element h' (s' + i)
  a : ∀ i, 0 ≤ i → i < m → element a (s + i) = element a' (s' + i)

/-! ## Runs on the same window -/

section
variable {t h a t' h' a' : List ℚ} {s s' : ℤ}

theorem SameWindow.mono {m m' : ℤ} (hw : SameWindow t h a s t' h' a' s' m) (hm : m' ≤ m) :
    SameWindow t h a s t' h' a' s' m' :=
  ⟨fun i hi him => hw.t i hi (by omega), fun i hi him => hw.h i hi (by omega), fun i hi him => hw.a i hi (by omega)⟩

/-- whatever the columns are -/
theorem step_congr {k : ℤ} (hk : 0 ≤ k) (hw : SameWindow t h a s t' h' a' s' (k + 2)) (c : Columns) :
    step t h a s c (s + k) = step t' h' a' s' c (s' + k) := by
  have ht0 := hw.t k hk (by omega)
  have ht1 := hw.t (k + 1) (by omega) (by omega)
  have hh := hw.h (k + 1) (by omega) (by omega)
  have ha := hw.a (k + 1) (by omega) (by omega)
  rw [← add_assoc, ← add_assoc] at ht1 hh ha
  have hread : s + k - s + 1 = s' + k - s' + 1 := by ring
  have hwrite : s + k + 1 - s + 1 = s' + k + 1 - s' + 1 := by ring
  rw [step, step, ht0, ht1, hh, ha, hread, hwrite]

theorem loop_congr (m : ℕ) (hw : SameWindow t h a s t' h' a' s' (m + 1)) (c : Columns) :
    loop t h a s m c = loop t' h' a' s' m c := by
  induction m with
  | zero => rfl
  | succ m ih =>
    have hm := ih (hw.mono (by push_cast; omega))
    unfold loop at hm ⊢
    rw [List.range_succ, List.foldlM_append, List.foldlM_append, hm]
    apply bind_congr
    intro c'
    have hstep := step_congr (k := m) (by omega) (hw.mono (by push_cast; omega)) c'
    rw [List.foldlM_cons, List.foldlM_cons, hstep]
    rfl

theorem kalmanExample_congr {e e' : ℤ} (hse : s ≤ e) (hlen : e - s = e' - s')
    (hw : SameWindow t h a s t' h' a' s' (e - s + 1)) : kalmanExample t h a s e = kalmanExample t' h' a' s' e' := by
  have hsaved : saved s e = saved s' e' := by
    unfold saved
    rw [hlen]
  rw [kalmanExample, kalmanExample, hsaved, ← hlen]
  apply bind_congr
  intro c
  exact loop_congr _ (hw.mono (by omega)) c

end

/-! ## Slices and shorter windows -/

/-- the elements of a slice -/
theorem slice_window {v : List ℚ} {s e : ℤ} (hs : 1 ≤ s) (hse : s ≤ e) (he : e ≤ v.length) :
    ∃ w, slice v s.toNat e.toNat = some w ∧
      ∀ i, 0 ≤ i → i < e - s + 1 → element v (s + i) = element w (1 + i) := by
  refine ⟨_, slice_eq (by omega) (by omega) (by omega), ?_⟩
  intro i hi him
  rw [element, element, index_eq (by omega), index_eq (by omega), List.getElem?_take_of_lt (by omega),
    List.getElem?_drop]
  congr 1
  omega

theorem columns_take (zs : List Sample) (k : ℕ) :
    columns (zs.take k) = ⟨(columns zs).x.take (k + 1), (columns zs).p.take (k + 1)⟩ := by
  have h : estimates (zs.take k) = (estimates zs).take (k + 1) := by
    rw [estimates, estimates, List.take_scanl]
  rw [columns, h, List.map_take, List.map_take]
  rfl

theorem kalmanExample_shorter {t h a : List ℚ} {s e e' : ℤ} (hse : s ≤ e') (he : e' ≤ e) {c : Columns}
    (hc : kalmanExample t h a s e = some c) :
    kalmanExample t h a s e' = some ⟨c.x.take (e' - s + 1).toNat, c.p.take (e' - s + 1).toNat⟩ := by
  obtain ⟨zs, hlen, hzs, rfl⟩ := (kalmanExample_some (hse.trans he)).1 hc
  refine (kalmanExample_some hse).2 ⟨zs.take (e' - s).toNat, ?_, hzs.take _, ?_⟩
  · exact List.length_take_of_le (by omega)
  · have hn : (e' - s + 1).toNat = (e' - s).toNat + 1 := by omega
    rw [columns_take, hn]

/-- the first j columns of two calls -/
theorem columns_congr {t h a t' h' a' : List ℚ} {s e s' e' : ℤ} {c c' : Columns}
    (hc : kalmanExample t h a s e = some c) (hc' : kalmanExample t' h' a' s' e' = some c') {j : ℕ} (hj : 1 ≤ j)
    (hje : j ≤ e - s + 1) (hje' : j ≤ e' - s' + 1) (hw : SameWindow t h a s t' h' a' s' j) :
    c'.x.take j = c.x.take j ∧ c'.p.take j = c.p.take j := by
  have hn : (s + (j : ℤ) - 1 - s + 1).toNat = j := by omega
  have hn' : (s' + (j : ℤ) - 1 - s' + 1).toNat = j := by omega
  have hshort : kalmanExample t h a s (s + j - 1) = some ⟨c.x.take j, c.p.take j⟩ := by
    rw [kalmanExample_shorter (by omega) (by omega) hc, hn]
  have hshort' : kalmanExample t' h' a' s' (s' + j - 1) = some ⟨c'.x.take j, c'.p.take j⟩ := by
    rw [kalmanExample_shorter (by omega) (by omega) hc', hn']
  have hcall : kalmanExample t h a s (s + j - 1) = kalmanExample t' h' a' s' (s' + j - 1) :=
    kalmanExample_congr (by omega) (by omega) (hw.mono (by omega))
  rw [hshort, hshort'] at hcall
  injection hcall with hcolumns
  injection hcolumns with hx hp
  exact ⟨hx.symm, hp.symm⟩

/-! ## Reads and writes of columns -/

theorem element_put {k : ℕ} {m m' : List (Option (Column k))} {j : ℤ} {v : Option (Column k)}
    (h : put m j v = some m') : element m' j = some v := by
  unfold put at h
  split_ifs at h with hj hlen
  · obtain rfl := Option.some.inj h
    rw [element, index_eq (by omega), List.getElem?_set_self (by omega)]
  · obtain rfl := Option.some.inj h
    exact index_mid _ [] v (by simp; omega)

/-- what an iteration assigns depends on the columns `ii - s + 1` alone -/
theorem step_assigns {t h a : List ℚ} {s ii : ℤ} {c d : Columns} {E : Estimate (Fin 2) ℚ} {z : Sample} {t1 t0 : ℚ}
    (ht1 : element t (ii + 1) = some t1) (ht0 : element t ii = some t0) (hdt : z.dt = t1 - t0)
    (ha : element a (ii + 1) = some z.acc) (hh : element h (ii + 1) = some z.pos)
    (hx : element c.x (ii - s + 1) = some (some E.mean)) (hp : element c.p (ii - s + 1) = some (some (column E.cov)))
    (hd : step t h a s c ii = some d) :
    element d.x (ii + 1 - s + 1) = some (some (advance E z).mean) ∧
      element d.p (ii + 1 - s + 1) = some (some (column (advance E z).cov)) := by
  obtain ⟨hmean, hcov⟩ := assigned_eq E z
  rw [hdt] at hmean hcov
  unfold step at hd
  simp only [ht1, ht0, ha, hh, hx, hp, Option.bind_eq_bind, Option.bind_some, Option.map_some, Option.pure_def,
    square_column, hmean, hcov, Option.bind_eq_some_iff, Option.some.injEq] at hd
  obtain ⟨x, hputx, p, hputp, rfl⟩ := hd
  exact ⟨element_put hputx, element_put hputp⟩

/-! ## A call on a window -/

/-- what a call with the window s..e that returned `c` does -/
structure Windowed (t h a : List ℚ) (s e : ℤ) (c : Columns) : Prop where
  /-- on the slices `t(s:e)`, `h(s:e)` and `a(s:e)` it makes the same iterations, and returns the same -/
  slices : ∃ t' h' a', slice t s.toNat e.toNat = some t' ∧ slice h s.toNat e.toNat = some h' ∧
    slice a s.toNat e.toNat = some a' ∧ kalmanExample t' h' a' 1 (e - s + 1) = some c ∧
    ∀ ii, s ≤ ii → ii < e → ∀ c₀, step t h a s c₀ ii = step t' h' a' 1 c₀ (ii - s + 1)
  length : c.x.length = e - s + 1 ∧ c.p.length = e - s + 1
  filled : none ∉ c.x ∧ none ∉ c.p
  /-- before the iteration `ii` the columns `ii - s + 1` are written, and whatever the other columns are, it assigns to
  the next ones what the call returns there -/
  written : ∀ ii, s ≤ ii → ii < e → ∃ c₀ x p, (saved s e).bind (loop t h a s (ii - s).toNat) = some c₀ ∧
    element c₀.x (ii - s + 1) = some (some x) ∧ element c₀.p (ii - s + 1) = some (some p) ∧
    ∀ c₁ d, element c₁.x (ii - s + 1) = some (some x) → element c₁.p (ii - s + 1) = some (some p) →
      step t h a s c₁ ii = some d → element d.x (ii + 1 - s + 1) = element c.x (ii + 1 - s + 1) ∧
        element d.p (ii + 1 - s + 1) = element c.p (ii + 1 - s + 1)
  /-- arrays with these elements at s..e, and any or none elsewhere, give the same iterations and the same call -/
  inside : ∀ t' h' a', SameWindow t h a s t' h' a' s (e - s + 1) → kalmanExample t' h' a' s e = some c ∧
    ∀ ii, s ≤ ii → ii < e → ∀ c₀, step t' h' a' s c₀ ii = step t h a s c₀ ii
  /-- j columns depend on j elements -/
  causal : ∀ (t' h' a' : List ℚ) (s' e' : ℤ) (c' : Columns), kalmanExample t' h' a' s' e' = some c' →
    ∀ j : ℕ, 1 ≤ j → j ≤ e - s + 1 → j ≤ e' - s' + 1 → SameWindow t h a s t' h' a' s' j →
      c'.x.take j = c.x.take j ∧ c'.p.take j = c.p.take j
  shorter : ∀ e', s ≤ e' → e' ≤ e →
    kalmanExample t h a s e' = some ⟨c.x.take (e' - s + 1).toNat, c.p.take (e' - s + 1).toNat⟩

theorem iteration_congr {t h a t' h' a' : List ℚ} {s s' e ii : ℤ}
    (hw : SameWindow t h a s t' h' a' s' (e - s + 1)) (hs : s ≤ ii) (he : ii < e) (c₀ : Columns) :
    step t h a s c₀ ii = step t' h' a' s' c₀ (ii - s + s') := by
  have hstep := step_congr (k := ii - s) (by omega) (hw.mono (by omega)) c₀
  rwa [add_sub_cancel, add_comm s'] at hstep

theorem none_notMem_columns (zs : List Sample) : none ∉ (columns zs).x ∧ none ∉ (columns zs).p := by
  refine ⟨?_, ?_⟩
  · intro hx
    obtain ⟨E, -, hE⟩ := List.mem_map.1 hx
    cases hE
  · intro hp
    obtain ⟨E, -, hE⟩ := List.mem_map.1 hp
    cases hE

/-- **A call depends on its window and nothing else.** On every window 1 ≤ s ≤ e inside the arrays the call returns. It
is the call on the slices with the window 1..e − s + 1, iteration by iteration; all its e − s + 1 columns are written,
each before it is read; only the elements s..e matter; the first j columns depend on the first j elements, and a shorter
window has the first columns of the longer one. -/
theorem windowed (t h a : List ℚ) {s e : ℤ} (hs : 1 ≤ s) (hse : s ≤ e) (ht : e ≤ t.length) (hh : e ≤ h.length)
    (ha : e ≤ a.length) : ∃ c, kalmanExample t h a s e = some c ∧ Windowed t h a s e c := by
  obtain ⟨c, hc⟩ := kalmanExample_isSome t h a hs hse ht hh ha
  obtain ⟨zs, hlen, -, rfl⟩ := (kalmanExample_some hse).1 hc
  refine ⟨columns zs, hc, ⟨?_, length_columns hse hlen, none_notMem_columns zs, ?_, ?_, ?_, ?_⟩⟩
  · obtain ⟨t', ht', het⟩ := slice_window hs hse ht
    obtain ⟨h', hh', heh⟩ := slice_window hs hse hh
    obtain ⟨a', ha', hea⟩ := slice_window hs hse ha
    have hw : SameWindow t h a s t' h' a' 1 (e - s + 1) := ⟨het, heh, hea⟩
    refine ⟨t', h', a', ht', hh', ha', ?_, ?_⟩
    · rw [← kalmanExample_congr hse (by omega) hw, hc]
    · intro ii hii hie c₀
      exact iteration_congr hw hii hie c₀
  · intro ii hii hie
    obtain ⟨z, E, hit⟩ := iteration hse hc hii hie
    obtain ⟨t1, t0, ht1, ht0, hdt⟩ := hit.dt
    obtain ⟨c₀, hloop, hx, hp⟩ := hit.read
    refine ⟨c₀, _, _, hloop, hx, hp, ?_⟩
    intro c₁ d hx₁ hp₁ hd
    obtain ⟨hdx, hdp⟩ := step_assigns ht1 ht0 hdt hit.acc hit.pos hx₁ hp₁ hd
    exact ⟨hdx.trans hit.x'.symm, hdp.trans hit.p'.symm⟩
  · intro t' h' a' hw
    refine ⟨?_, ?_⟩
    · rw [← kalmanExample_congr hse rfl hw, hc]
    · intro ii hii hie c₀
      have hstep := iteration_congr hw hii hie c₀
      rw [sub_add_cancel] at hstep
      exact hstep.symm
  · intro t' h' a' s' e' c' hc' j hj hje hje' hw
    exact columns_congr hc hc' hj hje hje' hw
  · intro e' hse' he'
    exact kalmanExample_shorter hse' he' hc

/-- the middle three of five elements, and the first two of them -/
theorem windowed_middle : ∃ c, kalmanExample [7, 0, 1, 3, 4] [8, 5, 6, 8, 0] [1, 9, 2, -4, 6] 2 4 = some c ∧
    kalmanExample [0, 1, 3] [5, 6, 8] [9, 2, -4] 1 3 = some c ∧ c.x.length = (3 : ℤ) ∧ none ∉ c.x ∧
    kalmanExample [7, 0, 1, 3, 4] [8, 5, 6, 8, 0] [1, 9, 2, -4, 6] 2 3 = some ⟨c.x.take 2, c.p.take 2⟩ := by
  obtain ⟨c, hc, hw⟩ := windowed [7, 0, 1, 3, 4] [8, 5, 6, 8, 0] [1, 9, 2, -4, 6] (s := 2) (e := 4) (by decide)
    (by decide) (by decide) (by decide) (by decide)
  obtain ⟨t', h', a', ht', hh', ha', hc', -⟩ := hw.slices
  obtain rfl : [0, 1, 3] = t' := Option.some.inj ht'
  obtain rfl : [5, 6, 8] = h' := Option.some.inj hh'
  obtain rfl : [9, 2, -4] = a' := Option.some.inj ha'
  exact ⟨c, hc, hc', hw.length.1, hw.filled.1, hw.shorter 3 (by decide) (by decide)⟩

end NuStars.Kalman
