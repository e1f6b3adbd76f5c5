/-
While loops that may not end, as a fuelled function into `Option`: `none` means the fuel ran out.

- `loopN_exit`, `loopN_step`: one unfolding;
- `loopN_inv`: partial correctness. An invariant the body preserves holds at the exit, where the guard is false;
- `loopN_total`: total correctness. The loop ends when the body also makes a measure smaller;
- `loopN_stuck`: an invariant that keeps the guard true makes the loop return for no fuel;
- `loopN_mono`: more fuel, for the loop and inside its body, changes no result.
-/
import Mathlib.Tactic

namespace NuStars.Loop

variable {σ : Type*}

/-- `while (guard) body`, at most n tests of the guard -/
def loopN (guard : σ → Bool) (body : σ → Option σ) : ℕ → σ → Option σ
  | 0, _ => none
  | n + 1, s => if guard s then (body s).bind (loopN guard body n) else some s

theorem loopN_exit {guard : σ → Bool} {body : σ → Option σ} {s : σ} (h : guard s = false) (n : ℕ) :
    loopN guard body (n + 1) s = some s := by
  simp [loopN, h]

theorem loopN_step {guard : σ → Bool} {body : σ → Option σ} {s t : σ} (h : guard s = true) (hb : body s = some t)
    (n : ℕ) : loopN guard body (n + 1) s = loopN guard body n t := by
  simp [loopN, h, hb]

theorem loopN_inv {guard : σ → Bool} {body : σ → Option σ} {I : σ → Prop}
    (hI : ∀ s t, I s → guard s = true → body s = some t → I t) {n : ℕ} {s t : σ} (h : I s)
    (hr : loopN guard body n s = some t) : I t ∧ guard t = false := by
  induction n generalizing s with
  | zero => simp [loopN] at hr
  | succ n ih =>
    cases hg : guard s with
    | false =>
      rw [loopN_exit hg, Option.some.injEq] at hr
      subst hr
      exact ⟨h, hg⟩
    | true =>
      cases hb : body s with
      | none => simp [loopN, hg, hb] at hr
      | some u =>
        rw [loopN_step hg hb] at hr
        exact ih (hI s u h hg hb) hr

theorem loopN_total {guard : σ → Bool} {body : σ → Option σ} {I : σ → Prop} (m : σ → ℕ)
    (hI : ∀ s, I s → guard s = true → ∃ t, body s = some t ∧ I t ∧ m t < m s) {s : σ} (h : I s) :
    ∃ n t, loopN guard body n s = some t := by
  induction hm : m s using Nat.strong_induction_on generalizing s with
  | _ k ih =>
    cases hg : guard s with
    | false => exact ⟨1, s, loopN_exit hg 0⟩
    | true =>
      obtain ⟨t, hb, ht, hlt⟩ := hI s h hg
      obtain ⟨n, u, hu⟩ := ih (m t) (hm ▸ hlt) ht rfl
      exact ⟨n + 1, u, by rw [loopN_step hg hb, hu]⟩

theorem loopN_stuck {guard : σ → Bool} {body : σ → Option σ} {I : σ → Prop} (hg : ∀ s, I s → guard s = true)
    (hI : ∀ s t, I s → guard s = true → body s = some t → I t) {s : σ} (h : I s) (n : ℕ) :
    loopN guard body n s = none := by
  cases hr : loopN guard body n s with
  | none => rfl
  | some t =>
    obtain ⟨ht, hf⟩ := loopN_inv hI h hr
    rw [hg t ht] at hf
    cases hf

theorem loopN_mono {guard : σ → Bool} {body body' : σ → Option σ} (hbody : ∀ s t, body s = some t → body' s = some t)
    {n m : ℕ} (hnm : n ≤ m) {s t : σ} (h : loopN guard body n s = some t) : loopN guard body' m s = some t := by
  induction n generalizing m s with
  | zero => simp [loopN] at h
  | succ n ih =>
    obtain ⟨m, rfl⟩ : ∃ k, m = k + 1 := ⟨m - 1, by omega⟩
    cases hg : guard s with
    | false =>
      rw [loopN_exit hg] at h ⊢
      exact h
    | true =>
      cases hb : body s with
      | none => simp [loopN, hg, hb] at h
      | some u =>
        rw [loopN_step hg hb] at h
        rw [loopN_step hg (hbody s u hb)]
        exact ih (by omega) h

end NuStars.Loop
