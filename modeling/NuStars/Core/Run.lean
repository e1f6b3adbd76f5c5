/-
Runs of a transition system, in two forms.
- `run`: a total step function folded over a list of actions.
- `Trace`: a step relation, for systems whose step may fail to return.

The induction over a run is done here once. A safety proof about a machine is then a step lemma and one of:
- `run_inv`: an invariant every step preserves holds after every run;
- `run_inv_along`: the same when the steps preserve it only under a condition `P` on the state before the step and the
  action, for the runs all of whose steps meet `P` (`Along`);
- `run_observed`, `run_observed_along`: an invariant of the state and of what the steps so far have shown (`observed`);
- `run_iff_along`: an invariant together with a safety property that a step keeps exactly when it meets `P`;
- `trace_inv`, `trace_observed`, `trace_det`, `trace_sim`: an invariant along a trace, the same together with what was
  seen of the actions, determinism of traces, and simulation of one system's traces by another's;
- `trace_of_steps`: a trace by computation, where a function computes steps;
- `trace_total_iff`: a deterministic system takes all its actions iff no state on the way is stuck.
-/
import Mathlib.Tactic

namespace NuStars.Run

variable {σ α : Type*}

/-! ## Step functions -/

def run (step : σ → α → σ) (s : σ) (as : List α) : σ := as.foldl step s

@[simp] theorem run_nil (step : σ → α → σ) (s : σ) : run step s [] = s := rfl

@[simp] theorem run_cons (step : σ → α → σ) (s : σ) (a : α) (as : List α) :
    run step s (a :: as) = run step (step s a) as := rfl

theorem run_append (step : σ → α → σ) (s : σ) (as bs : List α) :
    run step s (as ++ bs) = run step (run step s as) bs := by
  simp [run, List.foldl_append]

theorem run_snoc (step : σ → α → σ) (s : σ) (as : List α) (a : α) :
    run step s (as ++ [a]) = step (run step s as) a := by
  simp [run, List.foldl_append]

theorem run_inv {step : σ → α → σ} {I : σ → Prop} (hstep : ∀ s a, I s → I (step s a)) (s : σ) (as : List α)
    (h : I s) : I (run step s as) := by
  induction as generalizing s with
  | nil => exact h
  | cons a as ih => exact ih _ (hstep s a h)

/-- every step of the run from `s` meets `P`, a condition on the state before the step and the action -/
def Along (step : σ → α → σ) (P : σ → α → Prop) (s : σ) (as : List α) : Prop :=
  ∀ pre a post, as = pre ++ a :: post → P (run step s pre) a

theorem along_nil (step : σ → α → σ) (P : σ → α → Prop) (s : σ) : Along step P s [] := by
  intro pre a post h
  simp at h

theorem along_cons (step : σ → α → σ) (P : σ → α → Prop) (s : σ) (a : α) (as : List α) :
    Along step P s (a :: as) ↔ P s a ∧ Along step P (step s a) as := by
  refine ⟨?_, ?_⟩
  · intro h
    refine ⟨h [] a as rfl, ?_⟩
    intro pre b post e
    exact h (a :: pre) b post (by rw [e]; rfl)
  · rintro ⟨h0, h⟩ pre b post e
    cases pre with
    | nil =>
      simp only [List.nil_append, List.cons.injEq] at e
      obtain ⟨rfl, -⟩ := e
      exact h0
    | cons c pre =>
      simp only [List.cons_append, List.cons.injEq] at e
      obtain ⟨rfl, e⟩ := e
      exact h pre b post e

theorem along_append (step : σ → α → σ) (P : σ → α → Prop) (s : σ) (as bs : List α) :
    Along step P s (as ++ bs) ↔ Along step P s as ∧ Along step P (run step s as) bs := by
  induction as generalizing s with
  | nil => exact (and_iff_right (along_nil step P s)).symm
  | cons a as ih => rw [List.cons_append, along_cons, along_cons, ih, run_cons, and_assoc]

theorem run_inv_along {step : σ → α → σ} {P : σ → α → Prop} {I : σ → Prop}
    (hstep : ∀ s a, I s → P s a → I (step s a)) (s : σ) (as : List α) (hP : Along step P s as) (h : I s) :
    I (run step s as) := by
  induction as generalizing s with
  | nil => exact h
  | cons a as ih =>
    obtain ⟨h0, hP⟩ := (along_cons step P s a as).1 hP
    exact ih _ hP (hstep s a h h0)

/-- what `f` sees of the steps of a run, oldest first -/
def observed {β : Type*} (step : σ → α → σ) (f : σ → α → Option β) (s : σ) : List α → List β
  | [] => []
  | a :: as => (f s a).toList ++ observed step f (step s a) as

theorem observed_append {β : Type*} (step : σ → α → σ) (f : σ → α → Option β) (s : σ) (as bs : List α) :
    observed step f s (as ++ bs) = observed step f s as ++ observed step f (run step s as) bs := by
  induction as generalizing s with
  | nil => rfl
  | cons a as ih => rw [List.cons_append, observed, observed, ih, List.append_assoc, run_cons]

theorem observed_snoc {β : Type*} (step : σ → α → σ) (f : σ → α → Option β) (s : σ) (as : List α) (a : α) :
    observed step f s (as ++ [a]) = observed step f s as ++ (f (run step s as) a).toList := by
  induction as generalizing s with
  | nil => simp [observed]
  | cons b as ih => rw [List.cons_append, observed, observed, ih, run_cons, List.append_assoc]

theorem run_observed_along {β : Type*} {step : σ → α → σ} {f : σ → α → Option β} {P : σ → α → Prop}
    {I : List β → σ → Prop} (hstep : ∀ obs s a, I obs s → P s a → I (obs ++ (f s a).toList) (step s a)) (s : σ)
    (as : List α) (hP : Along step P s as) (h : I [] s) : I (observed step f s as) (run step s as) := by
  induction as using List.reverseRecOn with
  | nil => exact h
  | append_singleton as a ih =>
    obtain ⟨hall, hlast⟩ := (along_append step P s as [a]).1 hP
    rw [observed_snoc, run_snoc]
    exact hstep _ _ a (ih hall) ((along_cons step P _ a []).1 hlast).1

theorem run_observed {β : Type*} {step : σ → α → σ} {f : σ → α → Option β} {I : List β → σ → Prop}
    (hstep : ∀ obs s a, I obs s → I (obs ++ (f s a).toList) (step s a)) (s : σ) (as : List α) (h : I [] s) :
    I (observed step f s as) (run step s as) :=
  run_observed_along (P := fun _ _ => True) (fun obs s a hI _ => hstep obs s a hI) s as (fun _ _ _ _ => trivial) h

/-- **Exact safety of runs.** `I` is an invariant of every step and `S` a safety property that a step from a state
with both keeps exactly when it meets `P`. Then `S` holds in every state of a run iff every step meets `P`. -/
theorem run_iff_along {step : σ → α → σ} {P : σ → α → Prop} {I S : σ → Prop} (hI : ∀ s a, I s → I (step s a))
    (hS : ∀ s a, I s → S s → (S (step s a) ↔ P s a)) (s : σ) (as : List α) (h : I s) (h0 : S s) :
    (∀ pre post, as = pre ++ post → S (run step s pre)) ↔ Along step P s as := by
  induction as generalizing s with
  | nil =>
    refine ⟨fun _ => along_nil _ _ _, ?_⟩
    intro _ pre post e
    obtain ⟨rfl, -⟩ := List.append_eq_nil_iff.1 e.symm
    exact h0
  | cons a as ih =>
    rw [along_cons]
    refine ⟨?_, ?_⟩
    · intro hall
      have ha : S (step s a) := hall [a] as rfl
      refine ⟨(hS s a h h0).1 ha, (ih _ (hI s a h) ha).1 fun pre post e => ?_⟩
      exact hall (a :: pre) post (by rw [e]; rfl)
    · rintro ⟨hp, hal⟩ pre post e
      have ha : S (step s a) := (hS s a h h0).2 hp
      cases pre with
      | nil => exact h0
      | cons b pre =>
        simp only [List.cons_append, List.cons.injEq] at e
        obtain ⟨rfl, e⟩ := e
        exact (ih _ (hI s _ h) ha).2 hal pre post e

/-! ## Step relations -/

/-- `Trace R s as t`: from `s`, the actions `as` taken one after another by `R` lead to `t` -/
inductive Trace (R : σ → α → σ → Prop) : σ → List α → σ → Prop where
  | nil (s : σ) : Trace R s [] s
  | cons {s t u : σ} {a : α} {as : List α} : R s a t → Trace R t as u → Trace R s (a :: as) u

theorem trace_append {R : σ → α → σ → Prop} {s u : σ} {as bs : List α} :
    Trace R s (as ++ bs) u ↔ ∃ t, Trace R s as t ∧ Trace R t bs u := by
  induction as generalizing s with
  | nil =>
    refine ⟨fun h => ⟨s, .nil s, h⟩, ?_⟩
    rintro ⟨t, ht, h⟩
    cases ht
    exact h
  | cons a as ih =>
    refine ⟨?_, ?_⟩
    · intro h
      cases h with
      | cons h1 h2 =>
        obtain ⟨t, ha, hb⟩ := ih.1 h2
        exact ⟨t, .cons h1 ha, hb⟩
    · rintro ⟨t, ha, hb⟩
      cases ha with
      | cons h1 h2 => exact .cons h1 (ih.2 ⟨t, h2, hb⟩)

theorem trace_of_steps {R : σ → α → σ → Prop} {f : σ → α → Option σ} (hf : ∀ s a t, f s a = some t → R s a t) {s t : σ}
    {as : List α} (h : as.foldlM f s = some t) : Trace R s as t := by
  induction as generalizing s with
  | nil =>
    obtain rfl := Option.some.inj h
    exact .nil s
  | cons a as ih =>
    rw [List.foldlM_cons] at h
    obtain ⟨u, hu, h⟩ := Option.bind_eq_some_iff.1 h
    exact .cons (hf s a u hu) (ih h)

theorem trace_inv {R : σ → α → σ → Prop} {I : σ → Prop} (hstep : ∀ s a t, I s → R s a t → I t) {s t : σ}
    {as : List α} (h : Trace R s as t) (hs : I s) : I t := by
  induction h with
  | nil => exact hs
  | cons h1 _ ih => exact ih (hstep _ _ _ hs h1)

/-- an invariant of the state and of what `f` sees of the actions so far -/
theorem trace_observed {β : Type*} {R : σ → α → σ → Prop} {f : α → Option β} {I : List β → σ → Prop}
    (hstep : ∀ obs s a t, I obs s → R s a t → I (obs ++ (f a).toList) t) {s t : σ} {as : List α}
    (h : Trace R s as t) (hs : I [] s) : I (as.filterMap f) t := by
  have hall : ∀ obs, I obs s → I (obs ++ as.filterMap f) t := by
    clear hs
    induction h with
    | nil =>
      intro obs hs
      rwa [List.filterMap_nil, List.append_nil]
    | @cons s t u a as h1 _ ih =>
      intro obs hs
      have hu := ih _ (hstep _ _ _ _ hs h1)
      cases hf : f a with
      | none =>
        rw [hf, Option.toList_none, List.append_nil] at hu
        rwa [List.filterMap_cons_none hf]
      | some b =>
        rw [hf, Option.toList_some, List.append_assoc] at hu
        rwa [List.filterMap_cons_some hf]
  exact hall [] hs

/-- a trace all of whose steps meet `P` is one of the steps that do -/
theorem trace_along {R : σ → α → σ → Prop} {P : σ → α → Prop} {s t : σ} {as : List α} (h : Trace R s as t)
    (hP : ∀ pre a post, as = pre ++ a :: post → ∀ u, Trace R s pre u → P u a) :
    Trace (fun s a t => R s a t ∧ P s a) s as t := by
  induction h with
  | nil s => exact .nil s
  | @cons s t u a as h1 _ ih =>
    refine .cons ⟨h1, hP [] a as rfl s (.nil s)⟩ (ih ?_)
    intro pre b post e v hv
    exact hP (a :: pre) b post (by rw [e]; rfl) v (.cons h1 hv)

theorem trace_det {R : σ → α → σ → Prop} (hR : ∀ s a t u, R s a t → R s a u → t = u) {s t u : σ} {as : List α}
    (ht : Trace R s as t) (hu : Trace R s as u) : t = u := by
  induction ht with
  | nil => cases hu; rfl
  | cons h1 _ ih =>
    cases hu with
    | cons h2 h3 =>
      obtain rfl := hR _ _ _ _ h1 h2
      exact ih h3

theorem trace_total_iff {R : σ → α → σ → Prop} (hR : ∀ s a t u, R s a t → R s a u → t = u) (s : σ) (as : List α) :
    (∃ t, Trace R s as t) ↔ ∀ pre a post, as = pre ++ a :: post → ∀ t, Trace R s pre t → ∃ u, R t a u := by
  refine ⟨?_, ?_⟩
  · rintro ⟨u, h⟩ pre a post rfl t ht
    obtain ⟨t', ht', h⟩ := trace_append.1 h
    obtain rfl := trace_det hR ht ht'
    cases h with
    | cons h1 _ => exact ⟨_, h1⟩
  · intro h
    induction as generalizing s with
    | nil => exact ⟨s, .nil s⟩
    | cons a as ih =>
      obtain ⟨u, hu⟩ := h [] a as rfl s (.nil s)
      obtain ⟨t, ht⟩ := ih u fun pre b post e v hv => h (a :: pre) b post (by rw [e]; rfl) v (.cons hu hv)
      exact ⟨t, .cons hu ht⟩

/-- a simulation of steps is a simulation of traces -/
theorem trace_sim {τ : Type*} {R : σ → α → σ → Prop} {Q : τ → α → τ → Prop} {S : σ → τ → Prop}
    (hsim : ∀ s a s' t, S s t → R s a s' → ∃ t', Q t a t' ∧ S s' t') {s s' : σ} {t : τ} {as : List α}
    (h : Trace R s as s') (hst : S s t) : ∃ t', Trace Q t as t' ∧ S s' t' := by
  induction h generalizing t with
  | nil s => exact ⟨t, .nil t, hst⟩
  | cons h1 _ ih =>
    obtain ⟨u, hq, hu⟩ := hsim _ _ _ _ hst h1
    obtain ⟨t', ht, hr⟩ := ih hu
    exact ⟨t', .cons hq ht, hr⟩

end NuStars.Run
