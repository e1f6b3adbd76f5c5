/-
Deployment as a one-shot (avionics.ino): the change test `raven != lastRaven && !deployed` in `loop()`.

A sweep loop is under way or done exactly when some sampled raven byte was not 0 (`Sampled`): until then `lastRaven` is
0 (`Latch.before`), so the change test lets the first such byte through. From there on no pass reaches the sweep code
again (`Fired`), and once `deployed` is set the servo stands still (`Settled`).

- `iteration_deploys`: one unlocked iteration;
- `fires_once`: every run.
-/
import NuStars.Avionics.Deployment

namespace NuStars.Avionics

open NuStars.Run

/-! ## The sampled bytes -/

theorem ravenByte_of_branch {lastRaven : UInt8} {deployed : Bool} {r : Readings} {d : Sweep}
    (h : branch lastRaven deployed r = some d) : ravenByte r ≠ lastRaven := by
  intro heq
  simp [branch, heq] at h

theorem ravenByte_ne_zero (r : Readings) : ravenByte r ≠ 0 ↔ ∃ p, r.digitalRead p = .LOW := by
  refine ⟨?_, ?_⟩
  · intro hne
    by_contra hno
    refine hne (ravenByte_zero ?_ ?_)
    · rintro (h | h)
      · exact hno ⟨_, h⟩
      · exact hno ⟨_, h⟩
    · rintro (h | h)
      · exact hno ⟨_, h⟩
      · exact hno ⟨_, h⟩
  · intro hlow
    have hbr : branch 0 false r ≠ none := by
      intro h
      rcases low_pin hlow with hB | hA
      · exact (high_of_branch h).1 hB
      · exact (high_of_branch h).2 hA
    obtain ⟨d, hd⟩ := Option.ne_none_iff_exists'.1 hbr
    exact ravenByte_of_branch hd

/-! ## The sweep code is reached once -/

/-- `loop()` has reached the sweep code -/
def Fired (s : St) : Prop := sweeping s.loopAt = true ∨ s.deployed = true

/-- `Fired` says whether a byte other than 0 was sampled -/
def Sampled (s : St) : Prop := Fired s ↔ ∃ b ∈ s.ravens, b ≠ 0

/-- the step takes `loop()` from the top of an iteration into the sweep code -/
def EntersSweep (s : St) : Act → Prop
  | .loop r => s.loopAt = .top ∧ s.radioLock = false ∧ branch s.lastRaven s.deployed r ≠ none
  | _ => False

theorem init_sampled : Sampled init := iff_of_false (by simp [Fired, init, sweeping]) (by simp [init])

theorem sampled_of_eq {s t : St} (h : Sampled s) (hfired : Fired t ↔ Fired s) (hravens : t.ravens = s.ravens) :
    Sampled t := by
  unfold Sampled
  rw [hfired, hravens]
  exact h

/-- a pass that reaches the sweep code has sampled a byte other than 0 -/
theorem sampled_of_branch {s t : St} {r : Readings} {d : Sweep} (hl : Latch s)
    (hbr : branch s.lastRaven s.deployed r = some d) (hfired : Fired t)
    (hravens : t.ravens = s.ravens ++ [ravenByte r]) : Sampled t := by
  refine iff_of_true hfired ⟨ravenByte r, by simp [hravens], ?_⟩
  rw [← hl.before (deployed_of_branch hbr)]
  exact ravenByte_of_branch hbr

theorem step_sampled (single : ℚ → UInt32) (s : St) (a : Act) (hl : Latch s) (h : Sampled s) :
    Sampled (step single s a) := by
  have hm := step_moves single s a
  generalize step single s a = t at hm ⊢
  cases hm with
  | locked r htop hlock => exact sampled_of_eq h (by simp [Fired, htop, sweeping]) rfl
  | pass r htop hlock hbr =>
    have hfired : Fired (finishPass (packFields single s r) (ravenByte r)) ↔ Fired s := by
      simp [Fired, htop, sweeping, finishPass, packFields]
    unfold Sampled
    rw [hfired, show (finishPass (packFields single s r) (ravenByte r)).ravens = s.ravens ++ [ravenByte r] from rfl]
    refine h.trans ⟨?_, ?_⟩
    · rintro ⟨b, hb, hne⟩
      exact ⟨b, List.mem_append_left _ hb, hne⟩
    · rintro ⟨b, hb, hne⟩
      rcases List.mem_append.1 hb with hb | hb
      · exact ⟨b, hb, hne⟩
      · rw [List.mem_singleton] at hb
        by_cases hd : s.deployed = true
        · exact h.1 (Or.inr hd)
        · -- nothing is deployed and no loop was chosen: the byte is 0
          have hd : s.deployed = false := by simpa using hd
          rw [hl.branch_eq hd] at hbr
          rcases high_of_branch hbr with ⟨hB, hA⟩
          exact absurd (hb.trans (ravenByte_zero hB hA)) hne
  | sweepStart r htop hlock hbr => exact sampled_of_branch hl hbr (Or.inl rfl) rfl
  | sweepSkip r htop hlock hbr => exact sampled_of_branch hl hbr (Or.inr rfl) rfl
  | sweepOn r d i raven hat hcond =>
    exact sampled_of_eq h (iff_of_true (Or.inl rfl) (Or.inl (by rw [hat]; rfl))) rfl
  | sweepEnd r d i raven hat hcond =>
    exact sampled_of_eq h (iff_of_true (Or.inr rfl) (Or.inl (by rw [hat]; rfl))) rfl
  | again r hat => exact sampled_of_eq h (by simp [Fired, hat, sweeping]) rfl
  | flashOn opened past f hno => exact sampled_of_eq h Iff.rfl rfl
  | flush opened past hat hsig => exact sampled_of_eq h Iff.rfl rfl
  | send hat hlock => exact sampled_of_eq h Iff.rfl rfl
  | unlock b hat => exact sampled_of_eq h Iff.rfl rfl
  | radioOn p hno => exact sampled_of_eq h Iff.rfl rfl

/-- what a reachable state satisfies -/
structure OneShot (s : St) : Prop where
  latch : Latch s
  sampled : Sampled s

theorem run_oneShot (single : ℚ → UInt32) (as : List Act) : OneShot (run (step single) init as) :=
  run_inv (I := OneShot) (fun s a h => ⟨step_latch single s a h.latch, step_sampled single s a h.latch h.sampled⟩)
    init as ⟨init_latch, init_sampled⟩

theorem enters_fires (single : ℚ → UInt32) (s : St) (a : Act) (h : EntersSweep s a) : Fired (step single s a) := by
  have hm := step_moves single s a
  generalize step single s a = t at hm ⊢
  cases hm with
  | locked r htop hlock =>
    rw [h.2.1] at hlock
    cases hlock
  | pass r htop hlock hbr => exact absurd hbr h.2.2
  | sweepStart r htop hlock hbr => exact Or.inl rfl
  | sweepSkip r htop hlock hbr => exact Or.inr rfl
  | sweepOn r d i raven hat hcond => exact Or.inl rfl
  | sweepEnd r d i raven hat hcond => exact Or.inr rfl
  | again r hat =>
    rw [h.1] at hat
    cases hat
  | flashOn opened past f hno => exact absurd h id
  | flush opened past hat hsig => exact absurd h id
  | send hat hlock => exact absurd h id
  | unlock b hat => exact absurd h id
  | radioOn p hno => exact absurd h id

theorem step_fired (single : ℚ → UInt32) (s : St) (a : Act) (h : Fired s) : Fired (step single s a) := by
  by_cases htop : s.loopAt = .top
  · have hd : s.deployed = true := by
      rcases h with hsw | hd
      · rw [htop] at hsw
        cases hsw
      · exact hd
    have hm := step_moves single s a
    generalize step single s a = t at hm ⊢
    cases hm with
    | sweepStart r htop hlock hbr => exact Or.inl rfl
    | sweepOn r d i raven hat hcond => exact Or.inl rfl
    | sweepSkip r htop hlock hbr => exact Or.inr rfl
    | sweepEnd r d i raven hat hcond => exact Or.inr rfl
    | _ => exact Or.inr hd
  · exact (inside_step single s a htop).2.1 h

theorem not_enters_of_fired {s : St} (h : Fired s) (a : Act) : ¬ EntersSweep s a := by
  intro he
  cases a with
  | loop r =>
    obtain ⟨d, hd⟩ := Option.ne_none_iff_exists'.1 he.2.2
    rcases h with hsw | hdep
    · rw [he.1] at hsw
      cases hsw
    · rw [deployed_of_branch hd] at hdep
      cases hdep
  | writeFlash opened past => exact he
  | writeRadio => exact he

/-! ## The servo -/

/-- deployed, outside the sweep loops, with `angles` the angles commanded so far -/
structure Settled (angles : List ℤ) (s : St) : Prop where
  deployed : s.deployed = true
  out : sweeping s.loopAt = false
  servo : s.servo = angles

theorem Latch.settled {s : St} (h : Latch s) (hd : s.deployed = true) : Settled s.servo s := by
  refine ⟨hd, ?_, rfl⟩
  cases hat : s.loopAt with
  | top => rfl
  | sweep d i raven =>
    have hno := (h.during d i raven hat).1
    rw [hd] at hno
    cases hno
  | delay5 => rfl

theorem step_settled (single : ℚ → UInt32) {angles : List ℤ} (s : St) (a : Act) (h : Settled angles s) :
    Settled angles (step single s a) := by
  have hm := step_moves single s a
  generalize step single s a = t at hm ⊢
  cases hm with
  | locked r htop hlock => exact ⟨h.deployed, rfl, h.servo⟩
  | pass r htop hlock hbr => exact ⟨h.deployed, rfl, h.servo⟩
  | sweepStart r htop hlock hbr =>
    rw [h.deployed] at hbr
    cases deployed_of_branch hbr
  | sweepSkip r htop hlock hbr => exact ⟨rfl, rfl, h.servo⟩
  | sweepOn r d i raven hat hcond =>
    have hout := h.out
    rw [hat] at hout
    cases hout
  | sweepEnd r d i raven hat hcond => exact ⟨rfl, rfl, h.servo⟩
  | again r hat => exact ⟨h.deployed, rfl, h.servo⟩
  | flashOn opened past f hno => exact ⟨h.deployed, h.out, h.servo⟩
  | flush opened past hat hsig => exact ⟨h.deployed, h.out, h.servo⟩
  | send hat hlock => exact ⟨h.deployed, h.out, h.servo⟩
  | unlock b hat => exact ⟨h.deployed, h.out, h.servo⟩
  | radioOn p hno => exact ⟨h.deployed, h.out, h.servo⟩

/-! ## Runs -/

theorem Sampled.deployed_iff {s : St} (h : Sampled s) (hout : sweeping s.loopAt = false) :
    s.deployed = true ↔ ∃ b ∈ s.ravens, b ≠ 0 := by
  have hfired : Fired s ↔ s.deployed = true := by simp [Fired, hout]
  exact hfired.symm.trans h

/-- an unlocked iteration samples one byte -/
theorem iteration_ravens (single : ℚ → UInt32) {s : St} {r : Readings} {rest : List Act} (hl : Latch s)
    (hit : Iteration single s r rest) (hlock : s.radioLock = false) :
    (run (step single) s (.loop r :: rest)).ravens = s.ravens ++ [ravenByte r] :=
  run_inv_along (I := fun t => t.ravens = s.ravens ++ [ravenByte r])
    (fun t a h hin => (inside_step single t a hin).1.trans h) _ rest hit.inside
    (start_unlocked single hl r hit.start hlock).1

/-- **An unlocked iteration deploys** exactly when some pin is LOW, unless deployment is done already. -/
theorem iteration_deploys (single : ℚ → UInt32) (as rest : List Act) (r : Readings)
    (hit : Iteration single (run (step single) init as) r rest)
    (hlock : (run (step single) init as).radioLock = false) :
    (run (step single) init (as ++ .loop r :: rest)).deployed = true ↔
      (run (step single) init as).deployed = true ∨ ∃ p, r.digitalRead p = .LOW := by
  have hs := run_oneShot single as
  have ht := run_oneShot single (as ++ .loop r :: rest)
  rw [run_append] at ht ⊢
  rw [ht.sampled.deployed_iff (by rw [hit.finish]; rfl), iteration_ravens single hs.latch hit hlock,
    hs.sampled.deployed_iff (by rw [hit.start]; rfl), ← ravenByte_ne_zero]
  simp [or_and_right, exists_or]

/-- **Deployment fires at most once and no signal is hidden.** In every state s of a run, over any schedule:
- while nothing is deployed `lastRaven` is 0;
- outside the sweep loops `deployed` is set exactly when some byte sampled so far is not 0, so an unlocked iteration
  sets it exactly when it samples a LOW pin, unless it is set already;
- once set, it stays set, and no further angle is commanded;
- the run reached the sweep code at most once. -/
theorem fires_once (single : ℚ → UInt32) (as : List Act) :
    let s := run (step single) init as
    (s.deployed = false → s.lastRaven = 0) ∧
      (sweeping s.loopAt = false → (s.deployed = true ↔ ∃ b ∈ s.ravens, b ≠ 0)) ∧
      (∀ r rest, Iteration single s r rest → s.radioLock = false →
        (run (step single) s (.loop r :: rest)).ravens = s.ravens ++ [ravenByte r] ∧
          ((run (step single) s (.loop r :: rest)).deployed = true ↔
            s.deployed = true ∨ ∃ p, r.digitalRead p = .LOW)) ∧
      (s.deployed = true → ∀ more, (run (step single) s more).deployed = true ∧
        (run (step single) s more).servo = s.servo) ∧
      ∀ pre a mid b post, as = pre ++ a :: mid ++ b :: post → EntersSweep (run (step single) init pre) a →
        ¬ EntersSweep (run (step single) init (pre ++ a :: mid)) b := by
  intro s
  have hs : OneShot s := run_oneShot single as
  refine ⟨hs.latch.before, hs.sampled.deployed_iff, ?_, ?_, ?_⟩
  · intro r rest hit hlock
    refine ⟨iteration_ravens single hs.latch hit hlock, ?_⟩
    have hdep := iteration_deploys single as rest r hit hlock
    rwa [run_append] at hdep
  · intro hd more
    have hend := run_inv (step_settled single) s more (hs.latch.settled hd)
    exact ⟨hend.deployed, hend.servo⟩
  · intro pre a mid b post _ he
    rw [run_append, run_cons]
    exact not_enters_of_fired (run_inv (step_fired single) _ mid (enters_fires single _ a he)) b

end NuStars.Avionics
