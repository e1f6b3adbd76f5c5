/-
Deployment: sampling the Raven pins, the latch `deployed`, and the servo (avionics.ino).

While nothing is deployed `lastRaven` is 0, so the change test hides no signal: the first pass that samples a LOW pin
goes through one of the sweep loops and latches `deployed`. A B pin chooses the loop that runs from 25 to 74; the A pins
alone choose `for (int i = 25; i >= 75; i--)`, whose body never runs.

As everywhere in this model, a run speaks of the real memory up to its first flush that copies out of bounds, if it has
one (Flight.lean); `lastRaven` and `deployed` lie behind `writeBufferCopy` like the rest.

- `swept_iff`: in every state of a run `deployed` implies a complete sweep iff no pass that could deploy sees an A pin
  LOW and no B pin;
- `unswept`: R0A alone deploys, and the servo never moves;
- `iteration_sampled`: an iteration samples the pins, and acts on them, exactly when it starts without `radioLock`;
- `iteration_missed`: an iteration during a transmission.
-/
import NuStars.Avionics.Flight

namespace NuStars.Avionics

open NuStars.Run

/-! ## The pins -/

def BLow (r : Readings) : Prop := r.digitalRead .R0B = .LOW ∨ r.digitalRead .R1B = .LOW

def ALow (r : Readings) : Prop := r.digitalRead .R0A = .LOW ∨ r.digitalRead .R1A = .LOW

instance (r : Readings) : Decidable (BLow r) := by unfold BLow; infer_instance

instance (r : Readings) : Decidable (ALow r) := by unfold ALow; infer_instance

theorem deployed_of_branch {lastRaven : UInt8} {deployed : Bool} {r : Readings} {d : Sweep}
    (h : branch lastRaven deployed r = some d) : deployed = false := by
  cases deployed with
  | false => rfl
  | true => simp [branch] at h

/-- before the deployment, any LOW pin chooses a loop -/
theorem branch_zero (r : Readings) :
    branch 0 false r = if BLow r then some .up else if ALow r then some .down else none := by
  have h1 : (1 : UInt8) <<< 1 = 2 := rfl
  have h2 : (1 : UInt8) <<< 2 = 4 := rfl
  have h3 : (1 : UInt8) <<< 3 = 8 := rfl
  cases h0A : r.digitalRead .R0A <;> cases h0B : r.digitalRead .R0B <;> cases h1A : r.digitalRead .R1A <;>
    cases h1B : r.digitalRead .R1B <;>
    simp [branch, ravenByte, val, BLow, ALow, h0A, h0B, h1A, h1B, h1, h2, h3]

theorem high_of_branch {r : Readings} (h : branch 0 false r = none) : ¬ BLow r ∧ ¬ ALow r := by
  rw [branch_zero] at h
  by_cases hB : BLow r
  · rw [if_pos hB] at h
    cases h
  · by_cases hA : ALow r
    · rw [if_neg hB, if_pos hA] at h
      cases h
    · exact ⟨hB, hA⟩

theorem low_of_branch_up {r : Readings} (h : branch 0 false r = some .up) : BLow r := by
  by_contra hB
  rw [branch_zero, if_neg hB] at h
  split at h <;> cases h

theorem low_of_branch_down {r : Readings} (h : branch 0 false r = some .down) : ¬ BLow r ∧ ALow r := by
  rw [branch_zero] at h
  by_cases hB : BLow r
  · rw [if_pos hB] at h
    cases h
  · by_cases hA : ALow r
    · exact ⟨hB, hA⟩
    · rw [if_neg hB, if_neg hA] at h
      cases h

theorem ravenByte_zero {r : Readings} (hB : ¬ BLow r) (hA : ¬ ALow r) : ravenByte r = 0 := by
  simp only [BLow, ALow, not_or] at hB hA
  simp [ravenByte, val, hB.1, hB.2, hA.1, hA.2]

theorem low_pin {r : Readings} (h : ∃ p, r.digitalRead p = .LOW) : BLow r ∨ ALow r := by
  rcases h with ⟨p, hp⟩
  cases p with
  | R0A => exact Or.inr (Or.inl hp)
  | R0B => exact Or.inl (Or.inl hp)
  | R1A => exact Or.inr (Or.inr hp)
  | R1B => exact Or.inl (Or.inr hp)

/-! ## The latch -/

/-- the first n angles of the first sweep loop -/
def angles (n : ℕ) : List ℤ := (List.range n).map fun k : ℕ => 25 + (k : ℤ)

theorem angles_succ (n : ℕ) : angles (n + 1) = angles n ++ [25 + (n : ℤ)] := by
  simp [angles, List.range_succ]

/-- `loop()` has commanded the whole sweep from 25 up to 75 -/
def Swept (s : St) : Prop := ∃ before after, s.servo = setupServo ++ before ++ angles 50 ++ after

theorem not_swept {s : St} (h : s.servo = setupServo) : ¬ Swept s := by
  rintro ⟨before, after, hs⟩
  have hlen := congrArg List.length (h.symm.trans hs)
  simp [setupServo, angles] at hlen

structure Latch (s : St) : Prop where
  before : s.deployed = false → s.lastRaven = 0
  still : s.deployed = false → sweeping s.loopAt = false → s.servo = setupServo
  during : ∀ d i raven, s.loopAt = .sweep d i raven →
    s.deployed = false ∧ d = .up ∧ ∃ n : ℕ, n < 50 ∧ i = 25 + n ∧ s.servo = setupServo ++ angles (n + 1)

theorem Latch.branch_eq {s : St} (h : Latch s) (hd : s.deployed = false) (r : Readings) :
    branch s.lastRaven s.deployed r = branch 0 false r := by
  rw [h.before hd, hd]

theorem init_latch : Latch init := ⟨fun _ => rfl, fun _ _ => rfl, nofun⟩

/-- a move that leaves the latch and the servo alone and does not enter or leave a sweep loop -/
theorem latch_of_eq {s t : St} (h : Latch s) (hdep : t.deployed = s.deployed) (hlast : t.lastRaven = s.lastRaven)
    (hservo : t.servo = s.servo)
    (hat : t.loopAt = s.loopAt ∨ sweeping s.loopAt = false ∧ sweeping t.loopAt = false) : Latch t := by
  refine ⟨?_, ?_, ?_⟩
  · intro hd
    rw [hlast]
    exact h.before (hdep ▸ hd)
  · intro hd hno
    rw [hservo]
    rcases hat with hat | hat
    · exact h.still (hdep ▸ hd) (hat ▸ hno)
    · exact h.still (hdep ▸ hd) hat.1
  · intro d i raven ht
    rw [hdep, hservo]
    rcases hat with hat | hat
    · exact h.during d i raven (hat ▸ ht)
    · rw [ht] at hat
      exact absurd hat.2 (by simp [sweeping])

theorem step_latch (single : ℚ → UInt32) (s : St) (a : Act) (h : Latch s) : Latch (step single s a) := by
  have hm := step_moves single s a
  generalize step single s a = t at hm ⊢
  cases hm with
  | locked r htop hlock => exact latch_of_eq h rfl rfl rfl (Or.inr ⟨by rw [htop]; rfl, rfl⟩)
  | pass r htop hlock hbr =>
    refine ⟨?_, fun hd _ => h.still hd (by rw [htop]; rfl), nofun⟩
    intro hd
    -- no sweep loop was chosen, so no pin was LOW
    rw [h.branch_eq hd] at hbr
    rcases high_of_branch hbr with ⟨hB, hA⟩
    exact ravenByte_zero hB hA
  | sweepStart r htop hlock hbr =>
    have hd := deployed_of_branch hbr
    have hservo : s.servo = setupServo := h.still hd (by rw [htop]; rfl)
    refine ⟨fun _ => h.before hd, nofun, ?_⟩
    intro d i raven ht
    cases ht
    refine ⟨hd, rfl, 0, by decide, by simp, ?_⟩
    show s.servo ++ [25] = _
    rw [hservo]
    rfl
  | sweepSkip r htop hlock hbr => exact ⟨nofun, nofun, nofun⟩
  | sweepOn r d i raven hat hcond =>
    rcases h.during d i raven hat with ⟨hd, rfl, n, hn, rfl, hservo⟩
    have hlt : (25 : ℤ) + n + 1 < 75 := of_decide_eq_true hcond
    refine ⟨fun _ => h.before hd, nofun, ?_⟩
    intro d' i' raven' ht
    cases ht
    refine ⟨hd, rfl, n + 1, by omega, by simp [Sweep.next, add_assoc], ?_⟩
    show s.servo ++ [25 + (n : ℤ) + 1] = _
    rw [hservo, angles_succ (n + 1), List.append_assoc]
    simp [add_assoc]
  | sweepEnd r d i raven hat hcond => exact ⟨nofun, nofun, nofun⟩
  | again r hat => exact latch_of_eq h rfl rfl rfl (Or.inr ⟨by rw [hat]; rfl, rfl⟩)
  | flashOn opened past f hno => exact latch_of_eq h rfl rfl rfl (Or.inl rfl)
  | flush opened past hat hsig => exact latch_of_eq h rfl rfl rfl (Or.inl rfl)
  | send hat hlock => exact latch_of_eq h rfl rfl rfl (Or.inl rfl)
  | unlock b hat => exact latch_of_eq h rfl rfl rfl (Or.inl rfl)
  | radioOn p hno => exact latch_of_eq h rfl rfl rfl (Or.inl rfl)

/-! ## The sweep -/

def DeployedSwept (s : St) : Prop := s.deployed = true → Swept s

theorem deployedSwept_of_not {s : St} (h : s.deployed = false) : DeployedSwept s := by
  intro hd
  rw [h] at hd
  cases hd

/-- a pass that could deploy does not see an A pin LOW without a B pin -/
def NoAOnly (s : St) : Act → Prop
  | .loop r => s.loopAt = .top → s.radioLock = false → s.deployed = false → ALow r → BLow r
  | _ => True

theorem step_swept (single : ℚ → UInt32) (s : St) (a : Act) (h : Latch s) (hs : DeployedSwept s) :
    DeployedSwept (step single s a) ↔ NoAOnly s a := by
  have hm := step_moves single s a
  generalize step single s a = t at hm ⊢
  cases hm with
  | locked r htop hlock => exact iff_of_true hs fun _ hno => by rw [hlock] at hno; cases hno
  | pass r htop hlock hbr =>
    refine iff_of_true hs fun _ _ hd hA => ?_
    rw [h.branch_eq hd] at hbr
    exact absurd hA (high_of_branch hbr).2
  | sweepStart r htop hlock hbr =>
    have hd := deployed_of_branch hbr
    rw [h.branch_eq hd] at hbr
    exact iff_of_true (deployedSwept_of_not hd) fun _ _ _ _ => low_of_branch_up hbr
  | sweepSkip r htop hlock hbr =>
    have hd := deployed_of_branch hbr
    have hservo : s.servo = setupServo := h.still hd (by rw [htop]; rfl)
    refine iff_of_false (fun hswept => not_swept hservo (hswept rfl)) fun hno => ?_
    rw [h.branch_eq hd] at hbr
    rcases low_of_branch_down hbr with ⟨hB, hA⟩
    exact hB (hno htop hlock hd hA)
  | sweepOn r d i raven hat hcond =>
    have hd := (h.during d i raven hat).1
    exact iff_of_true (deployedSwept_of_not hd) fun htop => by rw [hat] at htop; cases htop
  | sweepEnd r d i raven hat hcond =>
    rcases h.during d i raven hat with ⟨hd, rfl, n, hn, rfl, hservo⟩
    have hge : ¬ (25 : ℤ) + n + 1 < 75 := of_decide_eq_false hcond
    obtain rfl : n = 49 := by omega
    refine iff_of_true (fun _ => ⟨[], [], ?_⟩) fun htop => by rw [hat] at htop; cases htop
    show s.servo = _
    rw [hservo, List.append_nil, List.append_nil]
  | again r hat => exact iff_of_true hs fun htop => by rw [hat] at htop; cases htop
  | flashOn opened past f hno => exact iff_of_true hs trivial
  | flush opened past hat hsig => exact iff_of_true hs trivial
  | send hat hlock => exact iff_of_true hs trivial
  | unlock b hat => exact iff_of_true hs trivial
  | radioOn p hno => exact iff_of_true hs trivial

/-- **Deployed means swept**, in every state of a run, iff no deploying pass sees an A pin LOW and no B pin. -/
theorem swept_iff (single : ℚ → UInt32) (as : List Act) :
    (∀ pre post, as = pre ++ post →
        (run (step single) init pre).deployed = true → Swept (run (step single) init pre)) ↔
      Along (step single) NoAOnly init as :=
  run_iff_along (step_latch single) (step_swept single) init as init_latch nofun

/-- one iteration in which only R0A is LOW -/
theorem unswept :
    let s := run (step padSingle) init (List.replicate 2 (.loop (padReadings 1 (onlyLow .R0A))))
    s.loopAt = .top ∧ s.deployed = true ∧ ¬ Swept s := by
  refine ⟨by decide +kernel, by decide +kernel, not_swept ?_⟩
  decide +kernel

/-! ## Iterations of loop() -/

/-- an iteration that starts in s with the readings r; `rest` are the actions of all tasks until it ends -/
structure Iteration (single : ℚ → UInt32) (s : St) (r : Readings) (rest : List Act) : Prop where
  start : s.loopAt = .top
  inside : Along (step single) (fun t _ => t.loopAt ≠ .top) (step single s (.loop r)) rest
  finish : (run (step single) s (.loop r :: rest)).loopAt = .top

/-- what a step inside an iteration keeps -/
theorem inside_step (single : ℚ → UInt32) (s : St) (a : Act) (hin : s.loopAt ≠ .top) :
    (step single s a).ravens = s.ravens ∧
      (sweeping s.loopAt = true ∨ s.deployed = true →
        sweeping (step single s a).loopAt = true ∨ (step single s a).deployed = true) ∧
      (sweeping s.loopAt = false →
        sweeping (step single s a).loopAt = false ∧ (step single s a).deployed = s.deployed) := by
  have hm := step_moves single s a
  generalize step single s a = t at hm ⊢
  cases hm with
  | locked r htop hlock => exact absurd htop hin
  | pass r htop hlock hbr => exact absurd htop hin
  | sweepStart r htop hlock hbr => exact absurd htop hin
  | sweepSkip r htop hlock hbr => exact absurd htop hin
  | sweepOn r d i raven hat hcond =>
    exact ⟨rfl, fun _ => Or.inl rfl, fun hno => absurd hno (by rw [hat]; simp [sweeping])⟩
  | sweepEnd r d i raven hat hcond =>
    exact ⟨rfl, fun _ => Or.inr rfl, fun hno => absurd hno (by rw [hat]; simp [sweeping])⟩
  | again r hat =>
    refine ⟨rfl, fun hor => Or.inr ?_, fun _ => ⟨rfl, rfl⟩⟩
    rcases hor with hsw | hd
    · rw [hat] at hsw
      cases hsw
    · exact hd
  | flashOn opened past f hno => exact ⟨rfl, id, fun hno => ⟨hno, rfl⟩⟩
  | flush opened past hat hsig => exact ⟨rfl, id, fun hno => ⟨hno, rfl⟩⟩
  | send hat hlock => exact ⟨rfl, id, fun hno => ⟨hno, rfl⟩⟩
  | unlock b hat => exact ⟨rfl, id, fun hno => ⟨hno, rfl⟩⟩
  | radioOn p hno => exact ⟨rfl, id, fun hno => ⟨hno, rfl⟩⟩

/-- the first step of an unlocked iteration samples the pins and acts on them -/
theorem start_unlocked (single : ℚ → UInt32) {s : St} (h : Latch s) (r : Readings) (htop : s.loopAt = .top)
    (hlock : s.radioLock = false) :
    (step single s (.loop r)).ravens = s.ravens ++ [ravenByte r] ∧
      (s.deployed = false → (∃ p, r.digitalRead p = .LOW) →
        sweeping (step single s (.loop r)).loopAt = true ∨ (step single s (.loop r)).deployed = true) := by
  have hm := start_moves single r htop hlock
  generalize step single s (.loop r) = t at hm ⊢
  cases hm with
  | pass hbr =>
    refine ⟨rfl, ?_⟩
    intro hd hlow
    rw [h.branch_eq hd] at hbr
    rcases low_pin hlow with hB | hA
    · exact absurd hB (high_of_branch hbr).1
    · exact absurd hA (high_of_branch hbr).2
  | sweepStart hbr => exact ⟨rfl, fun _ _ => Or.inl rfl⟩
  | sweepSkip hbr => exact ⟨rfl, fun _ _ => Or.inr rfl⟩

/-- **Sampling.** In a run, an iteration that starts without `radioLock` samples the pins once, and one that starts
with it not at all. The first kind deploys if nothing is deployed yet and some pin is LOW; the second never does. -/
theorem iteration_sampled (single : ℚ → UInt32) (as rest : List Act) (r : Readings)
    (hit : Iteration single (run (step single) init as) r rest) :
    ((run (step single) init as).radioLock = false →
        (run (step single) init (as ++ .loop r :: rest)).ravens =
            (run (step single) init as).ravens ++ [ravenByte r] ∧
          ((run (step single) init as).deployed = false → (∃ p, r.digitalRead p = .LOW) →
            (run (step single) init (as ++ .loop r :: rest)).deployed = true)) ∧
      ((run (step single) init as).radioLock = true →
        (run (step single) init (as ++ .loop r :: rest)).ravens = (run (step single) init as).ravens ∧
          (run (step single) init (as ++ .loop r :: rest)).deployed = (run (step single) init as).deployed) := by
  have hlatch : Latch (run (step single) init as) := run_inv (step_latch single) init as init_latch
  rw [run_append]
  generalize run (step single) init as = s at hit hlatch ⊢
  have hfinish := hit.finish
  rw [run_cons] at hfinish ⊢
  refine ⟨?_, ?_⟩
  · intro hlock
    rcases start_unlocked single hlatch r hit.start hlock with ⟨hrav, hact⟩
    have hkeep := run_inv_along
      (I := fun t => t.ravens = s.ravens ++ [ravenByte r] ∧
        (s.deployed = false → (∃ p, r.digitalRead p = .LOW) → sweeping t.loopAt = true ∨ t.deployed = true))
      (fun t a h hin => ⟨(inside_step single t a hin).1.trans h.1,
        fun hd hlow => (inside_step single t a hin).2.1 (h.2 hd hlow)⟩) _ rest hit.inside ⟨hrav, hact⟩
    refine ⟨hkeep.1, ?_⟩
    intro hd hlow
    rcases hkeep.2 hd hlow with hsw | hdep
    · rw [hfinish] at hsw
      cases hsw
    · exact hdep
  · intro hlock
    have hstart : step single s (.loop r) = { s with loopAt := .delay5 } := by
      simp [step, loop, hit.start, hlock]
    have hkeep := run_inv_along
      (I := fun t => t.ravens = s.ravens ∧ sweeping t.loopAt = false ∧ t.deployed = s.deployed)
      (fun t a h hin => by
        rcases inside_step single t a hin with ⟨h1, -, h2⟩
        exact ⟨h1.trans h.1, (h2 h.2.1).1, (h2 h.2.1).2.trans h.2.2⟩) _ rest hit.inside
      (by rw [hstart]; exact ⟨rfl, rfl, rfl⟩)
    exact ⟨hkeep.1, hkeep.2.2⟩

/-- R0A is LOW and the radio idle in the first iteration -/
theorem iteration_sampled_first :
    (run (step padSingle) init [.loop (padReadings 1 (onlyLow .R0A)), .loop (padReadings 1 (onlyLow .R0A))]).deployed =
      true := by
  have hit : Iteration padSingle (run (step padSingle) init []) (padReadings 1 (onlyLow .R0A))
      [.loop (padReadings 1 (onlyLow .R0A))] := by
    refine ⟨rfl, ?_, by decide +kernel⟩
    rw [along_cons]
    exact ⟨by decide +kernel, along_nil _ _ _⟩
  exact ((iteration_sampled padSingle [] _ _ hit).1 rfl).2 rfl ⟨.R0A, rfl⟩

/-- `writeRadio` has just taken the lock; R0B is LOW for a whole iteration, which samples nothing -/
theorem iteration_missed :
    let s := run (step padSingle) init [.writeRadio]
    let r := padReadings 1 (onlyLow .R0B)
    Iteration padSingle s r [.loop r] ∧ s.deployed = false ∧
      (run (step padSingle) s [.loop r, .loop r]).deployed = false ∧
        (run (step padSingle) s [.loop r, .loop r]).ravens = [] := by
  refine ⟨⟨by decide +kernel, ?_, by decide +kernel⟩, by decide +kernel, by decide +kernel, by decide +kernel⟩
  rw [along_cons]
  exact ⟨by decide +kernel, along_nil _ _ _⟩

end NuStars.Avionics
