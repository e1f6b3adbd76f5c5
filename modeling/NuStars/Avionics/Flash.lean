/-
The write buffer: `loop()` fills it, `writeFlash` flushes it (avionics.ino).

Every packing pass moves `wbPos` by a packet, also while `writeSignal` is set and the copy is skipped. The 28th pass
since the last flush sets the signal (28 · 70 = 1960 = WRITE_BUFFER_SIZE - PACKET_SIZE), and a flush copies `wbPos + 1`
bytes. So how far `wbPos` and the copies run depends on how many passes fall between the signal and the flush.

- `step_log`: what a step does to the buffer and the log file, in three cases;
- `copy_fits_iff`: the copy of a flush fits into the buffers iff exactly 28 passes completed since the last one;
- `in_bounds_iff`: everything stays inside the buffers iff a pass completes only when fewer than 29 did since the last
  flush, and a flush comes only when exactly 28 did;
- `copy_overruns`: 29 passes before a flush, the copy is 2031 bytes long.
-/
import NuStars.Avionics.Flight

namespace NuStars.Avionics

open NuStars.Run

/-! ## Passes and flushes -/

/-- the action completes a packing pass: it goes on to the end of the block without stopping in a sweep loop -/
def Completes (s : St) : Act → Prop
  | .loop r =>
    match s.loopAt with
    | .top => s.radioLock = false ∧ branch s.lastRaven s.deployed r ≠ some .up
    | .sweep d i _ => d.cond (d.next i) = false
    | .delay5 => False
  | _ => False

/-- the action is a flush -/
def Flushes (s : St) : Act → Prop
  | .writeFlash _ _ => s.flashAt = .yielded ∧ s.writeSignal = true
  | _ => False

theorem Flushes.step_eq {s : St} {opened : Bool} {past : ℕ → UInt8} (h : Flushes s (.writeFlash opened past))
    (single : ℚ → UInt32) : step single s (.writeFlash opened past) = flush s opened past := by
  simp [step, writeFlash, h.1, h.2]

/-- equal as far as the write buffer and the log go -/
structure SameLog (s t : St) : Prop where
  writeBuffer : t.writeBuffer = s.writeBuffer
  wbPos : t.wbPos = s.wbPos
  writeSignal : t.writeSignal = s.writeSignal
  recorded : t.recorded = s.recorded
  file : t.file = s.file
  flushes : t.flushes = s.flushes
  passes : t.passes = s.passes

/-- what a step does to the write buffer and the log -/
inductive LogMoves (s : St) (a : Act) : St → Prop where
  | quiet (t : St) (hsame : SameLog s t) (hc : ¬ Completes s a) (hf : ¬ Flushes s a) : LogMoves s a t
  | pass (u : St) (raven : UInt8) (hsame : SameLog s u) (hc : Completes s a) (hf : ¬ Flushes s a) :
      LogMoves s a (finishPass u raven)
  | flush (opened : Bool) (past : ℕ → UInt8) (ha : a = .writeFlash opened past) (hf : Flushes s a)
      (hc : ¬ Completes s a) : LogMoves s a (flush s opened past)

theorem step_log (single : ℚ → UInt32) (s : St) (a : Act) : LogMoves s a (step single s a) := by
  have hm := step_moves single s a
  generalize step single s a = t at hm ⊢
  cases hm with
  | locked r htop hlock => exact .quiet _ ⟨rfl, rfl, rfl, rfl, rfl, rfl, rfl⟩ (by simp [Completes, htop, hlock]) nofun
  | pass r htop hlock hbr =>
    exact .pass (packFields single s r) _ ⟨rfl, rfl, rfl, rfl, rfl, rfl, rfl⟩
      (by simp [Completes, htop, hlock, hbr]) nofun
  | sweepStart r htop hlock hbr =>
    exact .quiet _ ⟨rfl, rfl, rfl, rfl, rfl, rfl, rfl⟩ (by simp [Completes, htop, hbr]) nofun
  | sweepSkip r htop hlock hbr =>
    exact .pass (setDeployed (packFields single s r)) _ ⟨rfl, rfl, rfl, rfl, rfl, rfl, rfl⟩
      (by simp [Completes, htop, hlock, hbr]) nofun
  | sweepOn r d i raven hat hcond =>
    exact .quiet _ ⟨rfl, rfl, rfl, rfl, rfl, rfl, rfl⟩ (by simp [Completes, hat, hcond]) nofun
  | sweepEnd r d i raven hat hcond =>
    exact .pass (setDeployed s) _ ⟨rfl, rfl, rfl, rfl, rfl, rfl, rfl⟩ (by simp [Completes, hat, hcond]) nofun
  | again r hat => exact .quiet _ ⟨rfl, rfl, rfl, rfl, rfl, rfl, rfl⟩ (by simp [Completes, hat]) nofun
  | flashOn opened past f hno => exact .quiet _ ⟨rfl, rfl, rfl, rfl, rfl, rfl, rfl⟩ nofun hno
  | flush opened past hat hsig => exact .flush opened past rfl ⟨hat, hsig⟩ nofun
  | send hat hlock => exact .quiet _ ⟨rfl, rfl, rfl, rfl, rfl, rfl, rfl⟩ nofun nofun
  | unlock b hat => exact .quiet _ ⟨rfl, rfl, rfl, rfl, rfl, rfl, rfl⟩ nofun nofun
  | radioOn p hno => exact .quiet _ ⟨rfl, rfl, rfl, rfl, rfl, rfl, rfl⟩ nofun nofun

/-! ## Bounds -/

/-- the fill position counts the passes, and the signal is set from the 28th on -/
structure Fill (s : St) : Prop where
  pos : s.wbPos = packetSize * s.passes
  signal : s.writeSignal = true ↔ 28 ≤ s.passes

theorem SameLog.fill {s t : St} (h : SameLog s t) (hf : Fill s) : Fill t := by
  refine ⟨?_, ?_⟩
  · rw [h.wbPos, h.passes]
    exact hf.pos
  · rw [h.writeSignal, h.passes]
    exact hf.signal

theorem finishPass_fill {s : St} (h : Fill s) (raven : UInt8) : Fill (finishPass s raven) := by
  refine ⟨?_, ?_⟩
  · rw [finishPass_wbPos, finishPass_passes, h.pos, Nat.mul_succ]
  · show (s.writeSignal || decide ((writeBufferSize : ℤ) - (s.wbPos + packetSize : ℕ) ≤ packetSize)) = true ↔
      28 ≤ s.passes + 1
    rw [Bool.or_eq_true, decide_eq_true_iff, h.signal, h.pos]
    unfold writeBufferSize packetSize
    omega

theorem init_fill : Fill init := ⟨rfl, by simp [init]⟩

theorem step_fill (single : ℚ → UInt32) (s : St) (a : Act) (h : Fill s) : Fill (step single s a) := by
  have hm := step_log single s a
  generalize step single s a = t at hm ⊢
  cases hm with
  | quiet t hsame hc hf => exact hsame.fill h
  | pass u raven hsame hc hf => exact finishPass_fill (hsame.fill h) raven
  | flush opened past ha hf hc => exact ⟨rfl, by simp [flush]⟩

/-- no access runs over the end of `writeBuffer` or `writeBufferCopy` -/
structure InBounds (s : St) : Prop where
  pos : s.wbPos ≤ writeBufferSize
  copies : ∀ e ∈ s.recorded, e.1 + packetSize ≤ writeBufferSize
  flushes : ∀ n ∈ s.flushes, n ≤ writeBufferSize

theorem SameLog.in_bounds {s t : St} (h : SameLog s t) (hb : InBounds s) : InBounds t := by
  refine ⟨?_, ?_, ?_⟩
  · rw [h.wbPos]
    exact hb.pos
  · rw [h.recorded]
    exact hb.copies
  · rw [h.flushes]
    exact hb.flushes

theorem finishPass_in_bounds {s : St} (h : Fill s) (hb : InBounds s) (raven : UInt8) :
    InBounds (finishPass s raven) ↔ s.passes < 29 := by
  have hroom : s.wbPos + packetSize ≤ writeBufferSize ↔ s.passes < 29 := by
    rw [h.pos]
    unfold writeBufferSize packetSize
    omega
  refine ⟨?_, ?_⟩
  · intro hin
    exact hroom.1 hin.pos
  · intro hlt
    refine ⟨hroom.2 hlt, ?_, hb.flushes⟩
    -- a copy is made only below the signal, and there the packet fits as the new `wbPos` does
    intro e he
    by_cases hsig : s.writeSignal = true
    · rw [finishPass_recorded_pending hsig] at he
      exact hb.copies e he
    · rw [finishPass_recorded hsig, List.mem_append, List.mem_singleton] at he
      rcases he with he | rfl
      · exact hb.copies e he
      · exact hroom.2 hlt

/-- **When the copy of a flush fits**: right after the 28th pass -/
theorem copy_fits_iff {s : St} (h : Fill s) (hsig : s.writeSignal = true) :
    s.wbPos + 1 ≤ writeBufferSize ↔ s.passes = 28 := by
  have hpasses : 28 ≤ s.passes := h.signal.1 hsig
  rw [h.pos]
  unfold writeBufferSize packetSize
  omega

theorem flush_in_bounds {s : St} (h : Fill s) (hb : InBounds s) (hsig : s.writeSignal = true) (opened : Bool)
    (past : ℕ → UInt8) : InBounds (flush s opened past) ↔ s.passes = 28 := by
  have hcopy := copy_fits_iff h hsig
  refine ⟨?_, ?_⟩
  · intro hin
    exact hcopy.1 (hin.flushes _ (List.mem_append_right s.flushes List.mem_cons_self))
  · intro heq
    refine ⟨Nat.zero_le _, hb.copies, ?_⟩
    intro n hn
    rw [flush_flushes, List.mem_append, List.mem_singleton] at hn
    rcases hn with hn | rfl
    · exact hb.flushes n hn
    · exact hcopy.2 heq

/-- at most one pass completes after the signal, and then no flush does -/
def Timely (s : St) (a : Act) : Prop := (Completes s a → s.passes < 29) ∧ (Flushes s a → s.passes = 28)

theorem step_in_bounds (single : ℚ → UInt32) (s : St) (a : Act) (h : Fill s) (hb : InBounds s) :
    InBounds (step single s a) ↔ Timely s a := by
  have hm := step_log single s a
  generalize step single s a = t at hm ⊢
  cases hm with
  | quiet t hsame hc hf =>
    exact iff_of_true (hsame.in_bounds hb) ⟨fun hc' => absurd hc' hc, fun hf' => absurd hf' hf⟩
  | pass u raven hsame hc hf =>
    rw [finishPass_in_bounds (hsame.fill h) (hsame.in_bounds hb), hsame.passes]
    exact ⟨fun hlt => ⟨fun _ => hlt, fun hf' => absurd hf' hf⟩, fun ht => ht.1 hc⟩
  | flush opened past ha hf hc =>
    have hsig : s.writeSignal = true := by
      rw [ha] at hf
      exact hf.2
    rw [flush_in_bounds h hb hsig]
    exact ⟨fun heq => ⟨fun hc' => absurd hc' hc, fun _ => heq⟩, fun ht => ht.2 hf⟩

/-- **Every state of a run is in bounds iff every pass and every flush is timely.** -/
theorem in_bounds_iff (single : ℚ → UInt32) (as : List Act) :
    (∀ pre post, as = pre ++ post → InBounds (run (step single) init pre)) ↔ Along (step single) Timely init as :=
  run_iff_along (step_fill single) (step_in_bounds single) init as init_fill ⟨by decide, nofun, nofun⟩

/-- the copy of a flush stays inside `writeBuffer` and `writeBufferCopy` -/
def CopyFits (s : St) (a : Act) : Prop := Flushes s a → s.wbPos + 1 ≤ writeBufferSize

/-- an iteration of `loop()` with one pass -/
def iteration : List Act := [.loop (padReadings 1 allHigh), .loop (padReadings 1 allHigh)]

def flashTurn : Act := .writeFlash true fun _ => 0

/-- n passes while `writeFlash` is in its `delay(10)`, then its next flush -/
def passesThenFlush (n : ℕ) : List Act :=
  [flashTurn, flashTurn] ++ (List.replicate n iteration).flatten ++ [flashTurn, flashTurn, flashTurn]

/-- between two iterations on the pad, with `writeFlash` in its `delay(10)` and n passes since the start -/
structure OnPad (s : St) (n : ℕ) : Prop where
  top : s.loopAt = .top
  lock : s.radioLock = false
  raven : s.lastRaven = 0
  flash : s.flashAt = .delayed
  flushes : s.flushes = []
  passes : s.passes = n

/-- an unlocked iteration that samples no signal -/
theorem run_quiet (single : ℚ → UInt32) {s : St} {r : Readings} (htop : s.loopAt = .top) (hlock : s.radioLock = false)
    (hlast : s.lastRaven = 0) (hraven : ravenByte r = 0) :
    run (step single) s [.loop r, .loop r] = { finishPass (packFields single s r) 0 with loopAt := .top } := by
  have hbr : branch s.lastRaven s.deployed r = none := by simp [branch, hlast, hraven]
  have hpass : step single s (.loop r) = finishPass (packFields single s r) 0 := by
    simp [step, loop, htop, hlock, hbr, hraven]
  rw [run_cons, hpass]
  rfl

theorem iteration_on_pad (single : ℚ → UInt32) {s : St} {n : ℕ} (h : OnPad s n) :
    OnPad (run (step single) s iteration) (n + 1) := by
  have hraven : ravenByte (padReadings 1 allHigh) = 0 := by decide
  unfold iteration
  rw [run_quiet single h.top h.lock h.raven hraven]
  exact ⟨rfl, h.lock, rfl, h.flash, h.flushes, congrArg (· + 1) h.passes⟩

theorem iterations_on_pad (single : ℚ → UInt32) {s : St} {m : ℕ} (h : OnPad s m) (n : ℕ) :
    OnPad (run (step single) s (List.replicate n iteration).flatten) (m + n) := by
  induction n generalizing s m with
  | zero => exact h
  | succ n ih =>
    rw [List.replicate_succ, List.flatten_cons, run_append]
    have hn := ih (iteration_on_pad single h)
    rwa [Nat.add_assoc, Nat.add_comm 1] at hn

/-- before the turns of `writeFlash` at the end -/
theorem passes_on_pad (single : ℚ → UInt32) (n : ℕ) :
    OnPad (run (step single) init ([flashTurn, flashTurn] ++ (List.replicate n iteration).flatten)) n ∧
      Fill (run (step single) init ([flashTurn, flashTurn] ++ (List.replicate n iteration).flatten)) := by
  have hpad : OnPad (run (step single) init [flashTurn, flashTurn]) 0 := ⟨rfl, rfl, rfl, rfl, rfl, rfl⟩
  have hpad := iterations_on_pad single hpad n
  rw [← run_append, Nat.zero_add] at hpad
  exact ⟨hpad, run_inv (step_fill single) init _ init_fill⟩

/-- from 28 passes on, the flush comes and copies 70 bytes for each pass, and one more -/
theorem passesThenFlush_flushes (single : ℚ → UInt32) (n : ℕ) (hn : 28 ≤ n) :
    (run (step single) init (passesThenFlush n)).flushes = [packetSize * n + 1] ∧
      (run (step single) init (passesThenFlush n)).passes = 0 := by
  obtain ⟨hpad, hfill⟩ := passes_on_pad single n
  rw [passesThenFlush, run_append]
  generalize run (step single) init ([flashTurn, flashTurn] ++ (List.replicate n iteration).flatten) = s at hpad hfill ⊢
  have hsig : s.writeSignal = true := hfill.signal.2 (by rw [hpad.passes]; exact hn)
  simp [flashTurn, step, writeFlash, hpad.flash, hsig, flush, hpad.flushes, hfill.pos, hpad.passes]

/-- **29 passes before a flush**, and the copy is 2031 bytes long. -/
theorem copy_overruns :
    (run (step padSingle) init (passesThenFlush 29)).flushes = [2031] ∧
      ¬ InBounds (run (step padSingle) init (passesThenFlush 29)) := by
  have h : (run (step padSingle) init (passesThenFlush 29)).flushes = [2031] :=
    (passesThenFlush_flushes padSingle 29 (by decide)).1
  refine ⟨h, ?_⟩
  intro hin
  have hle : 2031 ≤ writeBufferSize := hin.flushes 2031 (by rw [h]; exact List.mem_cons_self)
  exact absurd hle (by decide)

end NuStars.Avionics
