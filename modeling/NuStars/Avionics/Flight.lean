/-
The flight computer: `loop()`, `writeFlash()` and `writeRadio()` under the cooperative scheduler (avionics.ino).

A task gives up control only at `yield()`, at `delay()` and inside `radio->transmit`. One `step` runs one task from the
point where it is suspended to its next such point, so the order of the tasks is the order of the actions, and every
interleaving is a list of actions. A `delay` and the `yield` right behind it are one suspension point: nothing happens
between them.

- `loop`: at the top of an iteration it tests `radioLock`; without the lock it packs a packet (Packing.lean), samples
  the Raven pins, may go through one of two sweep loops with a `delay(20)` after each angle, then packs the raven byte
  and the checksum and updates the write buffer.
- `writeFlash`: yields, flushes the write buffer if it is signalled, and delays.
- `writeRadio`: takes the lock, copies the packet and transmits the copy, then clears the lock and delays.

`wbPos` is a natural number. A copy that runs over the end of an array reaches memory the model does not have: the bytes
read there are given with the action (`past`), and the bytes written there change no variable of the model. In the real
memory they overwrite what lies behind `writeBufferCopy` (the source declares `wbPos`, `checksum` and `fn` behind it).
So from the first flush whose copy does not fit (`CopyFits` in Flash.lean) a run says nothing about the real memory.
Fields below `file` are recorded for the proofs; no task reads them.

- `step_moves`: what a step can do, the only place where the step function is unfolded;
- `run_packets`: in every reachable state the packer is consistent, and every packet that was packed is a whole one.
-/
import NuStars.Core.Run
import NuStars.Avionics.Packing

namespace NuStars.Avionics

open NuStars.Run

/-- `#define WRITE_BUFFER_SIZE (2048 / PACKET_SIZE) * PACKET_SIZE` -/
def writeBufferSize : ℕ := 2048 / packetSize * packetSize

/-! ## State -/

/-- the sweep loops `for (int i = 25; i < 75; i++)` and `for (int i = 25; i >= 75; i--)` -/
inductive Sweep where
  | up
  | down
deriving DecidableEq, Repr

def Sweep.cond : Sweep → ℤ → Bool
  | .up, i => i < 75
  | .down, i => i ≥ 75

def Sweep.next : Sweep → ℤ → ℤ
  | .up, i => i + 1
  | .down, i => i - 1

/-- where `loop()` is suspended -/
inductive LoopAt where
  /-- between two iterations -/
  | top
  /-- in the `delay(20)` after `servo.write(i)`, with its local `raven` -/
  | sweep (d : Sweep) (i : ℤ) (raven : UInt8)
  /-- in `delay(5)` -/
  | delay5
deriving DecidableEq, Repr

/-- where `writeFlash()` is suspended -/
inductive FlashAt where
  | enter
  /-- in its first `yield()` -/
  | yielded
  /-- in `delay(10)` -/
  | delayed
deriving DecidableEq, Repr

/-- where `writeRadio()` is suspended -/
inductive RadioAt where
  | enter
  | transmit (localBuffer : List UInt8)
  /-- in `delay(10)` -/
  | delayed
deriving DecidableEq, Repr

structure St where
  pk : Packer
  maxAcc : ℚ
  writeBuffer : List UInt8
  writeBufferCopy : List UInt8
  wbPos : ℕ
  radioLock : Bool
  writeSignal : Bool
  lastRaven : UInt8
  deployed : Bool
  loopAt : LoopAt
  flashAt : FlashAt
  radioAt : RadioAt
  /-- angles commanded with `servo.write` -/
  servo : List ℤ
  /-- contents of the log file -/
  file : List UInt8
  /-- contents of `localBuffer` at each copy -/
  sent : List (List UInt8)
  /-- contents of `packetBuffer` at the end of each packing pass -/
  packed : List (List UInt8)
  /-- raven bytes sampled -/
  ravens : List UInt8
  /-- copies into `writeBuffer`: (offset, packet) -/
  recorded : List (ℕ × List UInt8)
  /-- lengths copied by the flushes -/
  flushes : List ℕ
  /-- packing passes completed since the last flush -/
  passes : ℕ
deriving DecidableEq, Repr

inductive Act where
  /-- the readings count only when the action starts a pass -/
  | loop (r : Readings)
  /-- whether `fatfs.open` succeeds, and the memory behind `writeBuffer` -/
  | writeFlash (opened : Bool) (past : ℕ → UInt8)
  | writeRadio

/-- the packet buffer `setup` leaves -/
def initialBuffer : List UInt8 := tag ++ List.replicate 66 0

/-- the angles `setup` commands -/
def setupServo : List ℤ := [30, 29, 28, 27, 26, 25]

/-- the state after `setup` -/
def init : St where
  pk := ⟨initialBuffer, 0, 0, [0, 0, 0, 0]⟩
  maxAcc := 0
  writeBuffer := List.replicate writeBufferSize 0
  writeBufferCopy := List.replicate writeBufferSize 0
  wbPos := 0
  radioLock := false
  writeSignal := false
  lastRaven := 0
  deployed := false
  loopAt := .top
  flashAt := .enter
  radioAt := .enter
  servo := setupServo
  file := []
  sent := []
  packed := []
  ravens := []
  recorded := []
  flushes := []
  passes := 0

/-! ## loop -/

/-- `digitalRead(pin) == LOW` -/
def val (r : Readings) (p : RavenPin) : UInt8 := if r.digitalRead p = .LOW then 1 else 0

/-- `uint8_t raven` -/
def ravenByte (r : Readings) : UInt8 := val r .R0A ||| val r .R0B <<< 1 ||| val r .R1A <<< 2 ||| val r .R1B <<< 3

/-- the sweep loop chosen after sampling: the B pins choose the first, the A pins alone the second -/
def branch (lastRaven : UInt8) (deployed : Bool) (r : Readings) : Option Sweep :=
  if ravenByte r ≠ lastRaven ∧ !deployed then
    if val r .R1B ||| val r .R0B ≠ 0 then some .up
    else if val r .R1A ||| val r .R0A ≠ 0 then some .down
    else none
  else none

/-- `memcpy(buf + pos, src, …)`, as far as it stays inside `buf` -/
def memcpy (buf : List UInt8) (pos : ℕ) (src : List UInt8) : List UInt8 :=
  (buf.take pos ++ src ++ buf.drop (pos + src.length)).take buf.length

/-- from `lastRaven = raven` to the `delay(5)` -/
def finishPass (s : St) (raven : UInt8) : St :=
  let pk := s.pk.packTail raven
  let wbPos := s.wbPos + packetSize
  { s with
    lastRaven := raven
    pk := pk
    writeBuffer := if s.writeSignal then s.writeBuffer else memcpy s.writeBuffer s.wbPos pk.packetBuffer
    wbPos := wbPos
    writeSignal := s.writeSignal || (writeBufferSize : ℤ) - wbPos ≤ packetSize
    loopAt := .delay5
    packed := s.packed ++ [pk.packetBuffer]
    recorded := if s.writeSignal then s.recorded else s.recorded ++ [(s.wbPos, pk.packetBuffer)]
    passes := s.passes + 1 }

/-- the body of a sweep loop up to its `delay(20)` -/
def turn (s : St) (d : Sweep) (i : ℤ) (raven : UInt8) : St :=
  { s with servo := s.servo ++ [i], loopAt := .sweep d i raven }

/-- `deployed = true` -/
def setDeployed (s : St) : St := { s with deployed := true }

/-- a sweep loop from its test on, and what follows it -/
def sweepFrom (s : St) (d : Sweep) (i : ℤ) (raven : UInt8) : St :=
  if d.cond i then turn s d i raven else finishPass (setDeployed s) raven

/-- the packing block up to the sampling of the Raven pins -/
def packFields (single : ℚ → UInt32) (s : St) (r : Readings) : St :=
  let p := packSensors single s.pk s.maxAcc r
  { s with pk := p.1, maxAcc := p.2, ravens := s.ravens ++ [ravenByte r] }

def loop (single : ℚ → UInt32) (s : St) (r : Readings) : St :=
  match s.loopAt with
  | .top =>
    if s.radioLock then { s with loopAt := .delay5 }
    else
      match branch s.lastRaven s.deployed r with
      | some d => sweepFrom (packFields single s r) d 25 (ravenByte r)
      | none => finishPass (packFields single s r) (ravenByte r)
  | .sweep d i raven => sweepFrom s d (d.next i) raven
  | .delay5 => { s with loopAt := .top }

/-! ## writeFlash -/

/-- n bytes read from the start of `buf` -/
def readFrom (buf : List UInt8) (past : ℕ → UInt8) (n : ℕ) : List UInt8 :=
  buf.take n ++ (List.range (n - buf.length)).map past

/-- the body of `if (writeSignal)`; FILE_WRITE appends -/
def flush (s : St) (opened : Bool) (past : ℕ → UInt8) : St :=
  let cpyLen := s.wbPos + 1
  let copied := readFrom s.writeBuffer past cpyLen
  { s with
    writeBufferCopy := memcpy s.writeBufferCopy 0 copied
    wbPos := 0
    writeSignal := false
    flashAt := .delayed
    file := if opened then s.file ++ copied else s.file
    flushes := s.flushes ++ [cpyLen]
    passes := 0 }

def writeFlash (s : St) (opened : Bool) (past : ℕ → UInt8) : St :=
  match s.flashAt with
  | .enter => { s with flashAt := .yielded }
  | .yielded => if s.writeSignal then flush s opened past else { s with flashAt := .delayed }
  | .delayed => { s with flashAt := .enter }

/-! ## writeRadio -/

/-- taking the lock and the copy, up to the wait inside `radio->transmit` -/
def send (s : St) : St :=
  { s with
    radioLock := true
    radioAt := .transmit s.pk.packetBuffer
    sent := s.sent ++ [s.pk.packetBuffer] }

def writeRadio (s : St) : St :=
  match s.radioAt with
  | .enter => if s.radioLock then s else send s
  | .transmit _ => { s with radioLock := false, radioAt := .delayed }
  | .delayed => { s with radioAt := .enter }

def step (single : ℚ → UInt32) (s : St) : Act → St
  | .loop r => loop single s r
  | .writeFlash opened past => writeFlash s opened past
  | .writeRadio => writeRadio s

/-! ## A rocket on the pad -/

/-- all sensors at 0; ±200 are the ends of the range of the ADXL -/
def padReadings (millis : UInt32) (pins : RavenPin → Level) : Readings :=
  ⟨millis, fun _ => 0, fun _ => 0, fun _ _ => 0, 0, 0, 0, 0, 0, pins⟩

/-- the singles of -200 and 200, all that the ADXL reads on the pad -/
def padSingle (q : ℚ) : UInt32 := if q = -200 then 0xC3480000 else if q = 200 then 0x43480000 else 0

def onlyLow (p : RavenPin) : RavenPin → Level := fun q => if q = p then .LOW else .HIGH

def allHigh : RavenPin → Level := fun _ => .HIGH

/-! ## What a pass and a flush leave -/

section
variable {s : St}

theorem finishPass_wbPos (raven : UInt8) : (finishPass s raven).wbPos = s.wbPos + packetSize := rfl

theorem finishPass_passes (raven : UInt8) : (finishPass s raven).passes = s.passes + 1 := rfl

theorem finishPass_recorded_pending (hsig : s.writeSignal = true) (raven : UInt8) :
    (finishPass s raven).recorded = s.recorded := if_pos hsig

theorem finishPass_writeBuffer_pending (hsig : s.writeSignal = true) (raven : UInt8) :
    (finishPass s raven).writeBuffer = s.writeBuffer := if_pos hsig

theorem finishPass_recorded (hsig : ¬ s.writeSignal = true) (raven : UInt8) :
    (finishPass s raven).recorded = s.recorded ++ [(s.wbPos, (finishPass s raven).pk.packetBuffer)] := if_neg hsig

theorem finishPass_writeBuffer (hsig : ¬ s.writeSignal = true) (raven : UInt8) :
    (finishPass s raven).writeBuffer = memcpy s.writeBuffer s.wbPos (finishPass s raven).pk.packetBuffer := if_neg hsig

theorem flush_recorded (opened : Bool) (past : ℕ → UInt8) : (flush s opened past).recorded = s.recorded := rfl

theorem flush_flushes (opened : Bool) (past : ℕ → UInt8) :
    (flush s opened past).flushes = s.flushes ++ [s.wbPos + 1] := rfl

theorem flush_file (opened : Bool) (past : ℕ → UInt8) :
    (flush s opened past).file = if opened then s.file ++ readFrom s.writeBuffer past (s.wbPos + 1) else s.file := rfl

end

/-! ## What a step can do -/

inductive Moves (single : ℚ → UInt32) (s : St) : Act → St → Prop where
  | locked (r : Readings) (htop : s.loopAt = .top) (hlock : s.radioLock = true) :
      Moves single s (.loop r) { s with loopAt := .delay5 }
  | pass (r : Readings) (htop : s.loopAt = .top) (hlock : s.radioLock = false)
      (hbr : branch s.lastRaven s.deployed r = none) :
      Moves single s (.loop r) (finishPass (packFields single s r) (ravenByte r))
  | sweepStart (r : Readings) (htop : s.loopAt = .top) (hlock : s.radioLock = false)
      (hbr : branch s.lastRaven s.deployed r = some .up) :
      Moves single s (.loop r) (turn (packFields single s r) .up 25 (ravenByte r))
  /-- the second sweep loop never runs its body -/
  | sweepSkip (r : Readings) (htop : s.loopAt = .top) (hlock : s.radioLock = false)
      (hbr : branch s.lastRaven s.deployed r = some .down) :
      Moves single s (.loop r) (finishPass (setDeployed (packFields single s r)) (ravenByte r))
  | sweepOn (r : Readings) (d : Sweep) (i : ℤ) (raven : UInt8) (hat : s.loopAt = .sweep d i raven)
      (hcond : d.cond (d.next i) = true) : Moves single s (.loop r) (turn s d (d.next i) raven)
  | sweepEnd (r : Readings) (d : Sweep) (i : ℤ) (raven : UInt8) (hat : s.loopAt = .sweep d i raven)
      (hcond : d.cond (d.next i) = false) :
      Moves single s (.loop r) (finishPass (setDeployed s) raven)
  | again (r : Readings) (hat : s.loopAt = .delay5) : Moves single s (.loop r) { s with loopAt := .top }
  | flashOn (opened : Bool) (past : ℕ → UInt8) (f : FlashAt) (hno : ¬ (s.flashAt = .yielded ∧ s.writeSignal = true)) :
      Moves single s (.writeFlash opened past) { s with flashAt := f }
  | flush (opened : Bool) (past : ℕ → UInt8) (hat : s.flashAt = .yielded) (hsig : s.writeSignal = true) :
      Moves single s (.writeFlash opened past) (flush s opened past)
  | send (hat : s.radioAt = .enter) (hlock : s.radioLock = false) : Moves single s .writeRadio (send s)
  | unlock (b : List UInt8) (hat : s.radioAt = .transmit b) :
      Moves single s .writeRadio { s with radioLock := false, radioAt := .delayed }
  | radioOn (p : RadioAt) (hno : ¬ (s.radioAt = .enter ∧ s.radioLock = false)) :
      Moves single s .writeRadio { s with radioAt := p }

/-- **Every step is one of the moves.** -/
theorem step_moves (single : ℚ → UInt32) (s : St) (a : Act) : Moves single s a (step single s a) := by
  cases a with
  | loop r =>
    cases hat : s.loopAt with
    | top =>
      by_cases hlock : s.radioLock = true
      · have h : step single s (.loop r) = { s with loopAt := .delay5 } := by simp [step, loop, hat, hlock]
        rw [h]
        exact .locked r hat hlock
      · have hlock : s.radioLock = false := by simpa using hlock
        cases hbr : branch s.lastRaven s.deployed r with
        | none =>
          have h : step single s (.loop r) = finishPass (packFields single s r) (ravenByte r) := by
            simp [step, loop, hat, hlock, hbr]
          rw [h]
          exact .pass r hat hlock hbr
        | some d =>
          cases d with
          | up =>
            have h : step single s (.loop r) = turn (packFields single s r) .up 25 (ravenByte r) := by
              simp [step, loop, hat, hlock, hbr, sweepFrom, Sweep.cond]
            rw [h]
            exact .sweepStart r hat hlock hbr
          | down =>
            have h : step single s (.loop r) =
                finishPass (setDeployed (packFields single s r)) (ravenByte r) := by
              simp [step, loop, hat, hlock, hbr, sweepFrom, Sweep.cond]
            rw [h]
            exact .sweepSkip r hat hlock hbr
    | sweep d i raven =>
      have h : step single s (.loop r) = sweepFrom s d (d.next i) raven := by simp [step, loop, hat]
      rw [h, sweepFrom]
      by_cases hcond : d.cond (d.next i) = true
      · rw [if_pos hcond]
        exact .sweepOn r d i raven hat hcond
      · rw [if_neg hcond]
        exact .sweepEnd r d i raven hat (by simpa using hcond)
    | delay5 =>
      have h : step single s (.loop r) = { s with loopAt := .top } := by simp [step, loop, hat]
      rw [h]
      exact .again r hat
  | writeFlash opened past =>
    by_cases hfl : s.flashAt = .yielded ∧ s.writeSignal = true
    · have h : step single s (.writeFlash opened past) = Avionics.flush s opened past := by
        simp [step, writeFlash, hfl.1, hfl.2]
      rw [h]
      exact .flush opened past hfl.1 hfl.2
    · have h : ∃ f, step single s (.writeFlash opened past) = { s with flashAt := f } := by
        cases hat : s.flashAt with
        | enter => exact ⟨.yielded, by simp [step, writeFlash, hat]⟩
        | yielded =>
          have hsig : s.writeSignal = false := by simpa [hat] using hfl
          exact ⟨.delayed, by simp [step, writeFlash, hat, hsig]⟩
        | delayed => exact ⟨.enter, by simp [step, writeFlash, hat]⟩
      rcases h with ⟨f, h⟩
      rw [h]
      exact .flashOn opened past f hfl
  | writeRadio =>
    cases hat : s.radioAt with
    | enter =>
      by_cases hlock : s.radioLock = true
      · have h : step single s .writeRadio = { s with radioAt := s.radioAt } := by
          simp [step, writeRadio, hat, hlock]
        rw [h]
        exact .radioOn s.radioAt (by simp [hlock])
      · have hlock : s.radioLock = false := by simpa using hlock
        have h : step single s .writeRadio = Avionics.send s := by simp [step, writeRadio, hat, hlock]
        rw [h]
        exact .send hat hlock
    | transmit b =>
      have h : step single s .writeRadio = { s with radioLock := false, radioAt := .delayed } := by
        simp [step, writeRadio, hat]
      rw [h]
      exact .unlock b hat
    | delayed =>
      have h : step single s .writeRadio = { s with radioAt := .enter } := by simp [step, writeRadio, hat]
      rw [h]
      exact .radioOn .enter (by simp [hat])

/-- the moves that start an unlocked pass -/
inductive Starts (single : ℚ → UInt32) (s : St) (r : Readings) : St → Prop where
  | pass (hbr : branch s.lastRaven s.deployed r = none) :
      Starts single s r (finishPass (packFields single s r) (ravenByte r))
  | sweepStart (hbr : branch s.lastRaven s.deployed r = some .up) :
      Starts single s r (turn (packFields single s r) .up 25 (ravenByte r))
  | sweepSkip (hbr : branch s.lastRaven s.deployed r = some .down) :
      Starts single s r (finishPass (setDeployed (packFields single s r)) (ravenByte r))

theorem start_moves (single : ℚ → UInt32) {s : St} (r : Readings) (htop : s.loopAt = .top)
    (hlock : s.radioLock = false) : Starts single s r (step single s (.loop r)) := by
  have hm := step_moves single s (.loop r)
  generalize step single s (.loop r) = t at hm ⊢
  cases hm with
  | locked r htop' hlock' =>
    rw [hlock] at hlock'
    cases hlock'
  | pass r htop' hlock' hbr => exact .pass hbr
  | sweepStart r htop' hlock' hbr => exact .sweepStart hbr
  | sweepSkip r htop' hlock' hbr => exact .sweepSkip hbr
  | sweepOn r d i raven hat hcond =>
    rw [htop] at hat
    cases hat
  | sweepEnd r d i raven hat hcond =>
    rw [htop] at hat
    cases hat
  | again r hat =>
    rw [htop] at hat
    cases hat

/-! ## Packets -/

def sweeping : LoopAt → Bool
  | .sweep _ _ _ => true
  | _ => false

structure Packets (s : St) : Prop where
  size : s.pk.packetBuffer.length = packetSize
  head : s.pk.packetBuffer.take 4 = tag
  /-- a suspended sweep loop sits between the sensor fields and the raven byte -/
  filled : sweeping s.loopAt = true → ∃ ws, Filled s.pk ws
  packed : ∀ p ∈ s.packed, ∃ ws raven, ws.length = 16 ∧ p = encode ws raven

theorem init_packets : Packets init where
  size := rfl
  head := rfl
  filled h := absurd h (by decide)
  packed p hp := absurd hp List.not_mem_nil

theorem filled_size {p : Packer} {ws : List UInt32} (h : Filled p ws) : p.packetBuffer.length = packetSize := by
  rcases h.buffer with ⟨o, o', hbuf⟩
  rw [hbuf]
  simp [tag, h.count, packetSize]

theorem filled_head {p : Packer} {ws : List UInt32} (h : Filled p ws) : p.packetBuffer.take 4 = tag := by
  rcases h.buffer with ⟨o, o', hbuf⟩
  rw [hbuf, List.append_assoc, List.take_left' (by rfl : tag.length = 4)]

theorem finishPass_packets {s : St} {ws : List UInt32} (h : Filled s.pk ws)
    (hp : ∀ p ∈ s.packed, ∃ ws raven, ws.length = 16 ∧ p = encode ws raven) (raven : UInt8) :
    Packets (finishPass s raven) := by
  have hbuf : (finishPass s raven).pk.packetBuffer = encode ws raven := packTail_filled h raven
  refine ⟨?_, ?_, fun hsw => absurd hsw (by simp [finishPass, sweeping]), ?_⟩
  · rw [hbuf, encode_length ws raven h.count]
    rfl
  · rw [hbuf, encode, List.append_assoc, List.take_left' (by rfl : tag.length = 4)]
  · intro p hpm
    have hpm : p ∈ s.packed ++ [(finishPass s raven).pk.packetBuffer] := hpm
    rw [List.mem_append, List.mem_singleton, hbuf] at hpm
    rcases hpm with hpm | hpm
    · exact hp p hpm
    · exact ⟨ws, raven, h.count, hpm⟩

theorem step_packets (single : ℚ → UInt32) (s : St) (a : Act) (h : Packets s) : Packets (step single s a) := by
  have hfields : ∀ r, Filled (packFields single s r).pk (fieldWords single s.maxAcc r) := fun r =>
    packSensors_filled single s.pk s.maxAcc r h.size h.head
  have hm := step_moves single s a
  generalize step single s a = t at hm ⊢
  cases hm with
  | locked r htop hlock => exact ⟨h.size, h.head, nofun, h.packed⟩
  | pass r htop hlock hbr => exact finishPass_packets (hfields r) h.packed _
  | sweepStart r htop hlock hbr =>
    exact ⟨filled_size (hfields r), filled_head (hfields r), fun _ => ⟨_, hfields r⟩, h.packed⟩
  | sweepSkip r htop hlock hbr =>
    exact finishPass_packets (s := setDeployed (packFields single s r)) (hfields r) h.packed _
  | sweepOn r d i raven hat hcond =>
    exact ⟨h.size, h.head, fun _ => h.filled (by rw [hat]; rfl), h.packed⟩
  | sweepEnd r d i raven hat hcond =>
    rcases h.filled (by rw [hat]; rfl) with ⟨ws, hws⟩
    exact finishPass_packets (s := setDeployed s) hws h.packed _
  | again r hat => exact ⟨h.size, h.head, nofun, h.packed⟩
  | flashOn opened past f hno => exact ⟨h.size, h.head, h.filled, h.packed⟩
  | flush opened past hat hsig => exact ⟨h.size, h.head, h.filled, h.packed⟩
  | send hat hlock => exact ⟨h.size, h.head, h.filled, h.packed⟩
  | unlock b hat => exact ⟨h.size, h.head, h.filled, h.packed⟩
  | radioOn p hno => exact ⟨h.size, h.head, h.filled, h.packed⟩

/-- **Every packed packet is whole.** -/
theorem run_packets (single : ℚ → UInt32) (as : List Act) : Packets (run (step single) init as) :=
  run_inv (step_packets single) init as init_packets

end NuStars.Avionics
