/-
The log file `writeFlash` writes (avionics.ino), in runs in which every open succeeds.

The recorded packets fall into batches, one for each flush. A flush appends the 28 packets recorded since the one
before, and then stray bytes: one for the `+ 1` in `cpyLen`, and 70 for each pass that completed while the signal was
pending.

- `run_log`: the file is batch, stray bytes, batch, stray bytes, … over any number of flushes (`Log`);
- `log_exact_iff`: the file is the recorded packets after every flush iff there is no flush;
- `log_inexact`: the first flush of a run.
-/
import NuStars.Avionics.Flash

namespace NuStars.Avionics

open NuStars.Run

/-! ## Copies -/

theorem memcpy_length {buf src : List UInt8} {pos : ℕ} (h : pos + src.length ≤ buf.length) :
    (memcpy buf pos src).length = buf.length := by
  simp only [memcpy, List.length_take, List.length_append, List.length_drop]
  omega

theorem memcpy_take {buf src : List UInt8} {pos : ℕ} (h : pos + src.length ≤ buf.length) :
    (memcpy buf pos src).take (pos + src.length) = buf.take pos ++ src := by
  have hlen : (buf.take pos ++ src).length = pos + src.length := by
    rw [List.length_append, List.length_take, Nat.min_eq_left (by omega)]
  rw [memcpy, List.take_take, Nat.min_eq_left h, List.take_left' hlen]

theorem readFrom_length (buf : List UInt8) (past : ℕ → UInt8) (n : ℕ) : (readFrom buf past n).length = n := by
  simp only [readFrom, List.length_append, List.length_take, List.length_map, List.length_range]
  omega

theorem readFrom_take {buf : List UInt8} {m n : ℕ} (past : ℕ → UInt8) (hn : m ≤ n) (hbuf : m ≤ buf.length) :
    (readFrom buf past n).take m = buf.take m := by
  have hle : m ≤ (buf.take n).length := by
    rw [List.length_take]
    exact le_min hn hbuf
  rw [readFrom, List.take_append_of_le_length hle, List.take_take, Nat.min_eq_left hn]

/-! ## Batches -/

def packetBytes (l : List (ℕ × List UInt8)) : List UInt8 := (l.map Prod.snd).flatten

/-- the recorded packets, oldest first -/
def recordedBytes (s : St) : List UInt8 := packetBytes s.recorded

theorem packetBytes_append (l l' : List (ℕ × List UInt8)) :
    packetBytes (l ++ l') = packetBytes l ++ packetBytes l' := by
  simp [packetBytes]

/-- the packets recorded since the last flush stand at the start of `writeBuffer` -/
structure Held (s : St) (batch : List (ℕ × List UInt8)) : Prop where
  count : batch.length = min s.passes 28
  held : s.writeBuffer.take (packetSize * batch.length) = packetBytes batch
  size : s.writeBuffer.length = writeBufferSize

theorem init_held : Held init [] := ⟨rfl, rfl, List.length_replicate⟩

theorem Held.length {s : St} {batch : List (ℕ × List UInt8)} (h : Held s batch) :
    (packetBytes batch).length = packetSize * batch.length := by
  have hle : batch.length ≤ 28 := by
    rw [h.count]
    exact Nat.min_le_right _ _
  rw [← h.held, List.length_take, h.size, Nat.min_eq_left]
  exact (Nat.mul_le_mul_left packetSize hle).trans (by decide)

theorem SameLog.held {s t : St} {batch : List (ℕ × List UInt8)} (h : SameLog s t) (hh : Held s batch) :
    Held t batch := by
  refine ⟨?_, ?_, ?_⟩
  · rw [h.passes]
    exact hh.count
  · rw [h.writeBuffer]
    exact hh.held
  · rw [h.writeBuffer]
    exact hh.size

/-- a pass while the signal is pending records nothing -/
theorem finishPass_held_pending {s : St} {batch : List (ℕ × List UInt8)} (h : Held s batch) (hf : Fill s)
    (hsig : s.writeSignal = true) (raven : UInt8) :
    (finishPass s raven).recorded = s.recorded ∧ Held (finishPass s raven) batch := by
  have hpasses : 28 ≤ s.passes := hf.signal.1 hsig
  have hbuf := finishPass_writeBuffer_pending hsig raven
  refine ⟨finishPass_recorded_pending hsig raven, ?_, ?_, ?_⟩
  · rw [finishPass_passes, h.count, Nat.min_eq_right hpasses, Nat.min_eq_right (Nat.le_succ_of_le hpasses)]
  · rw [hbuf]
    exact h.held
  · rw [hbuf]
    exact h.size

/-- any other pass adds its packet to the batch -/
theorem finishPass_held {s : St} {batch : List (ℕ × List UInt8)} (h : Held s batch) (hf : Fill s)
    (hsig : s.writeSignal = false) (raven : UInt8) (hsize : (finishPass s raven).pk.packetBuffer.length = packetSize) :
    (finishPass s raven).recorded = s.recorded ++ [(s.wbPos, (finishPass s raven).pk.packetBuffer)] ∧
      Held (finishPass s raven) (batch ++ [(s.wbPos, (finishPass s raven).pk.packetBuffer)]) := by
  have hpasses : s.passes < 28 := by
    by_contra hge
    rw [hf.signal.2 (not_lt.1 hge)] at hsig
    cases hsig
  have hcount : batch.length = s.passes := by rw [h.count, Nat.min_eq_left hpasses.le]
  have hpos : s.wbPos = packetSize * batch.length := by rw [hcount, hf.pos]
  have hoff : ¬ s.writeSignal = true := by simp [hsig]
  have hrec := finishPass_recorded hoff raven
  have hbuf := finishPass_writeBuffer hoff raven
  generalize hp : (finishPass s raven).pk.packetBuffer = p at hsize hrec hbuf ⊢
  have hroom : s.wbPos + p.length ≤ s.writeBuffer.length := by
    rw [h.size, hsize, hf.pos]
    unfold writeBufferSize packetSize
    omega
  refine ⟨hrec, ?_, ?_, ?_⟩
  · rw [finishPass_passes, List.length_append, List.length_singleton, hcount,
      Nat.min_eq_left (Nat.succ_le_of_lt hpasses)]
  · have hlen : packetSize * (batch ++ [(s.wbPos, p)]).length = s.wbPos + p.length := by
      rw [List.length_append, List.length_singleton, Nat.mul_succ, hpos, hsize]
    rw [hbuf, hlen, memcpy_take hroom, hpos, h.held, packetBytes_append]
    simp [packetBytes]
  · rw [hbuf, memcpy_length hroom, h.size]

/-- a flush copies the batch and at least one stray byte, and starts the next batch, whatever becomes of the file -/
theorem flush_held {s : St} {batch : List (ℕ × List UInt8)} (h : Held s batch) (hf : Fill s)
    (hsig : s.writeSignal = true) (opened : Bool) (past : ℕ → UInt8) :
    batch.length = 28 ∧ Held (flush s opened past) [] ∧
      ∃ stray, stray.length = packetSize * (s.passes - 28) + 1 ∧
        readFrom s.writeBuffer past (s.wbPos + 1) = packetBytes batch ++ stray := by
  have hpasses : 28 ≤ s.passes := hf.signal.1 hsig
  have hcount : batch.length = 28 := by rw [h.count, Nat.min_eq_right hpasses]
  have hfull : packetSize * batch.length ≤ s.wbPos + 1 := by
    rw [hcount, hf.pos]
    exact Nat.le_succ_of_le (Nat.mul_le_mul_left packetSize hpasses)
  have hin : packetSize * batch.length ≤ s.writeBuffer.length := by
    rw [hcount, h.size]
    decide
  set copied := readFrom s.writeBuffer past (s.wbPos + 1) with hcopied
  have htake : copied.take (packetSize * batch.length) = packetBytes batch := by
    rw [hcopied, readFrom_take past hfull hin, h.held]
  refine ⟨hcount, ⟨rfl, rfl, h.size⟩, copied.drop (packetSize * batch.length), ?_, ?_⟩
  · rw [List.length_drop, hcopied, readFrom_length, hcount, hf.pos, Nat.mul_sub]
    unfold packetSize
    omega
  · rw [← htake, List.take_append_drop]

/-- what one flush wrote -/
structure Flushed where
  packets : List (ℕ × List UInt8)
  stray : List UInt8

def Flushed.bytes (f : Flushed) : List UInt8 := packetBytes f.packets ++ f.stray

/-- the state after the flushes `fs`, with the packets `batch` recorded since the last one -/
structure Log (s : St) (fs : List Flushed) (batch : List (ℕ × List UInt8)) : Prop where
  recorded : s.recorded = (fs.map Flushed.packets).flatten ++ batch
  file : s.file = (fs.map Flushed.bytes).flatten
  whole : ∀ f ∈ fs, f.packets.length = 28 ∧ f.stray ≠ []
  flushes : fs.length = s.flushes.length
  count : batch.length = min s.passes 28
  held : s.writeBuffer.take (packetSize * batch.length) = packetBytes batch
  size : s.writeBuffer.length = writeBufferSize

theorem init_log : Log init [] [] :=
  ⟨rfl, rfl, nofun, rfl, init_held.count, init_held.held, init_held.size⟩

theorem Log.toHeld {s : St} {fs : List Flushed} {batch : List (ℕ × List UInt8)} (h : Log s fs batch) :
    Held s batch := ⟨h.count, h.held, h.size⟩

theorem SameLog.log {s t : St} {fs : List Flushed} {batch : List (ℕ × List UInt8)} (h : SameLog s t)
    (hl : Log s fs batch) : Log t fs batch := by
  have hh := h.held hl.toHeld
  refine ⟨?_, ?_, hl.whole, ?_, hh.count, hh.held, hh.size⟩
  · rw [h.recorded]
    exact hl.recorded
  · rw [h.file]
    exact hl.file
  · rw [h.flushes]
    exact hl.flushes

theorem finishPass_log_pending {s : St} {fs : List Flushed} {batch : List (ℕ × List UInt8)} (hl : Log s fs batch)
    (hf : Fill s) (hsig : s.writeSignal = true) (raven : UInt8) : Log (finishPass s raven) fs batch := by
  rcases finishPass_held_pending hl.toHeld hf hsig raven with ⟨hrec, hh⟩
  exact ⟨hrec.trans hl.recorded, hl.file, hl.whole, hl.flushes, hh.count, hh.held, hh.size⟩

theorem finishPass_log {s : St} {fs : List Flushed} {batch : List (ℕ × List UInt8)} (hl : Log s fs batch)
    (hf : Fill s) (hsig : s.writeSignal = false) (raven : UInt8)
    (hsize : (finishPass s raven).pk.packetBuffer.length = packetSize) :
    Log (finishPass s raven) fs (batch ++ [(s.wbPos, (finishPass s raven).pk.packetBuffer)]) := by
  rcases finishPass_held hl.toHeld hf hsig raven hsize with ⟨hrec, hh⟩
  refine ⟨?_, hl.file, hl.whole, hl.flushes, hh.count, hh.held, hh.size⟩
  rw [hrec, hl.recorded, List.append_assoc]

/-- a flush that succeeds appends the batch and at least one stray byte -/
theorem flush_log {s : St} {fs : List Flushed} {batch : List (ℕ × List UInt8)} (hl : Log s fs batch) (hf : Fill s)
    (hsig : s.writeSignal = true) (past : ℕ → UInt8) :
    ∃ stray, stray.length = packetSize * (s.passes - 28) + 1 ∧ Log (flush s true past) (fs ++ [⟨batch, stray⟩]) [] := by
  rcases flush_held hl.toHeld hf hsig true past with ⟨hcount, hh, stray, hstray, hcopied⟩
  refine ⟨stray, hstray, ?_, ?_, ?_, ?_, hh.count, hh.held, hh.size⟩
  · rw [flush_recorded, hl.recorded]
    simp
  · rw [flush_file, if_pos rfl, hl.file, hcopied, List.map_append, List.flatten_append]
    simp [Flushed.bytes]
  · intro f hmem
    rw [List.mem_append, List.mem_singleton] at hmem
    rcases hmem with hmem | rfl
    · exact hl.whole f hmem
    · exact ⟨hcount, List.ne_nil_of_length_eq_add_one hstray⟩
  · rw [flush_flushes, List.length_append, List.length_append, hl.flushes]
    rfl

theorem step_logged (single : ℚ → UInt32) (s : St) (a : Act) (hp : Packets s) (hf : Fill s)
    (hl : ∃ fs batch, Log s fs batch) (hopen : ∀ opened past, a = .writeFlash opened past → opened = true) :
    ∃ fs batch, Log (step single s a) fs batch := by
  rcases hl with ⟨fs, batch, hl⟩
  have hp' := step_packets single s a hp
  have hm := step_log single s a
  generalize step single s a = t at hm hp' ⊢
  cases hm with
  | quiet t hsame hc hno => exact ⟨fs, batch, hsame.log hl⟩
  | pass u raven hsame hc hno =>
    by_cases hsig : u.writeSignal = true
    · exact ⟨fs, batch, finishPass_log_pending (hsame.log hl) (hsame.fill hf) hsig raven⟩
    · exact ⟨fs, _, finishPass_log (hsame.log hl) (hsame.fill hf) (by simpa using hsig) raven hp'.size⟩
  | flush opened past ha hfl hc =>
    rw [ha] at hfl
    rw [hopen opened past ha]
    rcases flush_log hl hf hfl.2 past with ⟨stray, -, hlog⟩
    exact ⟨_, _, hlog⟩

/-- **What the log holds**: the batches, each followed by stray bytes -/
theorem run_log (single : ℚ → UInt32) (as : List Act)
    (hopen : ∀ opened past, Act.writeFlash opened past ∈ as → opened = true) :
    ∃ fs batch, Log (run (step single) init as) fs batch := by
  have hall : Along (step single) (fun _ a => ∀ opened past, a = .writeFlash opened past → opened = true) init as := by
    intro pre a post has opened past ha
    exact hopen opened past (by rw [has, ← ha]; simp)
  have hinv := run_inv_along (I := fun s => Packets s ∧ Fill s ∧ ∃ fs batch, Log s fs batch)
    (fun s a h ha => ⟨step_packets single s a h.1, step_fill single s a h.2.1,
      step_logged single s a h.1 h.2.1 h.2.2 ha⟩) init as hall ⟨init_packets, init_fill, [], [], init_log⟩
  exact hinv.2.2

/-! ## Exactness -/

/-- stray bytes only lengthen the file -/
theorem packets_lt_bytes {fs : List Flushed} (h : ∀ f ∈ fs, f.packets.length = 28 ∧ f.stray ≠ []) :
    (packetBytes (fs.map Flushed.packets).flatten).length + fs.length ≤ (fs.map Flushed.bytes).flatten.length := by
  induction fs with
  | nil => simp [packetBytes]
  | cons f fs ih =>
    have hpos : 0 < f.stray.length := List.length_pos_iff.2 (h f List.mem_cons_self).2
    have hrest := ih fun g hg => h g (List.mem_cons_of_mem f hg)
    rw [List.map_cons, List.map_cons, List.flatten_cons, List.flatten_cons, packetBytes_append, Flushed.bytes]
    simp only [List.length_append, List.length_cons]
    omega

/-- right after a flush the file is longer than the recorded packets -/
theorem flush_inexact {s : St} (hl : ∃ fs batch, Log s fs batch) (hpasses : s.passes = 0) (hfl : s.flushes ≠ []) :
    s.file ≠ recordedBytes s := by
  rcases hl with ⟨fs, batch, hl⟩
  have hbatch : batch = [] := by
    have hcount := hl.count
    rw [hpasses] at hcount
    exact List.length_eq_zero_iff.1 hcount
  have hsome : 0 < fs.length := by
    rw [hl.flushes]
    exact List.length_pos_iff.2 hfl
  intro heq
  have hlen := congrArg List.length heq
  rw [recordedBytes, hl.file, hl.recorded, hbatch, List.append_nil] at hlen
  have hlt := packets_lt_bytes hl.whole
  omega

theorem flushes_step (single : ℚ → UInt32) {s : St} {a : Act} (hf : Flushes s a) :
    (step single s a).passes = 0 ∧ (step single s a).flushes ≠ [] := by
  have hm := step_log single s a
  generalize step single s a = t at hm ⊢
  cases hm with
  | quiet t hsame hc hno => exact absurd hf hno
  | pass u raven hsame hc hno => exact absurd hf hno
  | flush opened past ha hf' hc => exact ⟨rfl, by simp [flush]⟩

/-- **The log is exact iff nothing is ever flushed**, over runs in which every open succeeds. -/
theorem log_exact_iff (single : ℚ → UInt32) (as : List Act)
    (hopen : ∀ opened past, Act.writeFlash opened past ∈ as → opened = true) :
    (∀ pre a post, as = pre ++ a :: post → Flushes (run (step single) init pre) a →
        (run (step single) init (pre ++ [a])).file = recordedBytes (run (step single) init (pre ++ [a]))) ↔
      ∀ pre a post, as = pre ++ a :: post → ¬ Flushes (run (step single) init pre) a := by
  refine ⟨?_, ?_⟩
  · intro hexact pre a post has hf
    have hpre : ∀ opened past, Act.writeFlash opened past ∈ pre ++ [a] → opened = true := by
      intro opened past hm
      apply hopen opened past
      rw [has, List.append_cons]
      exact List.mem_append_left post hm
    have hlog := run_log single (pre ++ [a]) hpre
    have hfile := hexact pre a post has hf
    rw [run_snoc] at hlog hfile
    rcases flushes_step single hf with ⟨hpasses, hfl⟩
    exact flush_inexact hlog hpasses hfl hfile
  · intro hno pre a post has hf
    exact absurd hf (hno pre a post has)

theorem passesThenFlush_opens {n : ℕ} {opened : Bool} {past : ℕ → UInt8}
    (h : Act.writeFlash opened past ∈ passesThenFlush n) : opened = true := by
  have hturn : opened = true ∧ past = fun _ => 0 := by simpa [passesThenFlush, iteration, flashTurn] using h
  exact hturn.1

/-- 28 passes and the first flush: one flush happens, and the file is not exact behind it -/
theorem log_exact_iff_flushed :
    (run (step padSingle) init (passesThenFlush 28)).flushes = [1961] ∧
      ((∀ pre a post, passesThenFlush 28 = pre ++ a :: post → Flushes (run (step padSingle) init pre) a →
          (run (step padSingle) init (pre ++ [a])).file = recordedBytes (run (step padSingle) init (pre ++ [a]))) ↔
        ∀ pre a post, passesThenFlush 28 = pre ++ a :: post → ¬ Flushes (run (step padSingle) init pre) a) :=
  ⟨(passesThenFlush_flushes padSingle 28 le_rfl).1,
    log_exact_iff padSingle (passesThenFlush 28) fun _ _ hm => passesThenFlush_opens hm⟩

/-- 28 passes, then the first flush -/
theorem log_inexact :
    (run (step padSingle) init (passesThenFlush 28)).file ≠
      recordedBytes (run (step padSingle) init (passesThenFlush 28)) := by
  rcases passesThenFlush_flushes padSingle 28 le_rfl with ⟨hfl, hpasses⟩
  exact flush_inexact (run_log padSingle _ fun _ _ hm => passesThenFlush_opens hm) hpasses (by rw [hfl]; simp)

end NuStars.Avionics
