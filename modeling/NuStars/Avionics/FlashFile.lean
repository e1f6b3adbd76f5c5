/-
The log file byte for byte, in terms of the passes of `loop()` (avionics.ino), for runs in which every flush copies
inside the buffers (`CopyFits`), that is right after the 28th pass.

A flush then copies `writeBuffer` up to 28 packets and one byte. The packets since the flush before stand there in
order. The byte behind them is one of 70 that no copy reaches, and 0 as `setup` left it.

- `run_kept`: the buffer and the file in terms of the packets packed so far;
- `flash_file`: the file after such a run, with every pattern of opens that fail.
-/
import NuStars.Avionics.Copies
import NuStars.Avionics.FailedOpen

namespace NuStars.Avionics

open NuStars.Blocks NuStars.Run

/-! ## Batches -/

section
variable {α β : Type*}

/-- of the passes `ps`, the batches of 28 that the flushes save, given whether their opens succeed -/
def saved (ps : List α) : List Bool → List (List α)
  | [] => []
  | opened :: os => (if opened then [ps.take 28] else []) ++ saved (ps.drop 28) os

theorem saved_snoc (ps : List α) (os : List Bool) (opened : Bool) :
    saved ps (os ++ [opened]) = saved ps os ++ (if opened then [(ps.drop (28 * os.length)).take 28] else []) := by
  induction os generalizing ps with
  | nil => simp [saved]
  | cons o os ih =>
    rw [List.cons_append, saved, saved, ih, List.drop_drop, List.length_cons, Nat.mul_succ, Nat.add_comm 28,
      List.append_assoc]

/-- passes behind the last flush make no difference -/
theorem saved_append {ps : List α} (qs : List α) {os : List Bool} (h : 28 * os.length ≤ ps.length) :
    saved (ps ++ qs) os = saved ps os := by
  induction os generalizing ps with
  | nil => rfl
  | cons o os ih =>
    rw [List.length_cons, Nat.mul_succ] at h
    have hfirst : 28 ≤ ps.length := (Nat.le_add_left 28 _).trans h
    have hrest : 28 * os.length ≤ (ps.drop 28).length := by
      rw [List.length_drop]
      exact Nat.le_sub_of_add_le h
    rw [saved, saved, List.take_append_of_le_length hfirst, List.drop_append_of_le_length hfirst, ih hrest]

theorem saved_map (g : α → β) (ps : List α) (os : List Bool) :
    saved (ps.map g) os = (saved ps os).map (List.map g) := by
  induction os generalizing ps with
  | nil => rfl
  | cons opened os ih =>
    rw [saved, saved, ← List.map_take, ← List.map_drop, ih, List.map_append]
    cases opened <;> rfl

theorem saved_length (ps : List α) (os : List Bool) : (saved ps os).length = os.count true := by
  induction os generalizing ps with
  | nil => rfl
  | cons opened os ih =>
    rw [saved, List.length_append, ih, List.count_cons, Nat.add_comm]
    cases opened <;> rfl

/-- each batch has its 28 passes -/
theorem saved_whole {ps : List α} {os : List Bool} (h : 28 * os.length ≤ ps.length) :
    ∀ b ∈ saved ps os, b.length = 28 ∧ ∀ p ∈ b, p ∈ ps := by
  induction os generalizing ps with
  | nil =>
    intro b hb
    cases hb
  | cons opened os ih =>
    rw [List.length_cons, Nat.mul_succ] at h
    intro b hb
    rcases List.mem_append.1 hb with hb | hb
    · have hb : b = ps.take 28 := by
        split_ifs at hb
        · exact List.mem_singleton.1 hb
        · cases hb
      rw [hb]
      refine ⟨?_, fun p hp => List.mem_of_mem_take hp⟩
      rw [List.length_take, Nat.min_eq_left ((Nat.le_add_left 28 _).trans h)]
    · have hrest : 28 * os.length ≤ (ps.drop 28).length := by
        rw [List.length_drop]
        exact Nat.le_sub_of_add_le h
      obtain ⟨hlen, hmem⟩ := ih hrest b hb
      exact ⟨hlen, fun p hp => List.mem_of_mem_drop (hmem p hp)⟩

end

/-! ## The buffer and the file -/

theorem memcpy_drop {buf src : List UInt8} {pos k : ℕ} (hk : pos + src.length ≤ k) (h : k ≤ buf.length) :
    (memcpy buf pos src).drop k = buf.drop k := by
  have hlen : (buf.take pos ++ src).length = pos + src.length := by
    rw [List.length_append, List.length_take, Nat.min_eq_left ((Nat.le_add_right _ _).trans (hk.trans h))]
  have hall : (buf.take pos ++ src ++ buf.drop (pos + src.length)).length = buf.length := by
    rw [List.length_append, hlen, List.length_drop, Nat.add_sub_cancel' (hk.trans h)]
  rw [memcpy, List.take_of_length_le hall.le, List.drop_append, hlen, List.drop_eq_nil_of_le (hlen.trans_le hk),
    List.nil_append, List.drop_drop, Nat.add_sub_cancel' hk]

/-- the state after flushes with the outcomes `os` -/
structure Kept (os : List Bool) (s : St) : Prop where
  file : s.file = ((saved s.packed os).map fun b => b.flatten ++ [0]).flatten
  count : 28 * os.length + s.passes = s.packed.length
  held : s.writeBuffer.take (packetSize * min s.passes 28) = ((s.packed.drop (28 * os.length)).take 28).flatten
  /-- no copy reaches the last 70 bytes -/
  slack : s.writeBuffer.drop (packetSize * 28) = List.replicate packetSize 0
  size : s.writeBuffer.length = writeBufferSize

theorem init_kept : Kept [] init := ⟨rfl, rfl, rfl, List.drop_replicate, List.length_replicate⟩

section
variable {os : List Bool} {s : St}

theorem Kept.of_eq {t : St} (h : Kept os s) (hbuf : t.writeBuffer = s.writeBuffer) (hpasses : t.passes = s.passes)
    (hpacked : t.packed = s.packed) (hfile : t.file = s.file) : Kept os t := by
  refine ⟨?_, ?_, ?_, ?_, ?_⟩
  · rw [hfile, hpacked]
    exact h.file
  · rw [hpasses, hpacked]
    exact h.count
  · rw [hbuf, hpasses, hpacked]
    exact h.held
  · rw [hbuf]
    exact h.slack
  · rw [hbuf]
    exact h.size

theorem Kept.since (h : Kept os s) : (s.packed.drop (28 * os.length)).length = s.passes := by
  rw [List.length_drop, ← h.count, Nat.add_sub_cancel_left]

/-- the end of a pass -/
theorem finishPass_kept (h : Kept os s) (hf : Fill s) (raven : UInt8)
    (hsize : (finishPass s raven).pk.packetBuffer.length = packetSize) : Kept os (finishPass s raven) := by
  have hpacked : (finishPass s raven).packed = s.packed ++ [(finishPass s raven).pk.packetBuffer] := rfl
  have hle : 28 * os.length ≤ s.packed.length := by
    rw [← h.count]
    exact Nat.le_add_right _ _
  have hfile : (finishPass s raven).file =
      ((saved (finishPass s raven).packed os).map fun b => b.flatten ++ [0]).flatten := by
    rw [hpacked, saved_append _ hle]
    exact h.file
  have hcount : 28 * os.length + (finishPass s raven).passes = (finishPass s raven).packed.length := by
    rw [finishPass_passes, hpacked, List.length_append, ← h.count]
    rfl
  have hsince : (finishPass s raven).packed.drop (28 * os.length) =
      s.packed.drop (28 * os.length) ++ [(finishPass s raven).pk.packetBuffer] := by
    rw [hpacked, List.drop_append_of_le_length hle]
  have hlen := h.since
  by_cases hsig : s.writeSignal = true
  · -- the 28 packets are there, and the copy is skipped
    have hpasses : 28 ≤ s.passes := hf.signal.1 hsig
    have hbuf := finishPass_writeBuffer_pending hsig raven
    refine ⟨hfile, hcount, ?_, ?_, ?_⟩
    · rw [hbuf, finishPass_passes, Nat.min_eq_right (Nat.le_succ_of_le hpasses), hsince,
        List.take_append_of_le_length (hpasses.trans_eq hlen.symm), ← h.held, Nat.min_eq_right hpasses]
    · rw [hbuf]
      exact h.slack
    · rw [hbuf]
      exact h.size
  · have hpasses : s.passes < 28 := by
      by_contra hge
      exact hsig (hf.signal.2 (not_lt.1 hge))
    have hbuf := finishPass_writeBuffer hsig raven
    generalize (finishPass s raven).pk.packetBuffer = p at hsize hbuf hsince
    have hend : s.wbPos + p.length ≤ packetSize * 28 := by
      rw [hsize, hf.pos, ← Nat.mul_succ]
      exact Nat.mul_le_mul_left _ hpasses
    have hroom : packetSize * 28 ≤ s.writeBuffer.length := by
      rw [h.size]
      decide
    refine ⟨hfile, hcount, ?_, ?_, ?_⟩
    · have hbefore := h.held
      rw [Nat.min_eq_left hpasses.le, List.take_of_length_le (hlen.trans_le hpasses.le), ← hf.pos] at hbefore
      rw [hbuf, finishPass_passes, Nat.min_eq_left hpasses, Nat.mul_succ, ← hf.pos, ← hsize,
        memcpy_take (hend.trans hroom), hbefore, hsince, List.take_of_length_le, List.flatten_append,
        List.flatten_singleton]
      rw [List.length_append, hlen]
      exact hpasses
    · rw [hbuf, memcpy_drop hend hroom]
      exact h.slack
    · rw [hbuf, memcpy_length (hend.trans hroom)]
      exact h.size

/-- what a flush right after the 28th pass copies -/
theorem Kept.copied (h : Kept os s) (hf : Fill s) (hpasses : s.passes = 28) (past : ℕ → UInt8) :
    readFrom s.writeBuffer past (s.wbPos + 1) = ((s.packed.drop (28 * os.length)).take 28).flatten ++ [0] := by
  have hheld := h.held
  rw [hpasses, Nat.min_self] at hheld
  have hlen : (s.writeBuffer.take (packetSize * 28)).length = packetSize * 28 := by
    rw [List.length_take, h.size]
    rfl
  have hbehind : s.wbPos + 1 - s.writeBuffer.length = 0 := by
    rw [hf.pos, hpasses, h.size]
    rfl
  have htake : s.writeBuffer.take (s.wbPos + 1) = ((s.packed.drop (28 * os.length)).take 28).flatten ++ [0] := by
    rw [← List.take_append_drop (packetSize * 28) s.writeBuffer, h.slack, hf.pos, hpasses, List.take_append, hlen,
      Nat.add_sub_cancel_left, List.take_of_length_le (hlen.trans_le (Nat.le_succ _)), hheld]
    rfl
  rw [readFrom, htake, hbehind, List.range_zero, List.map_nil, List.append_nil]

theorem flush_kept (h : Kept os s) (hf : Fill s) (hpasses : s.passes = 28) (opened : Bool) (past : ℕ → UInt8) :
    Kept (os ++ [opened]) (flush s opened past) := by
  have hpacked : (flush s opened past).packed = s.packed := rfl
  have hsum : 28 * (os ++ [opened]).length = s.packed.length := by
    rw [List.length_append, List.length_singleton, Nat.mul_succ, ← h.count, hpasses]
  refine ⟨?_, hsum, ?_, h.slack, h.size⟩
  · rw [flush_file, hpacked, saved_snoc, List.map_append, List.flatten_append, ← h.file, h.copied hf hpasses past]
    cases opened with
    | false => simp
    | true => simp
  · rw [hsum, hpacked, List.drop_length]
    rfl

/-- a step that flushes nothing -/
theorem Kept.of_none {a : Act} {t : St} (h : Kept os t) (hno : outcome s a = none) :
    Kept (os ++ (outcome s a).toList) t := by
  rwa [hno, Option.toList_none, List.append_nil]

end

theorem step_kept (single : ℚ → UInt32) {os : List Bool} (s : St) (a : Act) (hp : Packets s) (hf : Fill s)
    (h : Kept os s) (hfits : CopyFits s a) : Kept (os ++ (outcome s a).toList) (step single s a) := by
  have hp' := step_packets single s a hp
  have hm := step_moves single s a
  generalize step single s a = t at hm hp' ⊢
  cases hm with
  | locked r htop hlock => exact Kept.of_none (h.of_eq rfl rfl rfl rfl) rfl
  | pass r htop hlock hbr =>
    exact Kept.of_none (finishPass_kept (s := packFields single s r) (h.of_eq rfl rfl rfl rfl) ⟨hf.pos, hf.signal⟩ _
      hp'.size) rfl
  | sweepStart r htop hlock hbr => exact Kept.of_none (h.of_eq rfl rfl rfl rfl) rfl
  | sweepSkip r htop hlock hbr =>
    exact Kept.of_none (finishPass_kept (s := setDeployed (packFields single s r)) (h.of_eq rfl rfl rfl rfl)
      ⟨hf.pos, hf.signal⟩ _ hp'.size) rfl
  | sweepOn r d i raven hat hcond => exact Kept.of_none (h.of_eq rfl rfl rfl rfl) rfl
  | sweepEnd r d i raven hat hcond =>
    exact Kept.of_none (finishPass_kept (s := setDeployed s) (h.of_eq rfl rfl rfl rfl) ⟨hf.pos, hf.signal⟩ _
      hp'.size) rfl
  | again r hat => exact Kept.of_none (h.of_eq rfl rfl rfl rfl) rfl
  | flashOn opened past f hno => exact Kept.of_none (h.of_eq rfl rfl rfl rfl) (if_neg hno)
  | flush opened past hat hsig =>
    have hyes : outcome s (.writeFlash opened past) = some opened := if_pos ⟨hat, hsig⟩
    have hpasses : s.passes = 28 := (copy_fits_iff hf hsig).1 (hfits ⟨hat, hsig⟩)
    rw [hyes, Option.toList_some]
    exact flush_kept h hf hpasses opened past
  | send hat hlock => exact Kept.of_none (h.of_eq rfl rfl rfl rfl) rfl
  | unlock b hat => exact Kept.of_none (h.of_eq rfl rfl rfl rfl) rfl
  | radioOn p hno => exact Kept.of_none (h.of_eq rfl rfl rfl rfl) rfl

theorem run_kept (single : ℚ → UInt32) (as : List Act) (hfits : Along (step single) CopyFits init as) :
    Kept (outcomes single init as) (run (step single) init as) :=
  (run_observed_along (I := fun os s => Packets s ∧ Fill s ∧ Kept os s)
    (fun _ s a h hc =>
      ⟨step_packets single s a h.1, step_fill single s a h.2.1, step_kept single s a h.1 h.2.1 h.2.2 hc⟩)
    init as hfits ⟨init_packets, init_fill, init_kept⟩).2.2

/-! ## The file in terms of the passes -/

/-- the passes a run completes, oldest first -/
def finishedPasses (single : ℚ → UInt32) (as : List Act) : List Pass :=
  let ps := startedPasses single init as
  if sweeping (run (step single) init as).loopAt then ps.dropLast else ps

theorem packed_finished (single : ℚ → UInt32) (as : List Act) :
    (run (step single) init as).packed = (finishedPasses single as).map (Pass.packet single) := by
  have hbuilt := run_built single as
  unfold finishedPasses
  generalize run (step single) init as = s at hbuilt ⊢
  generalize startedPasses single init as = ps at hbuilt ⊢
  cases hbuilt with
  | rest hout hp _ => simp [hout, hp]
  | inSweep p d i hat hp _ _ => simp [hat, sweeping, hp]

/-- what the flushes write, given the passes completed and whether the opens succeed -/
def logBytes (single : ℚ → UInt32) (ps : List Pass) (os : List Bool) : List UInt8 :=
  ((saved ps os).map fun b => (b.map (Pass.packet single)).flatten ++ [0]).flatten

theorem logBytes_length (single : ℚ → UInt32) {ps : List Pass} {os : List Bool} (h : 28 * os.length ≤ ps.length) :
    (logBytes single ps os).length = (packetSize * 28 + 1) * os.count true := by
  rw [logBytes, length_blocks (n := packetSize * 28 + 1), List.length_map, saved_length]
  intro bytes hmem
  obtain ⟨b, hb, rfl⟩ := List.mem_map.1 hmem
  have hpackets : (b.map (Pass.packet single)).flatten.length = packetSize * (b.map (Pass.packet single)).length := by
    apply length_blocks
    intro packet hp
    obtain ⟨p, -, rfl⟩ := List.mem_map.1 hp
    exact packet_length single p
  rw [List.length_append, hpackets, List.length_map, (saved_whole h b hb).1]
  rfl

theorem run_logBytes (single : ℚ → UInt32) (as : List Act) (hfits : Along (step single) CopyFits init as) :
    (run (step single) init as).file = logBytes single (finishedPasses single as) (outcomes single init as) := by
  have hfile := (run_kept single as hfits).file
  rw [packed_finished, saved_map, List.map_map] at hfile
  exact hfile

theorem run_passes (single : ℚ → UInt32) (as : List Act) (hfits : Along (step single) CopyFits init as) :
    28 * (outcomes single init as).length + (run (step single) init as).passes =
      (finishedPasses single as).length := by
  have hcount := (run_kept single as hfits).count
  rwa [packed_finished, List.length_map] at hcount

/-- **The log file.** After every run in which the copies of the flushes fit into the buffers, the completed passes fall
into 28 for each flush and those since the last. The file holds, for each flush whose open succeeded, the packets of its
28 passes in order and then a zero byte, and nothing else: 1961 bytes each. -/
theorem flash_file (single : ℚ → UInt32) (as : List Act) (hfits : Along (step single) CopyFits init as) :
    let s := run (step single) init as
    let ps := finishedPasses single as
    let os := outcomes single init as
    28 * os.length + s.passes = ps.length ∧
      s.file = ((saved ps os).map fun b => (b.map (Pass.packet single)).flatten ++ [0]).flatten ∧
      s.file.length = 1961 * os.count true := by
  intro s ps os
  have hcount := run_passes single as hfits
  have hfile := run_logBytes single as hfits
  refine ⟨hcount, hfile, ?_⟩
  rw [hfile]
  exact logBytes_length single ((Nat.le_add_right _ _).trans_eq hcount)

/-! ## The first flush on the pad -/

theorem loops_fit (single : ℚ → UInt32) {s : St} {as : List Act} (h : ∀ a ∈ as, ∃ r, a = .loop r) :
    Along (step single) CopyFits s as ∧ outcomes single s as = [] := by
  induction as generalizing s with
  | nil => exact ⟨along_nil _ _ s, rfl⟩
  | cons a as ih =>
    obtain ⟨r, rfl⟩ := h a List.mem_cons_self
    obtain ⟨hfits, houts⟩ := ih (s := step single s (.loop r)) fun b hb => h b (List.mem_cons_of_mem _ hb)
    exact ⟨(along_cons _ _ s _ as).2 ⟨nofun, hfits⟩, houts⟩

theorem passesThenFlush_fits (single : ℚ → UInt32) :
    Along (step single) CopyFits init (passesThenFlush 28) ∧ outcomes single init (passesThenFlush 28) = [true] := by
  have hloops : ∀ a ∈ (List.replicate 28 iteration).flatten, ∃ r, a = Act.loop r := by
    intro a ha
    obtain ⟨l, hl, ha⟩ := List.mem_flatten.1 ha
    rw [(List.mem_replicate.1 hl).2] at ha
    exact ⟨padReadings 1 allHigh, by simpa [iteration] using ha⟩
  obtain ⟨hfits, houts⟩ := loops_fit single (s := run (step single) init [flashTurn, flashTurn]) hloops
  obtain ⟨hpad, hfill⟩ := passes_on_pad single 28
  have hsig := hfill.signal.2 hpad.passes.ge
  have hroom := (copy_fits_iff hfill hsig).2 hpad.passes
  rw [passesThenFlush, along_append, along_append, outcomes, observed_append, observed_append]
  generalize run (step single) init ([flashTurn, flashTurn] ++ (List.replicate 28 iteration).flatten) = s
    at hpad hsig hroom ⊢
  refine ⟨⟨⟨?_, hfits⟩, ?_⟩, ?_⟩
  · simp [along_cons, along_nil, CopyFits, Flushes, flashTurn, step, writeFlash, init]
  · simp [along_cons, along_nil, CopyFits, Flushes, flashTurn, step, writeFlash, hpad.flash, hroom]
  · rw [← outcomes, ← outcomes, ← outcomes, houts]
    simp [outcomes, observed, outcome, flashTurn, step, writeFlash, init, hpad.flash, hsig]

theorem passesThenFlush_passes (single : ℚ → UInt32) :
    (finishedPasses single (passesThenFlush 28)).length = 28 := by
  obtain ⟨hfits, houts⟩ := passesThenFlush_fits single
  rw [← run_passes single _ hfits, houts, (passesThenFlush_flushes single 28 le_rfl).2]
  rfl

/-- 28 passes and a flush: their packets and a zero byte -/
theorem flash_file_flushed :
    let s := run (step padSingle) init (passesThenFlush 28)
    let ps := finishedPasses padSingle (passesThenFlush 28)
    ps.length = 28 ∧ s.file = (ps.map (Pass.packet padSingle)).flatten ++ [0] ∧ s.file.length = 1961 := by
  intro s ps
  obtain ⟨hfits, houts⟩ := passesThenFlush_fits padSingle
  obtain ⟨-, hfile, hlen⟩ := flash_file padSingle (passesThenFlush 28) hfits
  rw [houts] at hfile hlen
  have hps : ps.length = 28 := passesThenFlush_passes padSingle
  refine ⟨hps, ?_, hlen⟩
  have hall : ps.take 28 = ps := List.take_of_length_le hps.le
  calc s.file
      = ([ps.take 28].map fun b => (b.map (Pass.packet padSingle)).flatten ++ [0]).flatten := hfile
    _ = (ps.map (Pass.packet padSingle)).flatten ++ [0] := by rw [hall]; simp

end NuStars.Avionics
