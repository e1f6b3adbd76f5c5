/-
What a failed `fatfs.open` costs (avionics.ino, DEBUG false).

`writeFlash` copies the write buffer and resets `wbPos` and `writeSignal` before it opens the file; when the open fails,
the `else` branch sets the LED and nothing is retried. So the flush takes its batch with it, and the next one starts
from an empty buffer.

- `run_saved`: the file and the recorded packets, flush by flush, for every pattern of successes and failures (`Saved`);
- `failed_open_discards`: the same in terms of the outcomes of the opens;
- `failed_open_loses`: 28 packets that no later flush writes.
-/
import NuStars.Avionics.Log
import NuStars.Core.Blocks

namespace NuStars.Avionics

open NuStars.Blocks NuStars.LittleEndian NuStars.Run

/-! ## Outcomes -/

/-- whether the open of a flush succeeds -/
def outcome (s : St) : Act → Option Bool
  | .writeFlash opened _ => if s.flashAt = .yielded ∧ s.writeSignal = true then some opened else none
  | _ => none

/-- the outcomes of the opens along a run, oldest first -/
def outcomes (single : ℚ → UInt32) (s : St) (as : List Act) : List Bool := observed (step single) outcome s as

theorem outcome_none {s : St} {a : Act} (h : ¬ Flushes s a) : outcome s a = none := by
  cases a with
  | loop r => rfl
  | writeFlash opened past => exact if_neg h
  | writeRadio => rfl

/-- the bytes a flush copies -/
def Flushed.size (f : Flushed) : ℕ := packetSize * f.packets.length + f.stray.length

/-- the state after the flushes `fs`, each with its outcome, and the packets `batch` recorded since the last one -/
structure Saved (outs : List Bool) (s : St) (fs : List (Flushed × Bool)) (batch : List (ℕ × List UInt8)) : Prop where
  outcomes : fs.map Prod.snd = outs
  recorded : s.recorded = (fs.map fun f => f.1.packets).flatten ++ batch
  file : s.file = ((fs.filter Prod.snd).map fun f => f.1.bytes).flatten
  whole : ∀ f ∈ fs, f.1.packets.length = 28
  flushes : fs.map (fun f => f.1.size) = s.flushes
  held : Held s batch

theorem init_saved : Saved [] init [] [] := ⟨rfl, rfl, rfl, nofun, rfl, init_held⟩

theorem SameLog.saved {s t : St} {outs : List Bool} {fs : List (Flushed × Bool)} {batch : List (ℕ × List UInt8)}
    (h : SameLog s t) (hs : Saved outs s fs batch) : Saved outs t fs batch := by
  refine ⟨hs.outcomes, ?_, ?_, hs.whole, ?_, h.held hs.held⟩
  · rw [h.recorded]
    exact hs.recorded
  · rw [h.file]
    exact hs.file
  · rw [h.flushes]
    exact hs.flushes

theorem flush_saved {s : St} {outs : List Bool} {fs : List (Flushed × Bool)} {batch : List (ℕ × List UInt8)}
    (hs : Saved outs s fs batch) (hf : Fill s) (hsig : s.writeSignal = true) (opened : Bool) (past : ℕ → UInt8) :
    ∃ stray, Saved (outs ++ [opened]) (flush s opened past) (fs ++ [(⟨batch, stray⟩, opened)]) [] := by
  rcases flush_held hs.held hf hsig opened past with ⟨hcount, hh, stray, hstray, hcopied⟩
  have hpasses : 28 ≤ s.passes := hf.signal.1 hsig
  refine ⟨stray, ?_, ?_, ?_, ?_, ?_, hh⟩
  · rw [List.map_append, hs.outcomes]
    rfl
  · rw [flush_recorded, hs.recorded]
    simp
  · rw [flush_file, List.filter_append, List.map_append, List.flatten_append, ← hs.file, hcopied]
    cases opened with
    | false => simp
    | true => simp [Flushed.bytes]
  · intro f hmem
    rw [List.mem_append, List.mem_singleton] at hmem
    rcases hmem with hmem | rfl
    · exact hs.whole f hmem
    · exact hcount
  · have hsize : (⟨batch, stray⟩ : Flushed).size = s.wbPos + 1 := by
      rw [Flushed.size, hcount, hstray, hf.pos, ← Nat.add_assoc, ← Nat.mul_add, Nat.add_sub_cancel' hpasses]
    rw [flush_flushes, List.map_append, hs.flushes, List.map_singleton, hsize]

theorem step_saved (single : ℚ → UInt32) {outs : List Bool} (s : St) (a : Act) (hp : Packets s) (hf : Fill s)
    (hs : ∃ fs batch, Saved outs s fs batch) :
    ∃ fs batch, Saved (outs ++ (outcome s a).toList) (step single s a) fs batch := by
  rcases hs with ⟨fs, batch, hs⟩
  have hp' := step_packets single s a hp
  have hm := step_log single s a
  generalize step single s a = t at hm hp' ⊢
  cases hm with
  | quiet t hsame hc hno =>
    rw [outcome_none hno, Option.toList_none, List.append_nil]
    exact ⟨fs, batch, hsame.saved hs⟩
  | pass u raven hsame hc hno =>
    rw [outcome_none hno, Option.toList_none, List.append_nil]
    have hu := hsame.saved hs
    by_cases hsig : u.writeSignal = true
    · rcases finishPass_held_pending hu.held (hsame.fill hf) hsig raven with ⟨hrec, hh⟩
      exact ⟨fs, batch, hu.outcomes, hrec.trans hu.recorded, hu.file, hu.whole, hu.flushes, hh⟩
    · rcases finishPass_held hu.held (hsame.fill hf) (by simpa using hsig) raven hp'.size with ⟨hrec, hh⟩
      refine ⟨fs, _, hu.outcomes, ?_, hu.file, hu.whole, hu.flushes, hh⟩
      rw [hrec, hu.recorded, List.append_assoc]
  | flush opened past ha hfl hc =>
    rw [ha] at hfl ⊢
    rcases flush_saved hs hf hfl.2 opened past with ⟨stray, hlog⟩
    have hout : outcome s (.writeFlash opened past) = some opened := if_pos hfl
    rw [hout]
    exact ⟨_, _, hlog⟩

/-- **The file after any outcomes**: the batches of the flushes whose open succeeded, each with its stray bytes -/
theorem run_saved (single : ℚ → UInt32) (as : List Act) :
    ∃ fs batch, Saved (outcomes single init as) (run (step single) init as) fs batch :=
  (run_observed (I := fun outs s => Packets s ∧ Fill s ∧ ∃ fs batch, Saved outs s fs batch)
    (fun _ s a h => ⟨step_packets single s a h.1, step_fill single s a h.2.1, step_saved single s a h.1 h.2.1 h.2.2⟩)
    init as ⟨init_packets, init_fill, [], [], init_saved⟩).2.2

/-! ## The pending batch -/

/-- the packets recorded since the last flush, 28 having gone with each -/
def pending (s : St) : List (ℕ × List UInt8) := s.recorded.drop (28 * s.flushes.length)

theorem flatten_packets_length {fs : List (Flushed × Bool)} (h : ∀ f ∈ fs, f.1.packets.length = 28) :
    (fs.map fun f => f.1.packets).flatten.length = 28 * fs.length := by
  rw [length_blocks (n := 28), List.length_map]
  intro b hb
  obtain ⟨f, hf, rfl⟩ := List.mem_map.1 hb
  exact h f hf

theorem Saved.pending {outs : List Bool} {s : St} {fs : List (Flushed × Bool)} {batch : List (ℕ × List UInt8)}
    (h : Saved outs s fs batch) : Avionics.pending s = batch := by
  have hcount : s.flushes.length = fs.length := by rw [← h.flushes, List.length_map]
  rw [Avionics.pending, h.recorded, hcount, ← flatten_packets_length h.whole, List.drop_left]

/-- **A failed open discards its batch and nothing else.** Over every schedule and every pattern of outcomes of the
opens, the packets recorded fall into the batches of the flushes so far, 28 packets each, and the packets pending. The
file is the batches of the flushes whose open succeeded, in order, each followed by stray bytes that fill up what its
flush copied. The pending packets stand in `writeBuffer` in order. The next flush has 28 of them; if its open succeeds,
it appends them to the file, and 70 (n - 28) + 1 stray bytes after n passes. If it fails, it leaves the file as it is
and starts the next batch all the same. -/
theorem failed_open_discards (single : ℚ → UInt32) (as : List Act) :
    let s := run (step single) init as
    (∃ fs : List (Flushed × Bool), fs.map Prod.snd = outcomes single init as ∧ (∀ f ∈ fs, f.1.packets.length = 28) ∧
        fs.map (fun f => f.1.size) = s.flushes ∧
        s.recorded = (fs.map fun f => f.1.packets).flatten ++ pending s ∧
        s.file = ((fs.filter Prod.snd).map fun f => f.1.bytes).flatten) ∧
      s.writeBuffer.take (packetSize * (pending s).length) = packetBytes (pending s) ∧
      (∀ past, Flushes s (.writeFlash true past) → (pending s).length = 28 ∧ ∃ stray,
        stray.length = packetSize * (s.passes - 28) + 1 ∧
          (step single s (.writeFlash true past)).file = s.file ++ packetBytes (pending s) ++ stray) ∧
      ∀ past, Flushes s (.writeFlash false past) → (pending s).length = 28 ∧
        (step single s (.writeFlash false past)).file = s.file ∧
          (step single s (.writeFlash false past)).wbPos = 0 ∧
          (step single s (.writeFlash false past)).writeSignal = false ∧
          (step single s (.writeFlash false past)).recorded = s.recorded ∧
          pending (step single s (.writeFlash false past)) = [] := by
  intro s
  rcases run_saved single as with ⟨fs, batch, hs⟩
  have hfill : Fill s := run_inv (step_fill single) init as init_fill
  have hbatch : pending s = batch := hs.pending
  rw [hbatch]
  refine ⟨⟨fs, hs.outcomes, hs.whole, hs.flushes, hs.recorded, hs.file⟩, hs.held.held, ?_, ?_⟩
  · intro past hfl
    rcases flush_held hs.held hfill hfl.2 true past with ⟨hcount, -, stray, hstray, hcopied⟩
    refine ⟨hcount, stray, hstray, ?_⟩
    rw [hfl.step_eq single, List.append_assoc, ← hcopied]
    rfl
  · intro past hfl
    obtain ⟨hcount, -⟩ := flush_held hs.held hfill hfl.2 false past
    rcases flush_saved hs hfill hfl.2 false past with ⟨stray, hnext⟩
    rw [hfl.step_eq single]
    exact ⟨hcount, rfl, rfl, rfl, rfl, hnext.pending⟩

/-! ## A lost batch -/

/-- an iteration of `loop()` on the pad at time m -/
def iterationAt (m : UInt32) : List Act := [.loop (padReadings m allHigh), .loop (padReadings m allHigh)]

/-- between two iterations on the pad, with what was recorded -/
structure Standing (s : St) (fl : FlashAt) (n : ℕ) (rec : List (ℕ × List UInt8)) : Prop where
  packets : Packets s
  fill : Fill s
  top : s.loopAt = .top
  lock : s.radioLock = false
  raven : s.lastRaven = 0
  flash : s.flashAt = fl
  passes : s.passes = n
  recorded : s.recorded = rec
  count : 28 * s.flushes.length + n = rec.length
  file : s.file = []

/-- the packets begin with the tag and the time m -/
def StartAt (m : UInt32) (l : List (ℕ × List UInt8)) : Prop := ∀ e ∈ l, e.2.take 8 = tag ++ leBytes 4 m.toNat

theorem fieldWords_start (single : ℚ → UInt32) (maxAcc : ℚ) (r : Readings) (raven : UInt8) :
    (encode (fieldWords single maxAcc r) raven).take 8 = tag ++ leBytes 4 r.millis.toNat := by
  have hwords : ∃ ws, fieldWords single maxAcc r = r.millis :: ws := ⟨_, rfl⟩
  rcases hwords with ⟨ws, hws⟩
  have hsplit : encode (r.millis :: ws) raven = (tag ++ leBytes 4 r.millis.toNat) ++
      (wordBytes ws ++ [raven, xorAll (wordBytes (r.millis :: ws) ++ [raven])]) := by
    simp [encode, wordBytes_cons]
  rw [hws, hsplit, List.take_left' (by rw [List.length_append, length_leBytes]; rfl)]

theorem iteration_records (single : ℚ → UInt32) (m : UInt32) {s : St} {fl : FlashAt} {n : ℕ}
    {rec : List (ℕ × List UInt8)} (h : Standing s fl n rec) (hn : n < 28) :
    ∃ e : ℕ × List UInt8, e.2.take 8 = tag ++ leBytes 4 m.toNat ∧
      Standing (run (step single) s (iterationAt m)) fl (n + 1) (rec ++ [e]) := by
  have hraven : ravenByte (padReadings m allHigh) = 0 := by simp [ravenByte, val, padReadings, allHigh]
  have hmillis : (padReadings m allHigh).millis = m := rfl
  have hpackets := run_inv (step_packets single) s (iterationAt m) h.packets
  have hfill := run_inv (step_fill single) s (iterationAt m) h.fill
  unfold iterationAt at hpackets hfill ⊢
  generalize padReadings m allHigh = r at hraven hmillis hpackets hfill ⊢
  have hrun := run_quiet single h.top h.lock h.raven hraven
  have hsig : s.writeSignal = false := by
    rw [← Bool.not_eq_true, h.fill.signal, h.passes]
    omega
  have hpk : (finishPass (packFields single s r) 0).pk.packetBuffer = encode (fieldWords single s.maxAcc r) 0 :=
    packTail_filled (packSensors_filled single s.pk s.maxAcc r h.packets.size h.packets.head) 0
  have hoff : ¬ (packFields single s r).writeSignal = true := Bool.eq_false_iff.1 hsig
  have hrec : (finishPass (packFields single s r) 0).recorded =
      s.recorded ++ [(s.wbPos, (finishPass (packFields single s r) 0).pk.packetBuffer)] := finishPass_recorded hoff 0
  rw [hrun] at hpackets hfill ⊢
  refine ⟨(s.wbPos, encode (fieldWords single s.maxAcc r) 0), ?_,
    hpackets, hfill, rfl, h.lock, rfl, h.flash, ?_, ?_, ?_, h.file⟩
  · rw [fieldWords_start, hmillis]
  · exact congrArg (· + 1) h.passes
  · show (finishPass (packFields single s r) 0).recorded = _
    rw [hrec, hpk, h.recorded]
  · rw [List.length_append, ← h.count]
    rfl

theorem iterations_record (single : ℚ → UInt32) (m : UInt32) {s : St} {fl : FlashAt} {n : ℕ}
    {rec : List (ℕ × List UInt8)} (h : Standing s fl n rec) (k : ℕ) (hk : n + k ≤ 28) :
    ∃ new, new.length = k ∧ StartAt m new ∧
      Standing (run (step single) s (List.replicate k (iterationAt m)).flatten) fl (n + k) (rec ++ new) := by
  induction k generalizing s n rec with
  | zero => exact ⟨[], rfl, nofun, by simpa using h⟩
  | succ k ih =>
    rcases iteration_records single m h (by omega) with ⟨e, he, hstand⟩
    rcases ih hstand (by omega) with ⟨new, hnew, hstart, hstand'⟩
    refine ⟨e :: new, by rw [List.length_cons, hnew], ?_, ?_⟩
    · intro e' he'
      rcases List.mem_cons.1 he' with rfl | he'
      · exact he
      · exact hstart e' he'
    · rw [List.replicate_succ, List.flatten_cons, run_append]
      rwa [List.append_assoc, Nat.add_assoc, Nat.add_comm 1] at hstand'

/-- 28 passes at time m, and `writeFlash` up to the test of the signal -/
def batchAt (m : UInt32) : List Act := (List.replicate 28 (iterationAt m)).flatten ++ [flashTurn, flashTurn]

theorem batch_records (single : ℚ → UInt32) (m : UInt32) {s : St} {rec : List (ℕ × List UInt8)}
    (h : Standing s .delayed 0 rec) :
    ∃ new, new.length = 28 ∧ StartAt m new ∧
      Standing (run (step single) s (batchAt m)) .yielded 28 (rec ++ new) := by
  rcases iterations_record single m h 28 le_rfl with ⟨new, hnew, hstart, hstand⟩
  refine ⟨new, hnew, hstart, ?_⟩
  rw [batchAt, run_append]
  generalize run (step single) s (List.replicate 28 (iterationAt m)).flatten = t at hstand ⊢
  have hturn : run (step single) t [flashTurn, flashTurn] = { t with flashAt := .yielded } := by
    simp [flashTurn, step, writeFlash, hstand.flash]
  have hpackets := run_inv (step_packets single) t [flashTurn, flashTurn] hstand.packets
  have hfill := run_inv (step_fill single) t [flashTurn, flashTurn] hstand.fill
  rw [hturn] at hpackets hfill ⊢
  exact ⟨hpackets, hfill, hstand.top, hstand.lock, hstand.raven, rfl, hstand.passes, hstand.recorded,
    hstand.count, hstand.file⟩

theorem Standing.flushes {s : St} {rec : List (ℕ × List UInt8)} (h : Standing s .yielded 28 rec) (opened : Bool)
    (past : ℕ → UInt8) : Flushes s (.writeFlash opened past) :=
  ⟨h.flash, h.fill.signal.2 (by rw [h.passes])⟩

theorem failed_flush_stands (single : ℚ → UInt32) {s : St} {rec : List (ℕ × List UInt8)}
    (h : Standing s .yielded 28 rec) (past : ℕ → UInt8) :
    Standing (step single s (.writeFlash false past)) .delayed 0 rec := by
  have hstep := (h.flushes false past).step_eq single
  have hpackets := step_packets single s (.writeFlash false past) h.packets
  have hfill := step_fill single s (.writeFlash false past) h.fill
  rw [hstep] at hpackets hfill ⊢
  refine ⟨hpackets, hfill, h.top, h.lock, h.raven, rfl, rfl, h.recorded, ?_, h.file⟩
  rw [← h.count, flush_flushes, List.length_append, List.length_singleton]
  omega

/-- the packets of the last batch are pending -/
theorem Standing.pending {s : St} {rec new : List (ℕ × List UInt8)} (h : Standing s .yielded 28 (rec ++ new))
    (hnew : new.length = 28) : Avionics.pending s = new := by
  have hcount := h.count
  rw [List.length_append, hnew] at hcount
  rw [Avionics.pending, h.recorded, show 28 * s.flushes.length = rec.length by omega, List.drop_left]

theorem StartAt.bytes {m : UInt32} {l : List (ℕ × List UInt8)} (h : StartAt m l) (hl : l ≠ []) (after : List UInt8) :
    (packetBytes l ++ after).take 8 = tag ++ leBytes 4 m.toNat := by
  cases l with
  | nil => exact absurd rfl hl
  | cons e l =>
    have he := h e List.mem_cons_self
    have hlen : 8 ≤ e.2.length := by
      have := congrArg List.length he
      rw [List.length_take, List.length_append, length_leBytes] at this
      simp only [tag, List.length_cons, List.length_nil] at this
      omega
    show (e.2 ++ packetBytes l ++ after).take 8 = _
    rw [List.append_assoc, List.take_append_of_le_length hlen, he]

/-- two batches of different times do not fit into one copy of 1961 bytes -/
theorem not_infix {l l' : List (ℕ × List UInt8)} {stray : List UInt8} (h : StartAt 1 l) (h' : StartAt 2 l')
    (hl : l ≠ []) (hl' : l' ≠ []) (hlen : (packetBytes l' ++ stray).length = (packetBytes l).length + 1) :
    ¬ packetBytes l <:+: packetBytes l' ++ stray := by
  rintro ⟨a, b, hab⟩
  have hstart := h'.bytes hl' stray
  rw [← hab, List.append_assoc] at hstart
  have hab' := congrArg List.length hab
  simp only [List.length_append] at hab' hlen
  rcases Nat.eq_zero_or_pos a.length with ha | ha
  · rw [List.length_eq_zero_iff.1 ha, List.nil_append, h.bytes hl b] at hstart
    exact absurd hstart (by decide)
  · -- the first batch would stand one byte further on
    obtain ⟨x, rfl⟩ : ∃ x, a = [x] := List.length_eq_one_iff.1 (by omega)
    have hshift : (packetBytes l ++ b).take 7 = (tag ++ leBytes 4 2).drop 1 := by
      simpa using congrArg (List.drop 1) hstart
    have hfirst : (packetBytes l ++ b).take 7 = (tag ++ leBytes 4 1).take 7 := by
      simpa [List.take_take] using congrArg (List.take 7) (h.bytes hl b)
    rw [hshift] at hfirst
    exact absurd hfirst (by decide)

/-- **A batch is lost**: 28 passes, a flush whose open fails, 28 more passes, and a flush whose open succeeds. -/
theorem failed_open_loses :
    ¬ ∀ (single : ℚ → UInt32) (pre mid : List Act) (past past' : ℕ → UInt8),
      Flushes (run (step single) init pre) (.writeFlash false past) →
      Flushes (run (step single) init (pre ++ .writeFlash false past :: mid)) (.writeFlash true past') →
      packetBytes (pending (run (step single) init pre)) <:+:
        (run (step single) init (pre ++ .writeFlash false past :: mid ++ [.writeFlash true past'])).file := by
  intro h
  have hinit : Standing (run (step padSingle) init [flashTurn, flashTurn]) .delayed 0 [] :=
    ⟨run_packets _ _, run_inv (step_fill padSingle) init _ init_fill, rfl, rfl, rfl, rfl, rfl, rfl, rfl, rfl⟩
  rcases batch_records padSingle 1 hinit with ⟨l, hl, hstart, hs⟩
  rw [← run_append] at hs
  have hnext := failed_flush_stands padSingle hs fun _ => 0
  rcases batch_records padSingle 2 hnext with ⟨l', hl', hstart', hs'⟩
  rw [← run_cons, ← run_append] at hs'
  have hinfix := h padSingle ([flashTurn, flashTurn] ++ batchAt 1) (batchAt 2) (fun _ => 0) (fun _ => 0)
    (hs.flushes false _) (hs'.flushes true _)
  rcases run_saved padSingle ([flashTurn, flashTurn] ++ batchAt 1) with ⟨fs, batch, hsaved⟩
  rcases run_saved padSingle ([flashTurn, flashTurn] ++ batchAt 1 ++ .writeFlash false (fun _ => 0) :: batchAt 2)
    with ⟨fs', batch', hsaved'⟩
  rw [run_snoc] at hinfix
  generalize run (step padSingle) init ([flashTurn, flashTurn] ++ batchAt 1 ++ .writeFlash false (fun _ => 0) ::
    batchAt 2) = t at hs' hsaved' hinfix
  generalize run (step padSingle) init ([flashTurn, flashTurn] ++ batchAt 1) = s at hs hsaved hinfix
  obtain rfl : batch = l := hsaved.pending.symm.trans (hs.pending hl)
  obtain rfl : batch' = l' := hsaved'.pending.symm.trans (hs'.pending hl')
  have hflush := hs'.flushes true fun _ => 0
  rcases flush_held hsaved'.held hs'.fill hflush.2 true fun _ => 0 with ⟨-, -, stray, hstray, hcopied⟩
  have hfile : (step padSingle t (.writeFlash true fun _ => 0)).file = packetBytes batch' ++ stray := by
    rw [← hcopied, ← List.nil_append (readFrom _ _ _), ← hs'.file, hflush.step_eq padSingle]
    rfl
  rw [hs.pending hl, hfile] at hinfix
  refine not_infix hstart hstart' ?_ ?_ ?_ hinfix
  · exact List.ne_nil_of_length_eq_add_one hl
  · exact List.ne_nil_of_length_eq_add_one hl'
  · rw [List.length_append, hsaved.held.length, hsaved'.held.length, hl, hl', hstray, hs'.passes, Nat.sub_self,
      Nat.mul_zero]

end NuStars.Avionics
