/-
Boots of the flight computer: the log file `setup()` picks, and what becomes of the files over any sequence of boots,
flights and losses of power (avionics.ino).

`setup()` tries data0.hex, data1.hex, … until a name is not in use, and makes that file; `writeFlash` appends to it. If
the chip, the file system or the file does not come up, `setup()` ends in `while (1)`. The constructors of the
altimeter, the IMU and the radio come after the file is made and end in `while (1)` too if their part is not there, and
`setup()` goes on for seconds before the tasks start. So a boot may leave an empty file and no flight. Power may go at
any time between two steps, and what is in RAM goes with it; what a loss of power inside a flush leaves is a matter of
the file system.

The file system is not part of the repository: `F` stands for it, `Files.Lawful` for what the code relies on. `fn` lies
behind `writeBufferCopy`, so what is said of the files holds as long as every flush copies inside the buffers.

- `search_spec`, `search_total`: the search ends, at the least number that is not in use;
- `flights_kept`: every flight has a file of its own, with all its flushes in it, a boot without a flight leaves its
  file empty, and no other file is touched.
-/
import NuStars.Avionics.FlashFile
import NuStars.Core.Files
import NuStars.Core.Loop

namespace NuStars.Avionics

open NuStars.Loop NuStars.Run

/-! ## The name of the log -/

/-- `sprintf(fn, "data%d.hex\0", dataID)` -/
def dataName (dataID : ℕ) : List Char := ['d', 'a', 't', 'a'] ++ Nat.toDigits 10 dataID ++ ['.', 'h', 'e', 'x']

theorem dataName_injective : Function.Injective dataName := by
  intro i j h
  have hdigits : Nat.toDigits 10 i = Nat.toDigits 10 j := List.append_cancel_left (List.append_cancel_right h)
  have hread := congrArg (fun cs => Nat.ofDigitChars 10 cs 0) hdigits
  simpa using hread

/-- with its zero byte, the name of an `int` fits into `calloc(20, 1)` -/
theorem dataName_fits {dataID : ℕ} (h : dataID < 2 ^ 31) : (dataName dataID).length + 1 ≤ 20 := by
  have hdigits : (Nat.toDigits 10 dataID).length ≤ 10 := Nat.toDigits_length 10 dataID 10 (by decide) (by omega)
  simp only [dataName, List.length_append, List.length_cons, List.length_nil]
  omega

section
variable (F : Files)

/-- the loop of `setup()` that picks the name: `dataID` and `fn` after at most n tests -/
def search (d : F.Disk) (n : ℕ) : Option (ℕ × List Char) :=
  loopN (fun s => F.existsFile d s.2) (fun s => some (s.1 + 1, dataName s.1)) n (1, dataName 0)

/-- the numbers below `k` are in use, and the next name to be tested is that of `k` -/
def Tried (d : F.Disk) (s : ℕ × List Char) : Prop :=
  ∃ k, s = (k + 1, dataName k) ∧ ∀ j < k, F.existsFile d (dataName j) = true

variable {F}

theorem tried_start (d : F.Disk) : Tried F d (1, dataName 0) :=
  ⟨0, rfl, fun _ hj => absurd hj (Nat.not_lt_zero _)⟩

theorem tried_next {d : F.Disk} {s : ℕ × List Char} (h : Tried F d s) (hg : F.existsFile d s.2 = true) :
    Tried F d (s.1 + 1, dataName s.1) := by
  obtain ⟨k, rfl, hused⟩ := h
  refine ⟨k + 1, rfl, ?_⟩
  intro j hj
  rcases Nat.lt_succ_iff_lt_or_eq.1 hj with hlt | rfl
  · exact hused j hlt
  · exact hg

theorem search_spec {d : F.Disk} {n i : ℕ} {fn : List Char} (h : search F d n = some (i, fn)) :
    ∃ k, fn = dataName k ∧ F.existsFile d (dataName k) = false ∧ ∀ j < k, F.existsFile d (dataName j) = true := by
  obtain ⟨⟨k, hs, hused⟩, hnew⟩ := loopN_inv (I := Tried F d)
    (fun s t ht hg hb => by obtain rfl := Option.some.inj hb; exact tried_next ht hg) (tried_start d) h
  obtain ⟨-, rfl⟩ := Prod.mk.inj hs
  exact ⟨k, rfl, hnew, hused⟩

theorem search_total (hF : F.Lawful) (d : F.Disk) : ∃ n s, search F d n = some s := by
  -- only finitely many numbers are in use
  have hfin : Set.Finite {k | F.existsFile d (dataName k) = true} :=
    (hF.finite d).preimage dataName_injective.injOn
  obtain ⟨bound, hbound⟩ := hfin.bddAbove
  refine loopN_total (I := Tried F d) (fun s => bound + 2 - s.1) ?_ (tried_start d)
  intro s hs hg
  refine ⟨_, rfl, tried_next hs hg, ?_⟩
  obtain ⟨k, rfl, -⟩ := hs
  have hk : k ≤ bound := hbound hg
  omega

end

/-! ## Boots -/

/-- a boot that made its log file: the number of the file, whether the tasks started, and what they did -/
structure Boot where
  number : ℕ
  started : Bool
  acts : List Act

def Boot.name (f : Boot) : List Char := dataName f.number

inductive Phase where
  /-- without power, or in `setup()` before the search -/
  | off
  /-- in a `while (1)` of `setup()` -/
  | stuck
  /-- in `setup()`, with the file `fn` made -/
  | made (fn : List Char)
  /-- `setup()` is done; the state of the tasks -/
  | running (fn : List Char) (s : St)

structure Board (F : Files) where
  disk : F.Disk
  phase : Phase
  /-- the boots that made a file, latest first; recorded for the proofs -/
  boots : List Boot

inductive BoardAct where
  /-- up to `writeFile.close()` -/
  | setup
  /-- from there to the end of `setup()` -/
  | sensors
  | task (a : Act)
  | powerOff

section
variable (F : Files) (single : ℚ → UInt32)

/-- what a task does to the disk -/
def writeDisk (d : F.Disk) (fn : List Char) (s : St) : Act → F.Disk
  | .writeFlash _ past =>
    if s.flashAt = .yielded ∧ s.writeSignal = true then
      match F.openWrite d fn with
      | some writeFile => F.write writeFile fn (readFrom s.writeBuffer past (s.wbPos + 1))
      | none => d
    else d
  | _ => d

/-- the action's open ends as that of the file system -/
def OpensAs (d : F.Disk) (fn : List Char) : Act → Prop
  | .writeFlash opened _ => opened = (F.openWrite d fn).isSome
  | _ => True

inductive BoardStep : Board F → BoardAct → Board F → Prop where
  /-- the chip or the file system does not come up -/
  | noChip {b : Board F} (hoff : b.phase = .off) : BoardStep b .setup { b with phase := .stuck }
  | noFile {b : Board F} {n i k : ℕ} (hoff : b.phase = .off) (hfind : search F b.disk n = some (i, dataName k))
      (hopen : F.openWrite b.disk (dataName k) = none) : BoardStep b .setup { b with phase := .stuck }
  | file {b : Board F} {n i k : ℕ} {d : F.Disk} (hoff : b.phase = .off)
      (hfind : search F b.disk n = some (i, dataName k)) (hopen : F.openWrite b.disk (dataName k) = some d) :
      BoardStep b .setup ⟨d, .made (dataName k), ⟨k, false, []⟩ :: b.boots⟩
  /-- the altimeter, the IMU or the radio is not there -/
  | noSensor {b : Board F} {fn : List Char} (hmade : b.phase = .made fn) :
      BoardStep b .sensors { b with phase := .stuck }
  | tasks {b : Board F} {f : Boot} {fs : List Boot} {fn : List Char} (hmade : b.phase = .made fn)
      (hlast : b.boots = f :: fs) :
      BoardStep b .sensors ⟨b.disk, .running fn init, { f with started := true } :: fs⟩
  | task {b : Board F} {f : Boot} {fs : List Boot} {fn : List Char} {s : St} {a : Act}
      (hon : b.phase = .running fn s) (hlast : b.boots = f :: fs) (hopen : OpensAs F b.disk fn a) :
      BoardStep b (.task a)
        ⟨writeDisk F b.disk fn s a, .running fn (step single s a), { f with acts := f.acts ++ [a] } :: fs⟩
  | powerOff {b : Board F} : BoardStep b .powerOff { b with phase := .off }

variable {F}

theorem writeDisk_quiet {d : F.Disk} {fn : List Char} {s : St} {a : Act} (h : ¬ Flushes s a) :
    writeDisk F d fn s a = d := by
  cases a with
  | loop r => rfl
  | writeFlash opened past => exact if_neg h
  | writeRadio => rfl

theorem writeDisk_flush {d : F.Disk} {fn : List Char} {s : St} {opened : Bool} {past : ℕ → UInt8}
    (h : Flushes s (.writeFlash opened past)) :
    writeDisk F d fn s (.writeFlash opened past) =
      match F.openWrite d fn with
      | some writeFile => F.write writeFile fn (readFrom s.writeBuffer past (s.wbPos + 1))
      | none => d := if_pos h

/-- the log file holds what the tasks have written -/
theorem read_writeDisk (hF : F.Lawful) {d : F.Disk} {fn : List Char} {s : St} {a : Act}
    (hfile : F.read d fn = some s.file) (hopen : OpensAs F d fn a) :
    F.read (writeDisk F d fn s a) fn = some (step single s a).file := by
  have hm := step_log single s a
  generalize step single s a = t at hm ⊢
  cases hm with
  | quiet t hsame hc hno => rw [writeDisk_quiet hno, hfile, hsame.file]
  | pass u raven hsame hc hno =>
    have hkeep : (finishPass u raven).file = s.file := hsame.file
    rw [writeDisk_quiet hno, hfile, hkeep]
  | flush opened past ha hf hc =>
    subst ha
    rw [writeDisk_flush hf, flush_file]
    have hopen : opened = (F.openWrite d fn).isSome := hopen
    cases hd : F.openWrite d fn with
    | none =>
      rw [hd] at hopen
      rw [hopen]
      exact hfile
    | some d' =>
      have hread := hF.open_self d fn d' hd
      rw [hfile, Option.getD_some] at hread
      rw [hd] at hopen
      rw [hopen]
      exact hF.write_self d' fn s.file _ hread

/-- no other file is touched -/
theorem read_other (hF : F.Lawful) {d : F.Disk} {fn m : List Char} (hne : m ≠ fn) (s : St) (a : Act) :
    F.read (writeDisk F d fn s a) m = F.read d m := by
  by_cases hf : Flushes s a
  · cases a with
    | loop r => rfl
    | writeFlash opened past =>
      rw [writeDisk_flush hf]
      cases hd : F.openWrite d fn with
      | none => rfl
      | some d' =>
        calc F.read (F.write d' fn (readFrom s.writeBuffer past (s.wbPos + 1))) m
            = F.read d' m := hF.write_other d' fn _ m hne
          _ = F.read d m := hF.open_other d fn d' m hd hne
    | writeRadio => rfl
  · rw [writeDisk_quiet hf]

/-! ## Histories -/

/-- the file in use is that of the last boot, and the tasks are where its actions lead -/
def Phase.Of (single : ℚ → UInt32) (boots : List Boot) : Phase → Prop
  | .off => True
  | .stuck => True
  | .made fn => ∃ f fs, boots = f :: fs ∧ fn = f.name ∧ f.started = false
  | .running fn s => ∃ f fs, boots = f :: fs ∧ fn = f.name ∧ f.started = true ∧ s = run (step single) init f.acts

/-- the board after some boots, from the disk `d0` -/
structure Stored (d0 : F.Disk) (b : Board F) : Prop where
  phase : b.phase.Of single b.boots
  idle : ∀ f ∈ b.boots, f.started = false → f.acts = []
  logs : ∀ f ∈ b.boots, F.read b.disk f.name = some (run (step single) init f.acts).file
  fresh : ∀ f ∈ b.boots, F.read d0 f.name = none
  order : b.boots.Pairwise fun f g => g.number < f.number
  others : ∀ m, (∀ f ∈ b.boots, f.name ≠ m) → F.read b.disk m = F.read d0 m
  /-- the numbers below that of a boot are in use -/
  used : ∀ f ∈ b.boots, ∀ j < f.number, ∃ bytes, F.read b.disk (dataName j) = some bytes

theorem start_stored (d0 : F.Disk) : Stored single d0 ⟨d0, .off, []⟩ :=
  ⟨trivial, by simp, by simp, by simp, List.Pairwise.nil, fun _ _ => rfl, by simp⟩

variable {single}

theorem name_ne {f g : Boot} (h : g.number < f.number) : g.name ≠ f.name := by
  intro heq
  exact absurd (dataName_injective heq) h.ne

/-- what stops the board changes nothing else -/
theorem Stored.to_phase {d0 : F.Disk} {b : Board F} (h : Stored single d0 b) {p : Phase}
    (hp : p.Of single b.boots) : Stored single d0 { b with phase := p } :=
  ⟨hp, h.idle, h.logs, h.fresh, h.order, h.others, h.used⟩

/-- the numbers of the boots lie below one that is not in use -/
theorem Stored.below (hF : F.Lawful) {d0 : F.Disk} {b : Board F} (h : Stored single d0 b) {k : ℕ}
    (hnew : F.existsFile b.disk (dataName k) = false) : ∀ f ∈ b.boots, f.number < k := by
  intro f hf
  by_contra hge
  have hread : ∃ bytes, F.read b.disk (dataName k) = some bytes := by
    rcases Nat.lt_or_eq_of_le (not_lt.1 hge) with hlt | rfl
    · exact h.used f hf k hlt
    · exact ⟨_, h.logs f hf⟩
  rw [(hF.exists_iff b.disk (dataName k)).2 hread] at hnew
  cases hnew

theorem file_stored (hF : F.Lawful) {d0 d : F.Disk} {b : Board F} (h : Stored single d0 b) {n i k : ℕ}
    (hfind : search F b.disk n = some (i, dataName k)) (hopen : F.openWrite b.disk (dataName k) = some d) :
    Stored single d0 ⟨d, .made (dataName k), ⟨k, false, []⟩ :: b.boots⟩ := by
  obtain ⟨k', hk', hnew, hused⟩ := search_spec hfind
  obtain rfl := dataName_injective hk'
  have hnone : F.read b.disk (dataName k) = none := by
    cases hr : F.read b.disk (dataName k) with
    | none => rfl
    | some bytes =>
      rw [(hF.exists_iff b.disk (dataName k)).2 ⟨bytes, hr⟩] at hnew
      cases hnew
  have hbelow := h.below hF hnew
  have hself : F.read d (dataName k) = some [] := by
    have hopened := hF.open_self b.disk (dataName k) d hopen
    rwa [hnone, Option.getD_none] at hopened
  have hother : ∀ m, m ≠ dataName k → F.read d m = F.read b.disk m := fun m hm =>
    hF.open_other b.disk (dataName k) d m hopen hm
  refine ⟨⟨_, _, rfl, rfl, rfl⟩, ?_, ?_, ?_, ?_, ?_, ?_⟩
  · intro f hf hno
    rcases List.mem_cons.1 hf with rfl | hf
    · rfl
    · exact h.idle f hf hno
  · intro f hf
    rcases List.mem_cons.1 hf with rfl | hf
    · exact hself
    · rw [hother _ (name_ne (f := ⟨k, false, []⟩) (hbelow f hf))]
      exact h.logs f hf
  · intro f hf
    rcases List.mem_cons.1 hf with rfl | hf
    · rw [← h.others _ fun f hf => name_ne (f := ⟨k, false, []⟩) (hbelow f hf)]
      exact hnone
    · exact h.fresh f hf
  · exact List.Pairwise.cons hbelow h.order
  · intro m hm
    rw [hother m fun heq => hm ⟨k, false, []⟩ List.mem_cons_self heq.symm]
    exact h.others m fun f hf => hm f (List.mem_cons_of_mem _ hf)
  · intro f hf j hj
    have hjk : j < k := by
      rcases List.mem_cons.1 hf with rfl | hf
      · exact hj
      · exact hj.trans (hbelow f hf)
    rw [hother _ fun heq => absurd (dataName_injective heq) hjk.ne]
    exact (hF.exists_iff b.disk (dataName j)).1 (hused j hjk)

/-- The last boot `f` goes on as `f'`, under the same number, and only its file may have changed. -/
theorem Stored.go_on {d0 d : F.Disk} {b : Board F} (h : Stored single d0 b) {f f' : Boot} {fs : List Boot} {p : Phase}
    (hlast : b.boots = f :: fs) (hname : f'.number = f.number) (hidle : f'.started = false → f'.acts = [])
    (hp : p.Of single (f' :: fs)) (hself : F.read d f.name = some (run (step single) init f'.acts).file)
    (hother : ∀ m, m ≠ f.name → F.read d m = F.read b.disk m) : Stored single d0 ⟨d, p, f' :: fs⟩ := by
  have hname' : f'.name = f.name := by rw [Boot.name, hname, Boot.name]
  have hmem : f ∈ b.boots := by
    rw [hlast]
    exact List.mem_cons_self
  have hrest : ∀ g ∈ fs, g ∈ b.boots := by
    intro g hg
    rw [hlast]
    exact List.mem_cons_of_mem f hg
  have horder := h.order
  rw [hlast] at horder
  obtain ⟨hbelow, horder⟩ := List.pairwise_cons.1 horder
  refine ⟨hp, ?_, ?_, ?_, ?_, ?_, ?_⟩
  · intro g hg
    rcases List.mem_cons.1 hg with rfl | hg
    · exact hidle
    · exact h.idle g (hrest g hg)
  · intro g hg
    rcases List.mem_cons.1 hg with rfl | hg
    · rw [hname']
      exact hself
    · rw [hother _ (name_ne (hbelow g hg))]
      exact h.logs g (hrest g hg)
  · intro g hg
    rcases List.mem_cons.1 hg with rfl | hg
    · rw [hname']
      exact h.fresh f hmem
    · exact h.fresh g (hrest g hg)
  · exact List.Pairwise.cons (fun g hg => by rw [hname]; exact hbelow g hg) horder
  · intro m hm
    have hmf : f.name ≠ m := by
      rw [← hname']
      exact hm f' List.mem_cons_self
    rw [hother m hmf.symm]
    apply h.others
    intro g hg
    rw [hlast] at hg
    rcases List.mem_cons.1 hg with rfl | hg
    · exact hmf
    · exact hm g (List.mem_cons_of_mem _ hg)
  · intro g hg j hj
    have hused : ∃ bytes, F.read b.disk (dataName j) = some bytes := by
      rcases List.mem_cons.1 hg with rfl | hg
      · rw [hname] at hj
        exact h.used f hmem j hj
      · exact h.used g (hrest g hg) j hj
    rcases eq_or_ne (dataName j) f.name with heq | hne
    · exact ⟨_, by rw [heq]; exact hself⟩
    · rwa [hother _ hne]

theorem tasks_stored {d0 : F.Disk} {b : Board F} (h : Stored single d0 b) {f : Boot} {fs : List Boot} {fn : List Char}
    (hmade : b.phase = .made fn) (hlast : b.boots = f :: fs) :
    Stored single d0 ⟨b.disk, .running fn init, { f with started := true } :: fs⟩ := by
  have hphase := h.phase
  rw [hmade] at hphase
  obtain ⟨f', fs', hlast', hfn, hno⟩ := hphase
  rw [hlast] at hlast'
  obtain ⟨rfl, rfl⟩ := List.cons.inj hlast'
  have hmem : f ∈ b.boots := by
    rw [hlast]
    exact List.mem_cons_self
  have hacts : f.acts = [] := h.idle f hmem hno
  exact h.go_on hlast rfl nofun ⟨_, _, rfl, hfn, rfl, by rw [hacts]; rfl⟩ (h.logs f hmem) fun _ _ => rfl

theorem task_stored (hF : F.Lawful) {d0 : F.Disk} {b : Board F} (h : Stored single d0 b) {f : Boot}
    {fs : List Boot} {fn : List Char} {s : St} {a : Act} (hon : b.phase = .running fn s)
    (hlast : b.boots = f :: fs) (hopen : OpensAs F b.disk fn a) :
    Stored single d0
      ⟨writeDisk F b.disk fn s a, .running fn (step single s a), { f with acts := f.acts ++ [a] } :: fs⟩ := by
  have hphase := h.phase
  rw [hon] at hphase
  obtain ⟨f', fs', hlast', hfn, hstarted, hs⟩ := hphase
  rw [hlast] at hlast'
  obtain ⟨rfl, rfl⟩ := List.cons.inj hlast'
  have hrun : step single s a = run (step single) init (f.acts ++ [a]) := by rw [run_snoc, hs]
  have hlog : F.read b.disk fn = some s.file := by
    rw [hfn, hs]
    exact h.logs f (by rw [hlast]; exact List.mem_cons_self)
  have hself : F.read (writeDisk F b.disk fn s a) fn = some (step single s a).file :=
    read_writeDisk single hF hlog hopen
  refine h.go_on hlast rfl ?_ ⟨_, _, rfl, hfn, hstarted, hrun⟩ ?_ ?_
  · intro hno
    rw [hstarted] at hno
    cases hno
  · rw [← hfn, hself, hrun]
  · intro m hm
    exact read_other hF (by rw [hfn]; exact hm) s a

theorem step_stored (hF : F.Lawful) {d0 : F.Disk} (b : Board F) (a : BoardAct) (c : Board F)
    (h : Stored single d0 b) (hs : BoardStep F single b a c) : Stored single d0 c := by
  cases hs with
  | noChip hoff => exact h.to_phase trivial
  | noFile hoff hfind hopen => exact h.to_phase trivial
  | file hoff hfind hopen => exact file_stored hF h hfind hopen
  | noSensor hmade => exact h.to_phase trivial
  | tasks hmade hlast => exact tasks_stored h hmade hlast
  | task hon hlast hopen => exact task_stored hF h hon hlast hopen
  | powerOff => exact h.to_phase trivial

/-- **Every flight keeps its log.** Take any disk and any sequence of boots, steps of the tasks and losses of power,
with every flush copying inside the buffers. Every boot that gets past the search makes a file of its own, which the
disk did not have before; the numbers of the files increase from boot to boot, and the names fit their buffer. Each of
these files holds what the flushes of its flight wrote, packet by packet, and is empty if the tasks of its boot did not
start. Every other file is as it was at the start, and the search of the next boot ends, at a name that is not in use.
-/
theorem flights_kept (hF : F.Lawful) (single : ℚ → UInt32) (d0 : F.Disk) (as : List BoardAct) (b : Board F)
    (h : Trace (BoardStep F single) ⟨d0, .off, []⟩ as b)
    (hfits : ∀ f ∈ b.boots, Along (step single) CopyFits init f.acts) :
    (∀ f ∈ b.boots, F.read d0 f.name = none ∧
        F.read b.disk f.name = some (logBytes single (finishedPasses single f.acts) (outcomes single init f.acts)) ∧
        (f.started = false → F.read b.disk f.name = some []) ∧ (f.number < 2 ^ 31 → f.name.length + 1 ≤ 20)) ∧
      b.boots.Pairwise (fun f g => g.number < f.number) ∧
      (∀ m, (∀ f ∈ b.boots, f.name ≠ m) → F.read b.disk m = F.read d0 m) ∧
      ∃ n i k, search F b.disk n = some (i, dataName k) ∧ F.existsFile b.disk (dataName k) = false ∧
        ∀ f ∈ b.boots, f.number < k := by
  have hst : Stored single d0 b := trace_inv (step_stored hF) h (start_stored single d0)
  refine ⟨?_, hst.order, hst.others, ?_⟩
  · intro f hf
    have hlog := hst.logs f hf
    refine ⟨hst.fresh f hf, ?_, ?_, dataName_fits⟩
    · rw [hlog, run_logBytes single f.acts (hfits f hf)]
    · intro hno
      rw [hlog, hst.idle f hf hno]
      rfl
  · obtain ⟨n, ⟨i, fn⟩, hfind⟩ := search_total hF b.disk
    obtain ⟨k, rfl, hnew, hused⟩ := search_spec hfind
    exact ⟨n, i, k, hfind, hnew, hst.below hF hnew⟩

/-- on a disk on which every open succeeds, the next boot makes its file -/
theorem table_file (single : ℚ → UInt32) {b : Board Files.table} (hoff : b.phase = .off) :
    ∃ k d, BoardStep Files.table single b .setup ⟨d, .made (dataName k), ⟨k, false, []⟩ :: b.boots⟩ := by
  obtain ⟨n, ⟨i, fn⟩, hfind⟩ := search_total Files.table_lawful b.disk
  obtain ⟨k, rfl, -, -⟩ := search_spec hfind
  exact ⟨k, _, .file hoff hfind rfl⟩

/-- and the tasks run, with every open a success -/
theorem table_tasks (single : ℚ → UInt32) (acts : List Act)
    (hopen : ∀ opened past, Act.writeFlash opened past ∈ acts → opened = true) (d : Files.Table) (fn : List Char)
    (s : St) (f : Boot) (fs : List Boot) :
    ∃ d', Trace (BoardStep Files.table single) ⟨d, .running fn s, f :: fs⟩ (acts.map .task)
      ⟨d', .running fn (run (step single) s acts), { f with acts := f.acts ++ acts } :: fs⟩ := by
  induction acts generalizing d s f with
  | nil => exact ⟨d, by rw [List.append_nil]; exact .nil _⟩
  | cons a acts ih =>
    have hfirst : OpensAs Files.table d fn a := by
      cases a with
      | loop r => trivial
      | writeFlash opened past => exact hopen opened past List.mem_cons_self
      | writeRadio => trivial
    obtain ⟨d', htrace⟩ := ih (fun opened past hm => hopen opened past (List.mem_cons_of_mem a hm))
      (writeDisk Files.table d fn s a) (step single s a) { f with acts := f.acts ++ [a] }
    rw [List.append_assoc] at htrace
    exact ⟨d', .cons (.task rfl rfl hfirst) htrace⟩

/-- an empty chip: a boot without its IMU, a boot that flies and flushes once, and a third boot -/
theorem flights_kept_thrice :
    ∃ (b : Board Files.table) (i j k : ℕ),
      Trace (BoardStep Files.table padSingle) ⟨Files.Table.empty, .off, []⟩
        ([.setup, .sensors, .powerOff, .setup, .sensors] ++ (passesThenFlush 28).map .task ++ [.powerOff, .setup]) b ∧
        b.boots = [⟨k, false, []⟩, ⟨j, true, passesThenFlush 28⟩, ⟨i, false, []⟩] ∧ i < j ∧ j < k ∧
        Files.table.read b.disk (dataName i) = some [] ∧
        ∃ bytes, Files.table.read b.disk (dataName j) = some bytes ∧ bytes.length = 1961 := by
  obtain ⟨i, d1, h1⟩ := table_file padSingle (b := ⟨Files.Table.empty, .off, []⟩) rfl
  obtain ⟨j, d2, h2⟩ := table_file padSingle (b := ⟨d1, .off, [⟨i, false, []⟩]⟩) rfl
  obtain ⟨d3, h3⟩ := table_tasks padSingle (passesThenFlush 28) (fun _ _ hm => passesThenFlush_opens hm) d2
    (dataName j) init ⟨j, true, []⟩ [⟨i, false, []⟩]
  obtain ⟨k, d4, h4⟩ := table_file padSingle (b := ⟨d3, .off, [⟨j, true, passesThenFlush 28⟩, ⟨i, false, []⟩]⟩) rfl
  have htrace := trace_append.2 ⟨_, trace_append.2 ⟨_, .cons h1 (.cons (.noSensor rfl) (.cons .powerOff (.cons h2
    (.cons (.tasks rfl rfl) (.nil _))))), h3⟩, .cons .powerOff (.cons h4 (.nil _))⟩
  obtain ⟨hfits, houts⟩ := passesThenFlush_fits padSingle
  have hkept := flights_kept Files.table_lawful padSingle Files.Table.empty _ _ htrace (by
    intro f hf
    simp only [List.mem_cons, List.not_mem_nil, or_false] at hf
    rcases hf with rfl | rfl | rfl
    · exact along_nil _ _ _
    · exact hfits
    · exact along_nil _ _ _)
  obtain ⟨hfiles, horder, -⟩ := hkept
  have hi := (hfiles ⟨i, false, []⟩ (by simp)).2.2.1 rfl
  have hj := (hfiles ⟨j, true, passesThenFlush 28⟩ (by simp)).2.1
  have hcount : 28 * [true].length ≤ (finishedPasses padSingle (passesThenFlush 28)).length := by
    rw [passesThenFlush_passes]
    decide
  have hlen := logBytes_length padSingle hcount
  simp only [List.pairwise_cons, List.mem_cons, List.not_mem_nil, or_false] at horder
  refine ⟨_, i, j, k, htrace, rfl, ?_, ?_, hi, _, hj, ?_⟩
  · exact horder.2.1 _ rfl
  · exact horder.1 _ (Or.inl rfl)
  · rw [houts]
    exact hlen

end

end NuStars.Avionics
