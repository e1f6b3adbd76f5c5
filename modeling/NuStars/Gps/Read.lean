/-
Putting lines together from the GPS, byte by byte (Adafruit_GPS.cpp, and its use in `loop()`, avionics.ino).

An iteration of `loop()` reads at most one byte. A newline ends the line: `read` writes the zero byte behind it,
exchanges the two buffers and sets `recvdflag`, and `loop()` parses the line in the same iteration. The newline itself
is stored as the first byte of the next line. `lineidx` stops at the last byte of the buffer, which then takes every
further byte of the line and at last its zero byte, so of a long line the first 119 bytes are kept.

- `tick_holds`: what one iteration does, in three cases;
- `lines_parsed`: every line is parsed exactly once, in order, and no access leaves the buffers.
-/
import NuStars.Core.Run
import NuStars.Packet

namespace NuStars.Gps

open NuStars.Run

/-! ## Model -/

/-- `#define MAXLINELENGTH 120` -/
def maxLineLength : ℕ := 120

/-- '\n' -/
def chNewline : UInt8 := 0x0A

/-- what `currentline` and `lastline` point to -/
inductive Buffer where
  | line1
  | line2
deriving DecidableEq, Repr

structure St where
  /-- `line1` and `line2` -/
  line : Buffer → List UInt8
  lineidx : ℕ
  currentline : Buffer
  lastline : Buffer
  recvdflag : Bool
  paused : Bool

/-- the state after `common_init` -/
def commonInit : St where
  line _ := List.replicate maxLineLength 0
  lineidx := 0
  currentline := .line1
  lastline := .line2
  recvdflag := false
  paused := false

/-- `currentline[lineidx] = b` -/
def St.store (s : St) (b : UInt8) : St :=
  { s with line := Function.update s.line s.currentline ((s.line s.currentline).set s.lineidx b) }

/-- the body of `if (c == '\n')` -/
def St.endLine (s : St) : St :=
  { s.store 0 with
    currentline := if s.currentline = .line1 then .line2 else .line1
    lastline := if s.currentline = .line1 then .line1 else .line2
    lineidx := 0
    recvdflag := true }

/-- `currentline[lineidx++] = c`, and the test behind it -/
def St.append (s : St) (c : UInt8) : St :=
  let s := s.store c
  { s with lineidx := if s.lineidx + 1 ≥ maxLineLength then maxLineLength - 1 else s.lineidx + 1 }

/-- `read()`, with the byte the serial port has, if any -/
def read (s : St) (serial : Option UInt8) : St × UInt8 :=
  if s.paused then (s, 0)
  else
    match serial with
    | none => (s, 0)
    | some c => ((if c = chNewline then s.endLine else s).append c, c)

def lastNMEA (s : St) : St × List UInt8 := ({ s with recvdflag := false }, s.line s.lastline)

/-- the GPS in one iteration of `loop()`: the buffer that goes to `parse`, if any -/
def tick (s : St) (serial : Option UInt8) : St × Option (List UInt8) :=
  let s := (read s serial).1
  if s.recvdflag then ((lastNMEA s).1, some (lastNMEA s).2) else (s, none)

/-- the buffers that go to `parse` in a run -/
def parsed (s : St) (as : List (Option UInt8)) : List (List UInt8) :=
  observed (fun s a => (tick s a).1) (fun s a => (tick s a).2) s as

/-! ## Lines -/

/-- the lines that end in `bytes`, the first of them begun with `line`; a newline begins the line behind it -/
def lines (line : List UInt8) : List UInt8 → List (List UInt8)
  | [] => []
  | b :: bytes => if b = chNewline then line :: lines [chNewline] bytes else lines (line ++ [b]) bytes

/-- the line that has not ended -/
def openLine (line : List UInt8) : List UInt8 → List UInt8
  | [] => line
  | b :: bytes => if b = chNewline then openLine [chNewline] bytes else openLine (line ++ [b]) bytes

/-- the lines are the bytes received, cut before each newline -/
theorem lines_flatten (line bytes : List UInt8) : (lines line bytes).flatten ++ openLine line bytes = line ++ bytes := by
  fun_induction lines line bytes with
  | case1 line => simp [openLine]
  | case2 line bytes ih => simp [openLine, ih]
  | case3 line b bytes hb ih => simp [openLine, hb, ih]

/-- a buffer with a line: its first 119 bytes and a zero byte -/
def IsLine (buf line : List UInt8) : Prop := buf.length = maxLineLength ∧ ∃ rest, buf = line.take 119 ++ 0 :: rest

/-! ## One iteration -/

/-- between two iterations, with `line` received since the last newline -/
structure Holds (s : St) (line : List UInt8) : Prop where
  idx : s.lineidx = min line.length 119
  text : (s.line s.currentline).take s.lineidx = line.take 119
  size : ∀ b, (s.line b).length = maxLineLength
  flag : s.recvdflag = false
  running : s.paused = false

theorem commonInit_holds : Holds commonInit [] :=
  ⟨rfl, rfl, fun _ => List.length_replicate, rfl, rfl⟩

section
variable {s : St} {line : List UInt8}

theorem store_line (b : UInt8) :
    (s.store b).line s.currentline = (s.line s.currentline).set s.lineidx b := Function.update_self _ _ _

theorem store_size (h : ∀ b, (s.line b).length = maxLineLength) (c : UInt8) (b : Buffer) :
    ((s.store c).line b).length = maxLineLength := by
  rcases eq_or_ne b s.currentline with rfl | hne
  · rw [store_line, List.length_set, h]
  · have hother : (s.store c).line b = s.line b := Function.update_of_ne hne _ _
    rw [hother, h]

/-- a byte that is no newline -/
theorem append_holds (h : Holds s line) (c : UInt8) : Holds (s.append c) (line ++ [c]) := by
  have hidx : (s.append c).lineidx = min (line.length + 1) 119 := by
    show (if s.lineidx + 1 ≥ maxLineLength then maxLineLength - 1 else s.lineidx + 1) = _
    rw [h.idx]
    unfold maxLineLength
    split_ifs <;> omega
  refine ⟨?_, ?_, store_size h.size c, h.flag, h.running⟩
  · rw [hidx, List.length_append]
    rfl
  · have hline : (s.append c).line (s.append c).currentline = (s.line s.currentline).set s.lineidx c :=
      store_line (s := s) c
    rw [hline, hidx]
    have htext := h.text
    rw [h.idx] at htext ⊢
    rcases Nat.lt_or_ge line.length 119 with hlt | hge
    · have hin : line.length < (s.line s.currentline).length := by
        rw [h.size]
        exact hlt.trans (by decide)
      rw [Nat.min_eq_left hlt.le] at htext ⊢
      rw [Nat.min_eq_left hlt, List.take_succ_eq_append_getElem (by rw [List.length_set]; exact hin),
        List.getElem_set_self, List.take_set_of_le le_rfl, htext, List.take_of_length_le hlt.le,
        List.take_of_length_le (by rw [List.length_append]; exact hlt)]
    · -- the byte goes behind the 119 that are kept
      rw [Nat.min_eq_right hge] at htext ⊢
      rw [Nat.min_eq_right (Nat.le_succ_of_le hge), List.take_set_of_le le_rfl, htext,
        List.take_append_of_le_length hge]

/-- a newline ends the line … -/
theorem endLine_isLine (h : Holds s line) : IsLine (s.endLine.line s.endLine.lastline) line := by
  have hlast : s.endLine.lastline = s.currentline := by
    show (if s.currentline = .line1 then Buffer.line1 else .line2) = _
    cases s.currentline <;> rfl
  have hline : s.endLine.line s.currentline = (s.line s.currentline).set s.lineidx 0 := store_line 0
  have hin : s.lineidx < (s.line s.currentline).length := by
    rw [h.idx, h.size]
    exact (Nat.min_le_right _ _).trans_lt (by decide)
  rw [hlast, hline]
  refine ⟨by rw [List.length_set, h.size], (s.line s.currentline).drop (s.lineidx + 1), ?_⟩
  rw [List.set_eq_take_append_cons_drop, if_pos hin, h.text]

/-- … in the buffer that the next line does not go to -/
theorem append_lastline (c : UInt8) :
    (s.endLine.append c).line (s.endLine.append c).lastline = s.endLine.line s.endLine.lastline := by
  refine Function.update_of_ne ?_ _ _
  show (if s.currentline = .line1 then Buffer.line1 else .line2) ≠ if s.currentline = .line1 then .line2 else .line1
  cases s.currentline <;> decide

theorem endLine_holds (h : Holds s line) : Holds (lastNMEA s.endLine).1 [] :=
  ⟨rfl, rfl, store_size h.size 0, rfl, h.running⟩

/-- what an iteration does -/
theorem tick_holds (h : Holds s line) (serial : Option UInt8) :
    match serial with
    | none => (tick s none).2 = none ∧ Holds (tick s none).1 line
    | some c =>
      if c = chNewline then
        (∃ buf, (tick s (some c)).2 = some buf ∧ IsLine buf line) ∧ Holds (tick s (some c)).1 [chNewline]
      else (tick s (some c)).2 = none ∧ Holds (tick s (some c)).1 (line ++ [c]) := by
  cases serial with
  | none =>
    have htick : tick s none = (s, none) := by simp [tick, read, h.flag]
    show (tick s none).2 = none ∧ Holds (tick s none).1 line
    rw [htick]
    exact ⟨rfl, h⟩
  | some c =>
    by_cases hc : c = chNewline
    · have htick : tick s (some c) = ((lastNMEA (s.endLine.append c)).1, some (lastNMEA (s.endLine.append c)).2) := by
        have hread : (read s (some c)).1 = s.endLine.append c := by simp [read, h.running, hc]
        rw [tick, hread]
        rfl
      simp only [if_pos hc]
      rw [htick]
      refine ⟨⟨_, rfl, ?_⟩, ?_⟩
      · rw [lastNMEA, append_lastline]
        exact endLine_isLine h
      · have hnext := append_holds (endLine_holds h) c
        rw [hc] at hnext ⊢
        exact ⟨hnext.idx, hnext.text, hnext.size, rfl, hnext.running⟩
    · have hnext := append_holds h c
      have htick : tick s (some c) = (s.append c, none) := by
        simp [tick, read, h.running, hc, hnext.flag]
      simp only [if_neg hc]
      rw [htick]
      exact ⟨rfl, hnext⟩

end

/-! ## Runs -/

theorem run_lines {s : St} {line : List UInt8} (h : Holds s line) (as : List (Option UInt8)) :
    List.Forall₂ IsLine (parsed s as) (lines line (as.filterMap id)) ∧
      Holds (run (fun s a => (tick s a).1) s as) (openLine line (as.filterMap id)) := by
  induction as generalizing s line with
  | nil => exact ⟨List.Forall₂.nil, h⟩
  | cons a as ih =>
    have htick := tick_holds h a
    rw [parsed, observed, run_cons]
    cases a with
    | none =>
      obtain ⟨hout, hnext⟩ := htick
      rw [hout]
      exact ih hnext
    | some c =>
      by_cases hc : c = chNewline
      · simp only [if_pos hc] at htick
        obtain ⟨⟨buf, hout, hbuf⟩, hnext⟩ := htick
        obtain ⟨hall, hrun⟩ := ih hnext
        simp only [hout, Option.toList_some, List.filterMap_cons, id, lines, openLine, if_pos hc]
        exact ⟨List.Forall₂.cons hbuf hall, hrun⟩
      · simp only [if_neg hc] at htick
        obtain ⟨hout, hnext⟩ := htick
        obtain ⟨hall, hrun⟩ := ih hnext
        simp only [hout, Option.toList_none, List.filterMap_cons, id, lines, openLine, if_neg hc]
        exact ⟨hall, hrun⟩

/-- **Every line goes to `parse` once.** However the bytes of the GPS fall into the iterations of `loop()`, the
buffers that go to `parse` are the lines that have ended, in order: the bytes received, cut before each newline, each
of them with its first 119 bytes and a zero byte behind them. `lineidx` stays inside the buffers. -/
theorem lines_parsed (as : List (Option UInt8)) :
    let bytes := as.filterMap id
    List.Forall₂ IsLine (parsed commonInit as) (lines [] bytes) ∧
      (lines [] bytes).flatten ++ openLine [] bytes = bytes ∧
      (run (fun s a => (tick s a).1) commonInit as).lineidx < maxLineLength := by
  intro bytes
  obtain ⟨hall, hrun⟩ := run_lines commonInit_holds as
  refine ⟨hall, lines_flatten [] bytes, ?_⟩
  rw [hrun.idx]
  exact (Nat.min_le_right _ _).trans_lt (by decide)

end NuStars.Gps
