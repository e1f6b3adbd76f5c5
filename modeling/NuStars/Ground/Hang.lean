/-
When the ground receiver hangs. The search loops go on past the end of the queue, so `loop()` never returns once 140
bytes are queued without a recognisable tag that has 70 bytes behind its space byte; "only call this after checking
queue sz" is then broken at the first pop of an empty queue.

- `returns_iff`: one call. `loop()` returns, and pops nothing from an empty queue, exactly when `TagInReach` holds of
  the queue contents and the message;
- `never_hangs_iff`: whole runs, from the state `setup()` leaves over any block;
- `zeros_hang`: two messages of 70 zero bytes hang it.
-/
import NuStars.Ground.Line

namespace NuStars.Ground

open NuStars.Run

theorem TagAt.mem {q rest : List UInt8} (h : TagAt q rest) : chN ∈ q := by
  obtain ⟨junk, y, -, rfl⟩ := h
  simp

/-- no returning call has popped an empty queue -/
theorem reached_refines {mem : UInt8 → UInt8} {ms : List (List UInt8)} {g : St} {q : List UInt8}
    (h : Trace Returns (setup mem) ms g) (hq : Represents g.q q) : ∃ l, Refines g l ∧ l.queued = q := by
  obtain ⟨l, -, hl⟩ := trace_line h
  exact ⟨l, hl, represents_unique hl.rep hq⟩

theorem returns_iff {g : St} {l : Line} (h : Refines g l) (m : List UInt8) :
    (∃ g', Returns g m g' ∧ g'.underrun = false) ↔ TagInReach l.queued m := by
  rw [← step_iff_ready]
  refine ⟨?_, ?_⟩
  · rintro ⟨g', hr, -⟩
    obtain ⟨l', hs, -⟩ := returns_step h hr
    exact ⟨l', hs⟩
  · rintro ⟨l', hs⟩
    obtain ⟨g', hr, hg'⟩ := step_returns h hs
    exact ⟨g', hr, hg'.underrun⟩

/-- **When the receiver never hangs.** Over any block and any messages, every call of `loop()` returns with no pop from
an empty queue iff at each call, with the message offered, the queue has fewer than 140 bytes or has a tag the search
recognises with 70 bytes behind the tag's space byte. -/
theorem never_hangs_iff (mem : UInt8 → UInt8) (ms : List (List UInt8)) :
    (∃ g, Trace Returns (setup mem) ms g ∧ g.underrun = false) ↔
      ∀ pre m post, ms = pre ++ m :: post → ∀ g q, Trace Returns (setup mem) pre g → Represents g.q q →
        TagInReach q m := by
  refine ⟨?_, ?_⟩
  · rintro ⟨g', h, -⟩ pre m post e g q hg hq
    obtain ⟨l, hl, rfl⟩ := reached_refines hg hq
    obtain ⟨u, hu⟩ := (trace_total_iff (R := Returns) (fun _ _ _ _ => loop_det) _ _).1 ⟨g', h⟩ pre m post e g hg
    obtain ⟨l', -, hl'⟩ := returns_step hl hu
    exact (returns_iff hl m).1 ⟨u, hu, hl'.underrun⟩
  · intro h
    have htot : ∃ g, Trace Returns (setup mem) ms g := by
      rw [trace_total_iff (R := Returns) (fun _ _ _ _ => loop_det)]
      intro pre m post e g hg
      obtain ⟨l, -, hl⟩ := trace_line hg
      obtain ⟨u, hu, -⟩ := (returns_iff hl m).2 (h pre m post e g l.queued hg hl.rep)
      exact ⟨u, hu⟩
    obtain ⟨g, hg⟩ := htot
    obtain ⟨l, -, hl⟩ := trace_line hg
    exact ⟨g, hg, hl.underrun⟩

theorem zeros_stuck (mem : UInt8 → UInt8) :
    ¬ ∃ g, Trace Returns (setup mem) [List.replicate 70 0, List.replicate 70 0] g := by
  rintro ⟨g, hg⟩
  obtain ⟨l, hl, -⟩ := trace_line hg
  cases hl with
  | cons h1 h2 =>
    cases h2 with
    | cons h2 h3 =>
      cases h1 with
      | wait _ =>
        obtain ⟨rest, ht, -⟩ := (step_iff_ready _ _).1 ⟨_, h2⟩ (by simp [Line.receive, accept, packetSize])
        have hm := ht.mem
        simp [Line.receive, accept, chN] at hm
      | write body rest hbig => simp [Line.receive, packetSize] at hbig
      | drop body rest c hbig => simp [Line.receive, packetSize] at hbig

/-- **Two messages of 70 zero bytes hang the receiver**, whatever the block held -/
theorem zeros_hang :
    (∀ mem : UInt8 → UInt8, ¬ ∃ g, Trace Returns (setup mem) [List.replicate 70 0, List.replicate 70 0] g) ∧
      ¬ ∀ (mem : UInt8 → UInt8) (ms : List (List UInt8)), (∀ m ∈ ms, m.length ≤ 251) →
        ∃ g, Trace Returns (setup mem) ms g ∧ g.underrun = false := by
  refine ⟨zeros_stuck, ?_⟩
  intro h
  obtain ⟨g, hg, -⟩ := h (fun _ => 0) [List.replicate 70 0, List.replicate 70 0] (by simp)
  exact zeros_stuck _ ⟨g, hg⟩

end NuStars.Ground
