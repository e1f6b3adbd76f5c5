/-
Soundness of the ground receiver's output, for messages with arbitrary contents.

Let R be the bytes of the messages the queue accepted (`accepted`). Every frame written is a packet found in R: a span
of 70 bytes 'N', 'U', 'x', any byte, 65 bytes b, and the XOR of b. The spans of successive frames are disjoint and in
order, so no frame uses a stale byte, a byte twice, or bytes from both sides of a gap.

- `line_sound_step`: one step of the line keeps that (`Sound`);
- `output_sound`: runs of `loop()`.
-/
import NuStars.Ground.Line

namespace NuStars.Ground

open NuStars.Run

/-- at offset s.1 of R stands a packet with a right checksum and the body s.2 -/
def Span (R : List UInt8) (s : ℕ × List UInt8) : Prop :=
  s.2.length = 65 ∧ s.1 + packetSize ≤ R.length ∧
    ∃ y, (R.drop s.1).take packetSize = chN :: chU :: chX :: y :: (s.2 ++ [xorAll s.2])

theorem Span.append {R : List UInt8} {s : ℕ × List UInt8} (h : Span R s) (m : List UInt8) : Span (R ++ m) s := by
  obtain ⟨h1, h2, y, h3⟩ := h
  refine ⟨h1, by rw [List.length_append]; omega, y, ?_⟩
  rw [List.drop_append_of_le_length (by omega), List.take_append_of_le_length (by rw [List.length_drop]; omega), h3]

/-- the bodies written are the bodies of disjoint spans of R in increasing order, all of them before the queued bytes -/
def Sound (l : Line) (spans : List (ℕ × List UInt8)) (past : List UInt8) : Prop :=
  l.bodies = spans.map Prod.snd ∧ l.taken = past ++ l.queued ∧ (∀ s ∈ spans, Span l.taken s) ∧
    (∀ s ∈ spans, s.1 + packetSize ≤ past.length) ∧ spans.Pairwise (fun s t => s.1 + packetSize ≤ t.1)

theorem receive_sound {l : Line} {spans : List (ℕ × List UInt8)} {past : List UInt8} (h : Sound l spans past)
    (m : List UInt8) : Sound (l.receive m) spans past := by
  unfold Line.receive
  split_ifs
  · obtain ⟨h1, h2, h3, h4, h5⟩ := h
    exact ⟨h1, by simp [h2], fun s hs => (h3 s hs).append m, h4, h5⟩
  · exact h

/-- taking bytes off the queue keeps the line sound -/
theorem sound_shift {l : Line} {spans : List (ℕ × List UInt8)} {past : List UInt8} (h : Sound l spans past)
    (front rest : List UInt8) (hq : l.queued = front ++ rest) :
    Sound { l with queued := rest } spans (past ++ front) := by
  obtain ⟨h1, h2, h3, h4, h5⟩ := h
  refine ⟨h1, by simp [h2, hq], h3, ?_, h5⟩
  intro s hs
  have := h4 s hs
  rw [List.length_append]; omega

/-- the packet taken off the queue is a span behind all earlier ones -/
theorem sound_write {l : Line} {spans : List (ℕ × List UInt8)} {past body rest : List UInt8} (h : Sound l spans past)
    (ht : TagAt l.queued (body ++ xorAll body :: rest)) (hb : body.length = 65) :
    ∃ spans' past', Sound { l with queued := rest, bodies := l.bodies ++ [body] } spans' past' := by
  obtain ⟨junk, y, -, hq⟩ := ht
  have hs := sound_shift h (junk ++ chN :: chU :: chX :: y :: (body ++ [xorAll body])) rest (by simp [hq])
  obtain ⟨h1, h2, h3, h4, h5⟩ := hs
  obtain ⟨-, -, -, h4', -⟩ := h
  refine ⟨spans ++ [(past.length + junk.length, body)], _, ?_, h2, ?_, ?_, ?_⟩
  · simpa using h1
  · intro s hs
    rcases List.mem_append.1 hs with hs | hs
    · exact h3 s hs
    · simp only [List.mem_singleton] at hs
      subst hs
      simp only at h2
      refine ⟨hb, by simp [h2, hb, packetSize]; omega, y, ?_⟩
      have hR : l.taken = (past ++ junk) ++ ((chN :: chU :: chX :: y :: (body ++ [xorAll body])) ++ rest) := by
        simp [h2]
      rw [hR, List.drop_left' (by simp), List.take_left' (by simp [hb, packetSize])]
  · intro s hs
    rcases List.mem_append.1 hs with hs | hs
    · exact h4 s hs
    · simp only [List.mem_singleton] at hs
      subst hs
      simp [hb, packetSize]; omega
  · refine List.pairwise_append.2 ⟨h5, List.pairwise_singleton _ _, fun s hs t ht => ?_⟩
    simp only [List.mem_singleton] at ht
    subst ht
    exact (h4' s hs).trans (Nat.le_add_right _ _)

theorem line_sound_step {l l' : Line} {m : List UInt8} (h : ∃ spans past, Sound l spans past) (hs : l.Step m l') :
    ∃ spans past, Sound l' spans past := by
  obtain ⟨spans, past, h⟩ := h
  have hrec := receive_sound h m
  cases hs with
  | wait _ => exact ⟨spans, past, hrec⟩
  | write body rest _ ht hb _ =>
    rw [← receive_bodies l m]
    exact sound_write hrec ht hb
  | drop body rest c _ ht _ _ _ =>
    obtain ⟨junk, y, -, hq⟩ := ht
    exact ⟨spans, _, sound_shift hrec (junk ++ chN :: chU :: chX :: y :: (body ++ [c])) rest (by simp [hq])⟩

/-- **Soundness of the ground output.** Over any block, for any messages whose `loop()` calls return, let R be the
concatenation of the messages for which `pushq` returned 1. What was written to Serial is "NUx " and the body of each
span in a list of spans of R; each span is 'N', 'U', 'x', a byte, 65 body bytes and their XOR; and every span ends
before the next one starts. -/
theorem output_sound (mem : UInt8 → UInt8) (ms : List (List UInt8)) (g : St) (h : Trace Returns (setup mem) ms g) :
    ∃ spans : List (ℕ × List UInt8), g.serial = (spans.map fun s => tag ++ s.2).flatten ∧
      spans.Pairwise (fun s t => s.1 + 70 ≤ t.1) ∧
      ∀ s ∈ spans, s.2.length = 65 ∧ s.1 + 70 ≤ g.accepted.length ∧
        ∃ y, (g.accepted.drop s.1).take 70 = chN :: chU :: chX :: y :: (s.2 ++ [xorAll s.2]) := by
  obtain ⟨l, hl, hg⟩ := trace_line h
  obtain ⟨spans, past, h1, -, h3, -, h5⟩ :=
    trace_inv (I := fun l => ∃ spans past, Sound l spans past) (fun _ _ _ hs ht => line_sound_step hs ht) hl
      ⟨[], [], rfl, rfl, by simp, by simp, List.Pairwise.nil⟩
  refine ⟨spans, ?_, h5, ?_⟩
  · rw [hg.serial, h1, List.map_map]
    rfl
  · rw [hg.accepted]
    exact h3

/-- a packet with zero fields, sent twice: the first copy is written -/
theorem output_sound_run :
    ∃ g, Trace Returns (setup fun _ => 0xFF) [tag ++ List.replicate 66 0, tag ++ List.replicate 66 0] g ∧
      ∃ spans : List (ℕ × List UInt8), g.serial = (spans.map fun s => tag ++ s.2).flatten ∧
        spans.Pairwise (fun s t => s.1 + 70 ≤ t.1) ∧
        ∀ s ∈ spans, s.2.length = 65 ∧ s.1 + 70 ≤ g.accepted.length ∧
          ∃ y, (g.accepted.drop s.1).take 70 = chN :: chU :: chX :: y :: (s.2 ++ [xorAll s.2]) := by
  have h1 : Line.Step ⟨[], [], []⟩ (tag ++ List.replicate 66 0) _ := .wait (by decide)
  have h2 : Line.Step (Line.receive ⟨[], [], []⟩ (tag ++ List.replicate 66 0)) (tag ++ List.replicate 66 0) _ :=
    .write (List.replicate 65 0) (tag ++ List.replicate 66 0) (by decide)
      ⟨[], chSpace, .nil, by decide +kernel⟩ (by decide) (by decide)
  obtain ⟨g, hg, -⟩ := line_trace (fun _ => 0xFF) (.cons h1 (.cons h2 (.nil _)))
  exact ⟨g, hg, output_sound _ _ g hg⟩

end NuStars.Ground
