/-
The line protocol the ground receiver implements, over lists of bytes, and the proof that `loop()` and the line simulate
each other.

A line (`Line`) holds the queued bytes, everything accepted so far, and the packet bodies written. One message takes one
`Line.Step`: the line waits for more bytes, or it skips junk up to a tag and takes one packet off, which it writes or
drops according to its checksum. There is no step when the queue holds 140 bytes and no tag with 70 bytes behind it;
`loop()` never returns then.

Results:
- `returns_step`, `step_returns`: every return of `loop()` is a step of the line and every step a return (`Refines`);
- `trace_line`, `line_trace`: the same for whole runs from the state `setup()` leaves;
- `step_iff_ready`: the states and messages that have a step.
-/
import NuStars.Ground.Receiver

namespace NuStars.Ground

open NuStars.Loop NuStars.Run

/-! ## The line -/

structure Line where
  queued : List UInt8
  taken : List UInt8
  /-- the bodies of the packets written, oldest first -/
  bodies : List (List UInt8)
deriving DecidableEq, Repr

/-- a message is taken whole when it fits into 255 bytes and refused whole otherwise -/
def Line.receive (l : Line) (m : List UInt8) : Line :=
  if l.queued.length + m.length ≤ 255 then { l with queued := l.queued ++ m, taken := l.taken ++ m } else l

inductive Line.Step (l : Line) (m : List UInt8) : Line → Prop where
  | wait : (l.receive m).queued.length < 2 * packetSize → Line.Step l m (l.receive m)
  | write (body rest : List UInt8) : 2 * packetSize ≤ (l.receive m).queued.length →
      TagAt (l.receive m).queued (body ++ xorAll body :: rest) → body.length = 65 → 4 ≤ rest.length →
      Line.Step l m { l.receive m with queued := rest, bodies := l.bodies ++ [body] }
  | drop (body rest : List UInt8) (c : UInt8) : 2 * packetSize ≤ (l.receive m).queued.length →
      TagAt (l.receive m).queued (body ++ c :: rest) → body.length = 65 → 4 ≤ rest.length → xorAll body ≠ c →
      Line.Step l m { l.receive m with queued := rest }

/-- the queue contents after the message m has been offered to a queue holding q -/
def accept (q m : List UInt8) : List UInt8 := if q.length + m.length ≤ 255 then q ++ m else q

theorem receive_queued (l : Line) (m : List UInt8) : (l.receive m).queued = accept l.queued m := by
  unfold Line.receive accept
  split_ifs <;> rfl

@[simp] theorem receive_bodies (l : Line) (m : List UInt8) : (l.receive m).bodies = l.bodies := by
  unfold Line.receive
  split_ifs <;> rfl

/-- with m offered, a queue holding q has fewer than 140 bytes, or it has a tag the search recognises with at least 70
bytes behind the tag's space byte -/
def TagInReach (q m : List UInt8) : Prop :=
  2 * packetSize ≤ (accept q m).length → ∃ rest, TagAt (accept q m) rest ∧ packetSize ≤ rest.length

theorem step_iff_ready (l : Line) (m : List UInt8) : (∃ l', l.Step m l') ↔ TagInReach l.queued m := by
  rw [TagInReach, ← receive_queued]
  refine ⟨?_, ?_⟩
  · rintro ⟨l', h⟩ hbig
    cases h with
    | wait hsmall => omega
    | write body rest _ ht hb hr => exact ⟨_, ht, by simp [packetSize]; omega⟩
    | drop body rest c _ ht hb hr => exact ⟨_, ht, by simp [packetSize]; omega⟩
  · intro h
    rcases Nat.lt_or_ge (l.receive m).queued.length (2 * packetSize) with hsmall | hbig
    · exact ⟨_, .wait hsmall⟩
    · obtain ⟨rest, ht, hlen⟩ := h hbig
      simp only [packetSize] at hlen
      have hsplit : rest = rest.take 65 ++ rest[65] :: rest.drop 66 := by
        rw [← List.drop_eq_getElem_cons (by omega), List.take_append_drop]
      rw [hsplit] at ht
      by_cases hc : xorAll (rest.take 65) = rest[65]
      · rw [← hc] at ht
        exact ⟨_, .write _ _ hbig ht (by simp; omega) (by simp; omega)⟩
      · exact ⟨_, .drop _ _ _ hbig ht (by simp; omega) (by simp; omega) hc⟩

/-! ## The blocks of loop() -/

theorem readBuf_spec {g0 g : St} {body q : List UInt8} (h : Holding g0 (body ++ q) g) (c : UInt8)
    (buf : List UInt8) :
    ∃ g', readBuf body.length c buf g = (c ^^^ xorAll body, buf ++ body, g') ∧ Holding g0 q g' := by
  induction body generalizing g c buf with
  | nil => exact ⟨g, by simp [readBuf], h⟩
  | cons b body ih =>
    obtain ⟨hb, hq⟩ := popq_holding h
    obtain ⟨g', hr, hg'⟩ := ih hq (c ^^^ b) (buf ++ [b])
    refine ⟨g', ?_, hg'⟩
    simp only [List.length_cons, readBuf, hb, hr, xorAll_cons, UInt8.xor_assoc, List.append_assoc,
      List.singleton_append]

theorem readPacket_spec {g0 g : St} {body rest : List UInt8} {c : UInt8} (hlen : body.length = 65)
    (h : Holding g0 (body ++ c :: rest) g) :
    Holding (if xorAll body = c then { g0 with serial := g0.serial ++ tag ++ body } else g0) rest (readPacket g) := by
  obtain ⟨g1, hr, h1⟩ := readBuf_spec h 0 []
  rw [hlen] at hr
  obtain ⟨hc, h2⟩ := popq_holding h1
  simp only [readPacket, packetSize, Nat.reduceSub, hr, hc, UInt8.zero_xor, List.nil_append]
  split_ifs
  · exact ⟨h2.rep, by simp [h2.serial], h2.accepted, h2.underrun⟩
  · exact h2

/-! ## Refinement -/

/-- what the receiver writes for a packet body -/
def frame (body : List UInt8) : List UInt8 := tag ++ body

structure Refines (g : St) (l : Line) : Prop where
  rep : Represents g.q l.queued
  serial : g.serial = (l.bodies.map frame).flatten
  accepted : g.accepted = l.taken
  underrun : g.underrun = false

theorem refines_setup (mem : UInt8 → UInt8) : Refines (setup mem) ⟨[], [], []⟩ :=
  ⟨represents_setup mem, rfl, rfl, rfl⟩

theorem receive_refines {g : St} {l : Line} (h : Refines g l) (m : List UInt8) :
    Refines (receive g m) (l.receive m) := by
  unfold Line.receive
  split_ifs with hfit
  · obtain ⟨h1, h2⟩ := pushq_fits h.rep hfit
    exact ⟨h2, h.serial, by simp [receive, h1, h.accepted], h.underrun⟩
  · have hr := pushq_refused h.rep (x := m) (by omega)
    refine ⟨?_, h.serial, by simp [receive, hr, h.accepted], h.underrun⟩
    simp only [receive, hr]
    exact h.rep

theorem refines_holding {g : St} {l : Line} (h : Refines g l) : Holding g l.queued g :=
  ⟨h.rep, rfl, rfl, rfl⟩

/-- the packet behind a found tag: `readPacket` writes it or drops it -/
theorem readPacket_refines {g g' : St} {l : Line} {body rest : List UInt8} {c : UInt8} (h : Refines g l)
    (hlen : body.length = 65) (hg' : Holding g (body ++ c :: rest) g') :
    Refines (readPacket g')
      (if xorAll body = c then { l with queued := rest, bodies := l.bodies ++ [body] } else { l with queued := rest }) := by
  have hp := readPacket_spec hlen hg'
  split_ifs at hp ⊢
  · refine ⟨hp.rep, ?_, hp.accepted.trans h.accepted, hp.underrun.trans h.underrun⟩
    rw [hp.serial]
    simp [h.serial, frame]
  · exact ⟨hp.rep, hp.serial.trans h.serial, hp.accepted.trans h.accepted, hp.underrun.trans h.underrun⟩

/-- **Every return of `loop()` is a step of the line.** -/
theorem returns_step {g g' : St} {l : Line} {m : List UInt8} (h : Refines g l) (hr : Returns g m g') :
    ∃ l', l.Step m l' ∧ Refines g' l' := by
  obtain ⟨fuel, hr⟩ := hr
  have hrec := receive_refines h m
  have hsz := hrec.rep.size
  simp only [loop] at hr
  split_ifs at hr with hbig
  · simp only [Option.map_eq_some_iff] at hr
    obtain ⟨p, hp, rfl⟩ := hr
    obtain ⟨hd, rest, ht, hlen, hhold⟩ := search_sound (refines_holding hrec) hp
    simp only [packetSize] at hlen hbig
    have hbig' : 2 * packetSize ≤ (l.receive m).queued.length := by simp only [packetSize]; omega
    have hsplit : rest = rest.take 65 ++ rest[65] :: rest.drop 66 := by
      rw [← List.drop_eq_getElem_cons (by omega), List.take_append_drop]
    have h65 : (rest.take 65).length = 65 := by simp; omega
    have h4 : 4 ≤ (rest.drop 66).length := by simp; omega
    rw [hsplit] at ht hhold
    have hfin := readPacket_refines hrec h65 hhold
    simp only [hd, if_true]
    split_ifs at hfin with hc
    · rw [← hc] at ht
      rw [receive_bodies] at hfin
      exact ⟨_, .write _ _ hbig' ht h65 h4, hfin⟩
    · exact ⟨_, .drop _ _ _ hbig' ht h65 h4 hc, hfin⟩
  · simp only [Option.some.injEq] at hr
    subst hr
    refine ⟨_, .wait ?_, hrec⟩
    simp only [packetSize] at hbig ⊢
    omega

/-- `loop()` returns where the search finds its tag -/
theorem returns_of_tag {g : St} {l : Line} {m body rest : List UInt8} {c : UInt8} (h : Refines g l)
    (hbig : 2 * packetSize ≤ (l.receive m).queued.length) (ht : TagAt (l.receive m).queued (body ++ c :: rest))
    (hb : body.length = 65) (hr : 4 ≤ rest.length) :
    ∃ g1, Returns g m (readPacket g1) ∧ Holding (receive g m) (body ++ c :: rest) g1 := by
  have hrec := receive_refines h m
  obtain ⟨g1, ⟨n, k, hf⟩, hhold⟩ :=
    search_complete (refines_holding hrec) ht (by simp [packetSize]; omega)
  refine ⟨g1, ⟨max n k, ?_⟩, hhold⟩
  have hs : search (max n k) (receive g m) = some (true, g1) :=
    loopN_mono (searchBody_mono (le_max_right n k)) (le_max_left n k) hf
  have hsz : 2 * (packetSize : ℤ) ≤ (receive g m).q.sz := by
    rw [hrec.rep.size]
    exact_mod_cast hbig
  simp [loop, hsz, hs]

/-- **Every step of the line is a return of `loop()`.** -/
theorem step_returns {g : St} {l l' : Line} {m : List UInt8} (h : Refines g l) (hs : l.Step m l') :
    ∃ g', Returns g m g' ∧ Refines g' l' := by
  have hrec := receive_refines h m
  cases hs with
  | wait hsmall =>
    refine ⟨receive g m, ⟨0, ?_⟩, hrec⟩
    have hsz : ¬ 2 * (packetSize : ℤ) ≤ (receive g m).q.sz := by
      rw [hrec.rep.size, not_le]
      exact_mod_cast hsmall
    simp [loop, hsz]
  | write body rest hbig ht hb hr =>
    obtain ⟨g1, hret, hhold⟩ := returns_of_tag h hbig ht hb hr
    have hfin := readPacket_refines hrec hb hhold
    rw [if_pos rfl, receive_bodies] at hfin
    exact ⟨_, hret, hfin⟩
  | drop body rest c hbig ht hb hr hc =>
    obtain ⟨g1, hret, hhold⟩ := returns_of_tag h hbig ht hb hr
    have hfin := readPacket_refines hrec hb hhold
    rw [if_neg hc] at hfin
    exact ⟨_, hret, hfin⟩

/-! ## Runs -/

theorem trace_line {mem : UInt8 → UInt8} {ms : List (List UInt8)} {g : St} (h : Trace Returns (setup mem) ms g) :
    ∃ l, Trace Line.Step ⟨[], [], []⟩ ms l ∧ Refines g l :=
  trace_sim (R := Returns) (Q := Line.Step) (S := Refines) (fun _ _ _ _ hst hr => returns_step hst hr) h
    (refines_setup mem)

theorem line_trace (mem : UInt8 → UInt8) {ms : List (List UInt8)} {l : Line}
    (h : Trace Line.Step ⟨[], [], []⟩ ms l) : ∃ g, Trace Returns (setup mem) ms g ∧ Refines g l :=
  trace_sim (R := Line.Step) (Q := Returns) (S := fun l g => Refines g l)
    (fun _ _ _ _ hst hs => step_returns hst hs) h (refines_setup mem)

end NuStars.Ground
