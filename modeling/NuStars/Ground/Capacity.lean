/-
The capacity of the ground receiver's queue, for messages of at most `PACKET_SIZE` bytes with arbitrary contents.

A message adds at most 70 bytes. Once 140 are queued, a `loop()` that returns has taken a tag and 66 more bytes off, so
at most 139 are left (`Ample`) and the next message fits again. Inside `loop()` the queue changes only byte by byte: the
bytes pushed, then some number of pops (`Pops`).

- `step_ample`: one message;
- `loop_pops`: what `loop()` does to the queue behind the push;
- `never_refused`: runs of `loop()`.
-/
import NuStars.Ground.Line

namespace NuStars.Ground

open NuStars.Loop NuStars.Run

/-! ## Pops -/

/-- n calls of `popq` -/
def popN (n : ℕ) (s : Queue) : Queue := (fun s => (popq s).2)^[n] s

theorem popN_succ (n : ℕ) (s : Queue) : popN (n + 1) s = (popq (popN n s)).2 := Function.iterate_succ_apply' _ n s

theorem popN_add (n k : ℕ) (s : Queue) : popN (n + k) s = popN n (popN k s) := Function.iterate_add_apply _ n k s

theorem popN_sz (n : ℕ) (s : Queue) : (popN n s).sz = s.sz - n := by
  induction n with
  | zero => simp [popN]
  | succ n ih =>
    rw [popN_succ]
    simp only [popq, ih]
    push_cast
    ring

/-- the queue of g' is the queue of g after some pops -/
def Pops (g g' : St) : Prop := ∃ n, g'.q = popN n g.q

theorem Pops.refl (g : St) : Pops g g := ⟨0, rfl⟩

theorem Pops.popq {g g' : St} (h : Pops g g') : Pops g g'.popq.2 := by
  obtain ⟨n, h⟩ := h
  refine ⟨n + 1, ?_⟩
  rw [popN_succ, ← h]
  rfl

theorem Pops.trans {g g' g'' : St} (h : Pops g g') (h' : Pops g' g'') : Pops g g'' := by
  obtain ⟨n, h⟩ := h
  obtain ⟨k, h'⟩ := h'
  exact ⟨k + n, by rw [h', h, popN_add]⟩

theorem seekN_pops {fuel : ℕ} {g g' : St} {x : UInt8} (h : seekN fuel g = some (x, g')) : Pops g g' := by
  have hstep : ∀ s t : UInt8 × St, Pops g s.2 → notN s = true → next s = some t → Pops g t.2 := by
    intro s t hs _ ht
    rw [next, Option.some.injEq] at ht
    rw [← ht]
    exact hs.popq
  exact (loopN_inv (I := fun p => Pops g p.2) hstep (Pops.refl g) h).1

theorem searchBody_pops {k : ℕ} {p p' : Bool × St} (h : searchBody k p = some p') : Pops p.2 p'.2 := by
  simp only [searchBody, Option.map_eq_some_iff] at h
  obtain ⟨⟨x, g1⟩, hr, hp⟩ := h
  have hseek := seekN_pops hr
  split_ifs at hp
  · rw [← hp]
    exact hseek.popq.popq.popq
  · rw [← hp]
    exact hseek.popq.popq
  · rw [← hp]
    exact hseek.popq

theorem search_pops {fuel : ℕ} {g : St} {p : Bool × St} (h : search fuel g = some p) : Pops g p.2 :=
  (loopN_inv (I := fun p => Pops g p.2) (fun _ _ hs _ hb => hs.trans (searchBody_pops hb)) (Pops.refl g) h).1

theorem readBuf_pops (n : ℕ) (c : UInt8) (buf : List UInt8) (g : St) : Pops g (readBuf n c buf g).2.2 := by
  induction n generalizing c buf g with
  | zero => exact Pops.refl g
  | succ n ih => exact (Pops.refl g).popq.trans (ih _ _ _)

theorem readPacket_pops (g : St) : Pops g (readPacket g) := by
  have h := (readBuf_pops (packetSize - 5) 0 [] g).popq
  unfold readPacket
  dsimp only
  split_ifs
  · exact h
  · exact h

/-- **Behind the push, `loop()` only pops.** -/
theorem loop_pops {g g' : St} {m : List UInt8} (h : Returns g m g') : Pops (receive g m) g' := by
  obtain ⟨fuel, h⟩ := h
  simp only [loop] at h
  split_ifs at h
  · obtain ⟨p, hp, rfl⟩ := Option.map_eq_some_iff.1 h
    have hsearch := search_pops hp
    split_ifs
    · exact hsearch.trans (readPacket_pops p.2)
    · exact hsearch
  · rw [Option.some.injEq] at h
    rw [← h]
    exact Pops.refl _

/-! ## The bound -/

/-- fewer than two packets are queued -/
def Ample (l : Line) : Prop := l.queued.length ≤ 2 * packetSize - 1

theorem Ample.fits {l : Line} (h : Ample l) {m : List UInt8} (hm : m.length ≤ packetSize) :
    l.queued.length + m.length ≤ 255 := by
  unfold Ample packetSize at *
  omega

/-- a packet taken off the queue frees at least 70 bytes -/
theorem tagAt_length {q body rest : List UInt8} {c : UInt8} (h : TagAt q (body ++ c :: rest)) (hb : body.length = 65) :
    rest.length + packetSize ≤ q.length := by
  obtain ⟨junk, y, -, rfl⟩ := h
  simp [hb, packetSize]
  omega

theorem step_ample {l l' : Line} {m : List UInt8} (h : Ample l) (hm : m.length ≤ packetSize) (hs : l.Step m l') :
    Ample l' := by
  have hfit := h.fits hm
  have hq : (l.receive m).queued.length = l.queued.length + m.length := by
    rw [receive_queued, accept, if_pos hfit, List.length_append]
  unfold Ample packetSize at *
  cases hs with
  | wait hsmall =>
    simp only [packetSize] at hsmall
    omega
  | write body rest _ ht hb _ =>
    have hlen := tagAt_length ht hb
    simp only [packetSize] at hlen ⊢
    omega
  | drop body rest c _ ht hb _ _ =>
    have hlen := tagAt_length ht hb
    simp only [packetSize] at hlen ⊢
    omega

theorem trace_ample {l l' : Line} {ms : List (List UInt8)} (h : Trace Line.Step l ms l') (hl : Ample l)
    (hm : ∀ m ∈ ms, m.length ≤ packetSize) : Ample l' := by
  induction h with
  | nil => exact hl
  | cons h1 _ ih =>
    apply ih (step_ample hl (hm _ List.mem_cons_self) h1)
    intro m h
    exact hm m (List.mem_cons_of_mem _ h)

/-! ## Runs -/

/-- after each byte that `pushq` copies, `sz` counts the bytes queued so far -/
theorem pushBytes_sz {s : Queue} {q m : List UInt8} (h : Represents s q) (hfit : q.length + m.length ≤ 255) (j : ℕ) :
    0 ≤ (pushBytes s (m.take j)).sz ∧ (pushBytes s (m.take j)).sz ≤ 255 := by
  have hlen : (m.take j).length ≤ m.length := List.length_take_le' j m
  have hsz := (pushBytes_spec s q (m.take j) h (by omega)).size
  rw [List.length_append] at hsz
  rw [hsz]
  refine ⟨Int.natCast_nonneg _, ?_⟩
  exact_mod_cast le_trans (Nat.add_le_add_left hlen _) hfit

/-- **No message of packet size is refused.** Over any block, take any messages of at most 70 bytes whose `loop()` calls
return. Then `0 ≤ sz ≤ 139`, and the next message of at most 70 bytes is accepted. `sz` stays within 0..255 after each
of its bytes, and if that call returns too, it has only popped, with `sz` within 0..255 after each pop. -/
theorem never_refused (mem : UInt8 → UInt8) (ms : List (List UInt8)) (hms : ∀ m ∈ ms, m.length ≤ packetSize) (g : St)
    (h : Trace Returns (setup mem) ms g) :
    0 ≤ g.q.sz ∧ g.q.sz ≤ 2 * packetSize - 1 ∧
      ∀ m : List UInt8, m.length ≤ packetSize →
        (pushq g.q m).1 = 1 ∧ (pushq g.q m).2 = pushBytes g.q m ∧
        (∀ j ≤ m.length, 0 ≤ (pushBytes g.q (m.take j)).sz ∧ (pushBytes g.q (m.take j)).sz ≤ 255) ∧
        ∀ g', Returns g m g' → ∃ n, g'.q = popN n (pushq g.q m).2 ∧
          ∀ k ≤ n, 0 ≤ (popN k (pushq g.q m).2).sz ∧ (popN k (pushq g.q m).2).sz ≤ 255 := by
  obtain ⟨l, hl, href⟩ := trace_line h
  have hample : Ample l := trace_ample hl (by simp [Ample]) hms
  have hsz := href.rep.size
  refine ⟨by omega, ?_, ?_⟩
  · unfold Ample packetSize at hample
    simp only [packetSize]
    omega
  · intro m hm
    have hfit := hample.fits hm
    obtain ⟨hone, hrep⟩ := pushq_fits href.rep hfit
    have hroom : ¬ 255 - g.q.sz < (m.length : ℤ) := by omega
    refine ⟨hone, by rw [pushq, if_neg hroom], fun j _ => pushBytes_sz href.rep hfit j, ?_⟩
    intro g' hr
    obtain ⟨n, hn⟩ := loop_pops hr
    obtain ⟨l', -, href'⟩ := returns_step href hr
    refine ⟨n, hn, ?_⟩
    intro k hk
    -- `sz` falls from a queue of at most 255 bytes to one that still represents its contents
    have hend : 0 ≤ (popN n (pushq g.q m).2).sz := by
      have hq : g'.q = popN n (pushq g.q m).2 := hn
      rw [← hq, href'.rep.size]
      exact Int.natCast_nonneg _
    have hfull := hrep.size
    have hbound := hrep.bound
    rw [popN_sz] at hend ⊢
    omega

/-- 70 bytes 'N' are queued, and 70 more bytes fit -/
theorem never_refused_run :
    ∃ g, Trace Returns (setup fun _ => 0xFF) [List.replicate 70 0x4E] g ∧ g.q.sz ≤ 139 ∧
      (pushq g.q (List.replicate 70 0)).1 = 1 := by
  obtain ⟨g, hg, -⟩ := line_trace (fun _ => 0xFF)
    (.cons (.wait (by decide) : Line.Step ⟨[], [], []⟩ (List.replicate 70 0x4E) _) (.nil _))
  obtain ⟨-, hsz, hnext⟩ := never_refused _ _ (by simp [packetSize]) g hg
  exact ⟨g, hg, hsz, (hnext (List.replicate 70 0) (by simp [packetSize])).1⟩

end NuStars.Ground
