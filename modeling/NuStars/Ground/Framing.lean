/-
A clean stream of packets, cut into messages in any way.

The sender transmits 70-byte packets that begin with "NUx"; the other 67 bytes are arbitrary and may contain the tag
again. The messages that arrive have at most 70 bytes each and concatenate to the stream. Then the queue always begins
at a packet boundary: after T bytes, T / 70 - 1 packets have been taken off (`Framed`), at most 139 bytes remain queued,
and no message is refused.

- `framed_step`: one message;
- `framed_run`: all messages, for `loop()`;
- `framing_locked`: a stream, and the stream with one byte of one packet altered.
-/
import NuStars.Core.Blocks
import NuStars.Ground.Line

namespace NuStars.Ground

open NuStars.Blocks NuStars.Run

def stream (ps : List Packet) : List UInt8 := (ps.map Packet.bytes).flatten

/-- the packets taken off the queue after T bytes that are valid, oldest first -/
def written (ps : List Packet) (T : ℕ) : List Packet := (ps.take (T / 70 - 1)).filter (·.Valid)

/-- the line after T bytes of the stream -/
structure Framed (ps : List Packet) (T : ℕ) (l : Line) : Prop where
  le : T ≤ (stream ps).length
  queued : l.queued = ((stream ps).take T).drop (70 * (T / 70 - 1))
  taken : l.taken = (stream ps).take T
  bodies : l.bodies = (written ps T).map Packet.body

theorem framed_zero (ps : List Packet) : Framed ps 0 ⟨[], [], []⟩ := ⟨by simp, by simp, by simp, by simp [written]⟩

theorem stream_blocks (ps : List Packet) : ∀ b ∈ ps.map Packet.bytes, b.length = 70 := by
  intro b hb
  obtain ⟨p, -, rfl⟩ := List.mem_map.1 hb
  exact p.size

theorem stream_length (ps : List Packet) : (stream ps).length = 70 * ps.length := by
  rw [stream, length_blocks (stream_blocks ps), List.length_map]

/-- at a packet boundary with a whole packet received, the queue is the packet and what has arrived of the next ones -/
theorem queued_cons (ps : List Packet) {T k : ℕ} (hk : k < ps.length) (hT : 70 * (k + 1) ≤ T) :
    ((stream ps).take T).drop (70 * k) = ps[k].bytes ++ ((stream ps).take T).drop (70 * (k + 1)) := by
  have hcons := drop_blocks_cons (stream_blocks ps) (k := k) (by simpa using hk)
  simp only [List.getElem_map] at hcons
  have hsize : ps[k].bytes.length = 70 := ps[k].size
  rw [List.drop_take, List.drop_take, stream, hcons, List.take_append, List.take_of_length_le (by rw [hsize]; omega),
    hsize]
  congr 2

theorem written_succ (ps : List Packet) {k : ℕ} (hk : k < ps.length) :
    (ps.take (k + 1)).filter (·.Valid) =
      (ps.take k).filter (·.Valid) ++ if ps[k].Valid then [ps[k]] else [] := by
  rw [List.take_succ_eq_append_getElem hk, List.filter_append]
  congr 1
  split_ifs with hv <;> simp [hv]

/-- **One message of the stream.** It is accepted, the line has a step, and the line stays framed. -/
theorem framed_step {ps : List Packet} {T : ℕ} {l : Line} {m : List UInt8} (h : Framed ps T l) (hm : m.length ≤ 70)
    (hle : T + m.length ≤ (stream ps).length)
    (hnext : (stream ps).take (T + m.length) = (stream ps).take T ++ m) :
    l.queued.length + m.length ≤ 255 ∧ ∃ l', l.Step m l' ∧ Framed ps (T + m.length) l' := by
  have hlen : l.queued.length = T - 70 * (T / 70 - 1) := by
    rw [h.queued, List.length_drop, List.length_take, Nat.min_eq_left h.le]
  have hfit : l.queued.length + m.length ≤ 255 := by omega
  have hrec : l.receive m = { l with queued := l.queued ++ m, taken := l.taken ++ m } := if_pos hfit
  have hq : (l.receive m).queued = ((stream ps).take (T + m.length)).drop (70 * (T / 70 - 1)) := by
    rw [hrec, hnext, h.queued, List.drop_append_of_le_length]
    rw [List.length_take, Nat.min_eq_left h.le]
    omega
  have htaken : (l.receive m).taken = (stream ps).take (T + m.length) := by
    rw [hrec, hnext, h.taken]
  have hqlen : (l.receive m).queued.length = T + m.length - 70 * (T / 70 - 1) := by
    rw [hq, List.length_drop, List.length_take, Nat.min_eq_left hle]
  refine ⟨hfit, ?_⟩
  rcases Nat.lt_or_ge (l.receive m).queued.length 140 with hsmall | hbig
  · -- no packet is taken off: the number of whole packets but one is unchanged
    have hk : (T + m.length) / 70 - 1 = T / 70 - 1 := by omega
    refine ⟨_, .wait hsmall, hle, ?_, htaken, ?_⟩
    · rw [hq, hk]
    · rw [receive_bodies, h.bodies, written, written, hk]
  · set k := T / 70 - 1
    have hk : (T + m.length) / 70 - 1 = k + 1 := by omega
    have hps : k < ps.length := by
      rw [stream_length] at hle
      omega
    have hqueue := hq.trans (queued_cons ps hps (by omega))
    set rest := ((stream ps).take (T + m.length)).drop (70 * (k + 1)) with hrest
    have hrlen : 4 ≤ rest.length := by
      rw [hrest, List.length_drop, List.length_take, Nat.min_eq_left hle]
      omega
    obtain ⟨y, hy⟩ := ps[k].split
    have ht : TagAt (l.receive m).queued (ps[k].body ++ ps[k].sum :: rest) :=
      ⟨[], y, .nil, by rw [hqueue, hy]; simp⟩
    have hwritten : written ps (T + m.length) = written ps T ++ if ps[k].Valid then [ps[k]] else [] := by
      rw [written, hk, written_succ ps hps]
      rfl
    by_cases hv : ps[k].Valid
    · have hv' : xorAll ps[k].body = ps[k].sum := hv
      rw [← hv'] at ht
      refine ⟨_, .write _ _ hbig ht ps[k].body_length hrlen, hle, ?_, htaken, ?_⟩
      · rw [hk]
      · rw [hwritten, if_pos hv, List.map_append, h.bodies]
        rfl
    · refine ⟨_, .drop _ _ _ hbig ht ps[k].body_length hrlen hv, hle, ?_, htaken, ?_⟩
      · rw [hk]
      · rw [hwritten, if_neg hv, List.append_nil, ← h.bodies]
        exact receive_bodies l m

theorem framed_trace {ps : List Packet} {T : ℕ} {l : Line} (h : Framed ps T l) (ms : List (List UInt8))
    (hm : ∀ m ∈ ms, m.length ≤ 70) (hcut : ∃ post, (stream ps).drop T = ms.flatten ++ post) :
    ∃ l', Trace Line.Step l ms l' ∧ Framed ps (T + ms.flatten.length) l' := by
  induction ms generalizing T l with
  | nil => exact ⟨l, .nil l, by simpa using h⟩
  | cons m ms ih =>
    obtain ⟨post, hpost⟩ := hcut
    rw [List.flatten_cons, List.append_assoc] at hpost
    have hlen := congrArg List.length hpost
    simp only [List.length_drop, List.length_append] at hlen
    have hle := h.le
    have hnext : (stream ps).take (T + m.length) = (stream ps).take T ++ m := by
      rw [List.take_add, hpost, List.take_left' rfl]
    have hTm : T + m.length ≤ (stream ps).length := by omega
    obtain ⟨-, l1, hs, hf⟩ := framed_step h (hm m List.mem_cons_self) hTm hnext
    have hdrop : (stream ps).drop (T + m.length) = ms.flatten ++ post := by
      rw [← List.drop_drop, hpost, List.drop_left' rfl]
    obtain ⟨l2, ht, hf2⟩ := ih hf (fun m' hm' => hm m' (List.mem_cons_of_mem m hm')) ⟨post, hdrop⟩
    refine ⟨l2, .cons hs ht, ?_⟩
    rw [List.flatten_cons, List.length_append, ← Nat.add_assoc]
    exact hf2

/-- **The receiver on a clean stream.** At every point of the run the calls so far have returned, none has popped an
empty queue, every message so far was accepted and the next one will be, and what was written is the frames of the valid
packets among the first T / 70 - 1. -/
theorem framed_run (mem : UInt8 → UInt8) (ps : List Packet) (ms : List (List UInt8)) (hcut : ms.flatten = stream ps)
    (hm : ∀ m ∈ ms, m.length ≤ 70) (pre post : List (List UInt8)) (hms : ms = pre ++ post) :
    ∃ g, Trace Returns (setup mem) pre g ∧ g.underrun = false ∧ g.accepted = pre.flatten ∧
      (∀ m ∈ post.head?, (pushq g.q m).1 = 1) ∧
      g.serial = ((written ps pre.flatten.length).map Packet.frame).flatten := by
  have hsplit : stream ps = pre.flatten ++ post.flatten := by rw [← hcut, hms, List.flatten_append]
  obtain ⟨l, hl, hf⟩ := framed_trace (framed_zero ps) pre
    (fun m h => hm m (by rw [hms]; exact List.mem_append_left _ h)) ⟨post.flatten, by rw [List.drop_zero, hsplit]⟩
  rw [Nat.zero_add] at hf
  obtain ⟨g, hg, href⟩ := line_trace mem hl
  refine ⟨g, hg, href.underrun, ?_, ?_, ?_⟩
  · rw [href.accepted, hf.taken, hsplit, List.take_left' rfl]
  · intro m hmem
    obtain ⟨post', rfl⟩ : ∃ post', post = m :: post' := by
      cases post with
      | nil => simp at hmem
      | cons m' post' => simp at hmem; exact ⟨post', by rw [hmem]⟩
    have hlen := congrArg List.length hsplit
    simp only [List.flatten_cons, List.length_append] at hlen
    obtain ⟨hfit, -⟩ := framed_step hf (hm m (by rw [hms]; simp)) (by omega)
      (by rw [hsplit, List.take_left' rfl, List.flatten_cons, ← List.append_assoc, List.take_left' (by simp)])
    exact (pushq_fits href.rep hfit).1
  · rw [href.serial, hf.bodies, List.map_map]
    rfl

/-! ## A damaged packet -/

theorem filter_set_of_not {α : Type*} (p : α → Bool) (l : List α) (j : ℕ) (x : α) (hx : p x = false) :
    (l.set j x).filter p = (l.eraseIdx j).filter p := by
  rw [List.set_eq_take_append_cons_drop, List.eraseIdx_eq_take_drop_succ]
  split_ifs with hj
  · simp [List.filter_append, hx]
  · rw [List.take_of_length_le (by omega), List.drop_eq_nil_of_le (by omega), List.append_nil]

/-- damaging packet j takes its frame, if any, out of the output and leaves the others -/
theorem written_altered (ps : List Packet) (T j : ℕ) (p : Packet) (hp : ¬ p.Valid) :
    written (ps.set j p) T = ((ps.take (T / 70 - 1)).eraseIdx j).filter (·.Valid) := by
  rw [written, List.take_set]
  exact filter_set_of_not _ _ _ _ (by simpa using hp)

/-- **Framing is locked, complete and independent of how the stream is cut.** For any packets that begin with "NUx", and
any way of cutting their concatenation into messages of at most 70 bytes: at every point of the run every call of
`loop()` has returned and every `pushq` has returned 1, and so will the next one, and what was written is the frames of
the valid packets among the first T / 70 - 1, T being the number of bytes received so far. If in addition one byte
behind the tag of one valid packet is altered, that packet is never written and all others are written as before. -/
theorem framing_locked (mem : UInt8 → UInt8) (ps : List Packet) (ms : List (List UInt8))
    (hcut : ms.flatten = (ps.map Packet.bytes).flatten) (hm : ∀ m ∈ ms, m.length ≤ 70) :
    (∀ pre post, ms = pre ++ post →
      ∃ g, Trace Returns (setup mem) pre g ∧ g.underrun = false ∧ g.accepted = pre.flatten ∧
        (∀ m ∈ post.head?, (pushq g.q m).1 = 1) ∧
        g.serial = (((ps.take (pre.flatten.length / 70 - 1)).filter (·.Valid)).map Packet.frame).flatten) ∧
    (∀ (j : ℕ) (hj : j < ps.length), ps[j].Valid → ∀ (i : ℕ) (hi : 4 ≤ i) (hi' : i < ps[j].bytes.length) (b : UInt8),
      b ≠ ps[j].bytes[i] → ∀ ms' : List (List UInt8),
        ms'.flatten = ((ps.set j (ps[j].alter i hi b)).map Packet.bytes).flatten → (∀ m ∈ ms', m.length ≤ 70) →
        ∀ pre post, ms' = pre ++ post →
          ∃ g, Trace Returns (setup mem) pre g ∧ g.underrun = false ∧ g.accepted = pre.flatten ∧
            (∀ m ∈ post.head?, (pushq g.q m).1 = 1) ∧
            g.serial =
              ((((ps.take (pre.flatten.length / 70 - 1)).eraseIdx j).filter (·.Valid)).map Packet.frame).flatten) := by
  refine ⟨fun pre post e => framed_run mem ps ms hcut hm pre post e, ?_⟩
  intro j hj hv i hi hi' b hb ms' hcut' hm' pre post e
  have hbad : ¬ (ps[j].alter i hi b).Valid := ps[j].altered_invalid hv i hi hi' b hb
  obtain ⟨g, h1, h2, h3, h4, h5⟩ := framed_run mem _ ms' hcut' hm' pre post e
  rw [written_altered _ _ _ _ hbad] at h5
  exact ⟨g, h1, h2, h3, h4, h5⟩

/-- a packet with zero fields -/
def zeroPacket : Packet := ⟨tag ++ List.replicate 66 0, by decide, by decide⟩

/-- two packets that arrive as 50, 60 and 30 bytes: at the end the first has been written -/
theorem framing_locked_run :
    ∃ g, Trace Returns (setup fun _ => 0xFF)
        [zeroPacket.bytes.take 50, zeroPacket.bytes.drop 50 ++ zeroPacket.bytes.take 40, zeroPacket.bytes.drop 40] g ∧
      g.underrun = false ∧ g.serial = zeroPacket.frame := by
  obtain ⟨h, -⟩ := framing_locked (fun _ => 0xFF) [zeroPacket, zeroPacket]
    [zeroPacket.bytes.take 50, zeroPacket.bytes.drop 50 ++ zeroPacket.bytes.take 40, zeroPacket.bytes.drop 40]
    (by decide +kernel) (by decide +kernel)
  obtain ⟨g, h1, h2, -, -, h5⟩ := h _ [] (List.append_nil _).symm
  refine ⟨g, h1, h2, ?_⟩
  rw [h5]
  decide +kernel

end NuStars.Ground
