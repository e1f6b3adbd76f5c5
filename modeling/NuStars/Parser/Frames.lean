/-
Which records parse.m makes of a log: of the frames the ground receiver writes, and of an arbitrary file.

A frame is "NUx " and 65 bytes (`Ground.frame`). In a concatenation of frames a match that is not the start of a frame
can only lie inside a body: behind the 'N' of a tag come 'U', 'x' and ' ', and the two last bytes of a body are followed
by the 'N' of the next tag.

The loop leaves the last match out, so that a whole record follows each match it uses. That holds as long as matches are
at least 69 bytes apart (`Spaced`), and nothing checks that they are.

- `occurs_frames`: the occurrences of "NUx" in a concatenation of frames;
- `frames_found_iff`: the matches are the frame starts iff no body contains "NUx"; then entry i is that of frame i;
- `inside_iff_spaced`: every entry lies before the next match iff the matches are 69 bytes apart;
- `frames_spaced`: in a log of frames whose bodies imitate no tag they are;
- `runs_past_end`: a file of six bytes on which the script fails.
-/
import NuStars.Core.Blocks
import NuStars.Ground.Line
import NuStars.Parser.Match

namespace NuStars.Parser

open NuStars.Blocks NuStars.Ground

/-! ## Frames -/

theorem frame_length {b : List UInt8} (h : b.length = 65) : (frame b).length = 69 := by
  rw [frame, List.length_append, h]
  rfl

theorem frame_blocks {bodies : List (List UInt8)} (h : ∀ b ∈ bodies, b.length = 65) :
    ∀ f ∈ bodies.map frame, f.length = 69 := by
  intro f hf
  obtain ⟨b, hb, rfl⟩ := List.mem_map.1 hf
  exact frame_length (h b hb)

theorem frames_length {bodies : List (List UInt8)} (h : ∀ b ∈ bodies, b.length = 65) :
    (bodies.map frame).flatten.length = 69 * bodies.length := by
  rw [length_blocks (frame_blocks h), List.length_map]

/-- byte j of frame k -/
theorem frames_get {bodies : List (List UInt8)} (h : ∀ b ∈ bodies, b.length = 65) (k j : ℕ) (hj : j < 69) :
    (bodies.map frame).flatten[69 * k + j]? = bodies[k]?.bind fun b => (frame b)[j]? := by
  rw [get_blocks (frame_blocks h) k j hj, List.getElem?_map, Option.bind_map]
  rfl

/-- behind a frame comes an 'N' or nothing -/
theorem next_frame {bodies : List (List UInt8)} (h : ∀ b ∈ bodies, b.length = 65) (k : ℕ) {x : UInt8} (hx : x ≠ chN) :
    (bodies.map frame).flatten[69 * k + 69]? ≠ some x := by
  have hget := frames_get h (k + 1) 0 (by omega)
  rw [Nat.mul_succ, Nat.add_zero] at hget
  rw [hget]
  cases bodies[k + 1]? with
  | none => simp
  | some b =>
    intro hb
    exact hx (Option.some.inj hb).symm

/-- inside a frame "NUx" occurs at its start and where it occurs in the body -/
theorem occurs_frame (b : List UInt8) (j : ℕ) : Occurs (frame b) j ↔ j = 0 ∨ ∃ i, j = 4 + i ∧ Occurs b i := by
  rcases Nat.lt_or_ge j 4 with hlt | hge
  · interval_cases j
    · simp [Occurs, frame, tag]
    -- the other bytes of the tag are no 'N'
    all_goals
      refine iff_of_false (by simp [Occurs, frame, tag, chN, chU, chX, chSpace]) ?_
      rintro (h0 | ⟨i, hi, -⟩)
      · cases h0
      · omega
  · obtain ⟨i, rfl⟩ := Nat.exists_eq_add_of_le hge
    have hget : ∀ k, (frame b)[4 + k]? = b[k]? := by
      intro k
      rw [frame, List.getElem?_append_right (by simp [tag])]
      simp [tag]
    have hocc : Occurs (frame b) (4 + i) ↔ Occurs b i := by
      rw [Occurs, Nat.add_assoc, Nat.add_assoc, hget, hget, hget, Occurs]
    rw [hocc]
    refine ⟨fun ho => Or.inr ⟨i, rfl, ho⟩, ?_⟩
    rintro (h0 | ⟨i', hi', ho⟩)
    · omega
    · obtain rfl : i' = i := by omega
      exact ho

/-- **Occurrences of "NUx" in a log of frames**: the starts of the frames, and the occurrences inside the bodies -/
theorem occurs_frames {bodies : List (List UInt8)} (h : ∀ b ∈ bodies, b.length = 65) (k j : ℕ) (hj : j < 69) :
    Occurs (bodies.map frame).flatten (69 * k + j) ↔
      ∃ b, bodies[k]? = some b ∧ (j = 0 ∨ ∃ i, j = 4 + i ∧ Occurs b i) := by
  rcases Nat.lt_or_ge j 67 with hlt | hge
  · -- all three bytes are in frame k
    rw [Occurs, Nat.add_assoc, Nat.add_assoc, frames_get h k j hj, frames_get h k (j + 1) (by omega),
      frames_get h k (j + 2) (by omega)]
    cases hk : bodies[k]? with
    | none => simp
    | some b =>
      have hocc : Occurs (frame b) j ↔ j = 0 ∨ ∃ i, j = 4 + i ∧ Occurs b i := occurs_frame b j
      simp only [Option.bind_some, Option.some.injEq, exists_eq_left']
      exact hocc
  · refine iff_of_false ?_ ?_
    · -- the second or the third byte is the 'N' of the next frame
      rintro ⟨-, h1, h2⟩
      rcases Nat.lt_or_ge j 68 with hlt | hge
      · obtain rfl : j = 67 := by omega
        exact next_frame h k (show chX ≠ chN by decide) h2
      · obtain rfl : j = 68 := by omega
        exact next_frame h k (show chU ≠ chN by decide) h1
    · rintro ⟨b, hb, h0 | ⟨i, hi, ho⟩⟩
      · omega
      · have hlen := h b (List.mem_of_getElem? hb)
        have hlt := ho.lt
        omega

/-- the starts of n frames, counted from 1 -/
def starts (n : ℕ) : List ℕ := (List.range n).map fun k => 69 * k + 1

theorem starts_sorted (n : ℕ) : (starts n).Pairwise (· < ·) := by
  rw [starts, List.pairwise_map]
  apply List.pairwise_lt_range.imp
  intro a b hab
  omega

theorem index_starts {n k : ℕ} (hk : k < n) : index (starts n) (k + 1) = some (69 * k + 1) := by
  rw [index_eq (by omega), Nat.add_sub_cancel, starts, List.getElem?_map, List.getElem?_range hk]
  rfl

theorem matches_are_starts {bodies : List (List UInt8)} (h : ∀ b ∈ bodies, b.length = 65) {mtch : List ℕ}
    (hm : Matches (bodies.map frame).flatten mtch) :
    mtch = starts bodies.length ↔ ∀ b ∈ bodies, ¬ tagBytes <:+: b := by
  refine ⟨?_, ?_⟩
  · intro heq b hb hin
    obtain ⟨i, hi⟩ := (infix_iff_occurs b).1 hin
    obtain ⟨k, hk, hget⟩ := List.getElem_of_mem hb
    have hlen := h b hb
    have hlt := hi.lt
    have hocc : Occurs (bodies.map frame).flatten (69 * k + (4 + i)) :=
      (occurs_frames h k (4 + i) (by omega)).2 ⟨b, by rw [List.getElem?_eq_getElem hk, hget], Or.inr ⟨i, rfl, hi⟩⟩
    have hstart := (hm.mem (69 * k + (4 + i) + 1)).2 ⟨by omega, hocc⟩
    rw [heq, starts, List.mem_map] at hstart
    obtain ⟨k', -, hk'⟩ := hstart
    omega
  · intro hno
    apply List.Pairwise.eq_of_mem_iff hm.sorted (starts_sorted _)
    intro p
    cases p with
    | zero => exact iff_of_false (fun h0 => absurd ((hm.mem 0).1 h0).1 (by omega)) (by simp [starts])
    | succ p =>
      have hsplit : p = 69 * (p / 69) + p % 69 := by omega
      rw [hm.mem, Nat.add_sub_cancel, and_iff_right (by omega), hsplit,
        occurs_frames h _ _ (Nat.mod_lt p (by omega)), ← hsplit, starts, List.mem_map]
      refine ⟨?_, ?_⟩
      · rintro ⟨b, hb, h0 | ⟨i, -, hi⟩⟩
        · refine ⟨p / 69, ?_, by omega⟩
          rw [List.mem_range]
          exact (List.getElem?_eq_some_iff.1 hb).1
        · exact absurd ((infix_iff_occurs b).2 ⟨i, hi⟩) (hno b (List.mem_of_getElem? hb))
      · rintro ⟨k, hk, hkp⟩
        rw [List.mem_range] at hk
        obtain rfl : p = 69 * k := by omega
        exact ⟨bodies[k], by rw [Nat.mul_div_cancel_left k (by omega), List.getElem?_eq_getElem hk], Or.inl (by omega)⟩

/-- an entry at the start of frame k is that of the frame alone -/
theorem decode_frame {bodies : List (List UInt8)} (h : ∀ b ∈ bodies, b.length = 65) {k : ℕ} (hk : k < bodies.length) :
    decode (bodies.map frame).flatten (69 * k + 1) = decode (frame bodies[k]) 1 ∧
      ∃ e, decode (frame bodies[k]) 1 = some e := by
  have hlen := frames_length h
  have hk' : k < (bodies.map frame).length := by simpa using hk
  have hsize := frame_length (h _ (List.getElem_mem hk))
  refine ⟨?_, ?_⟩
  · rw [decode_window (by omega) (by omega), Nat.add_sub_cancel, drop_blocks_cons (frame_blocks h) hk',
      List.getElem_map, List.take_left' hsize]
  · apply Option.isSome_iff_exists.1
    apply (decode_isSome le_rfl).2
    intro r hr
    have := (mem_reads hr).2
    omega

/-- with the starts for matches, the entries are those of the frames but the last one -/
theorem parse_frames {bodies : List (List UInt8)} (h : ∀ b ∈ bodies, b.length = 65)
    (hs : tagSearch (bodies.map frame).flatten = some (starts bodies.length)) :
    ∃ es, parse (bodies.map frame).flatten = some es ∧ es.length = bodies.length - 1 ∧
      ∀ k (hk : k < bodies.length) (hk' : k < es.length), decode (frame bodies[k]) 1 = some es[k] := by
  have hslen : (starts bodies.length).length = bodies.length := by simp [starts]
  have hentry : ∀ k (hk : k < bodies.length),
      parseEntry (bodies.map frame).flatten (starts bodies.length) (k + 1) = decode (frame bodies[k]) 1 := by
    intro k hk
    rw [parseEntry, index_starts hk]
    exact (decode_frame h hk).1
  obtain ⟨es, hes, hlen, hget⟩ := mapM_some (g := parseEntry (bodies.map frame).flatten (starts bodies.length))
    (List.range' 1 (bodies.length - 1)) (by
      intro i hi
      rw [List.mem_range'_1] at hi
      obtain ⟨k, rfl⟩ : ∃ k, i = k + 1 := ⟨i - 1, by omega⟩
      rw [hentry k (by omega)]
      exact (decode_frame h _).2)
  rw [List.length_range'] at hlen
  refine ⟨es, ?_, hlen, ?_⟩
  · rw [parse, hs, Option.bind_eq_bind, Option.bind_some, hslen, hes]
  · intro k hk hk'
    have hk1 : k < (List.range' 1 (bodies.length - 1)).length := by rw [List.length_range']; omega
    rw [← hget k hk1 hk', List.getElem_range', Nat.one_mul, Nat.add_comm 1 k, hentry k hk]

/-- **The tag search finds exactly the frames iff no payload imitates the tag.** Take any n ≥ 1 bodies of 65 bytes and
the log of their frames. The matches are 1, 70, 139, … and no others exactly when no body contains "NUx"; in that case
the script returns n - 1 entries, and entry i is what the 69 bytes of frame i alone decode to. -/
theorem frames_found_iff (bodies : List (List UInt8)) (hne : bodies ≠ []) (h : ∀ b ∈ bodies, b.length = 65) :
    (tagSearch (bodies.map frame).flatten = some (starts bodies.length) ↔ ∀ b ∈ bodies, ¬ tagBytes <:+: b) ∧
      ((∀ b ∈ bodies, ¬ tagBytes <:+: b) → ∃ es, parse (bodies.map frame).flatten = some es ∧
        es.length = bodies.length - 1 ∧
          ∀ k (hk : k < bodies.length) (hk' : k < es.length), decode (frame bodies[k]) 1 = some es[k]) := by
  have hpos : 0 < bodies.length := List.length_pos_iff.2 hne
  have hlen : 3 ≤ (bodies.map frame).flatten.length := by
    rw [frames_length h]
    omega
  obtain ⟨mtch, hm, hmatches⟩ := tagSearch_matches hlen
  have hiff := matches_are_starts h hmatches
  refine ⟨?_, ?_⟩
  · rw [hm, Option.some.injEq]
    exact hiff
  · intro hno
    exact parse_frames h (by rw [hm, hiff.2 hno])

/-- n bodies of zero bytes -/
def zeroBodies (n : ℕ) : List (List UInt8) := List.replicate n (List.replicate 65 0)

theorem zeroBodies_clean {n : ℕ} : ∀ b ∈ zeroBodies n, b.length = 65 ∧ ¬ tagBytes <:+: b := by
  intro b hb
  obtain rfl := (List.mem_replicate.1 hb).2
  refine ⟨List.length_replicate, ?_⟩
  intro hin
  have hN : chN ∈ List.replicate 65 0 := hin.subset (by simp [tagBytes])
  simp [chN] at hN

/-- two frames of zero bytes -/
theorem frames_found_zeros :
    tagSearch ((zeroBodies 2).map frame).flatten = some [1, 70] ∧
      ∃ es, parse ((zeroBodies 2).map frame).flatten = some es ∧ es.length = 1 := by
  have hno : ∀ b ∈ zeroBodies 2, ¬ tagBytes <:+: b := fun b hb => (zeroBodies_clean b hb).2
  have h := frames_found_iff (zeroBodies 2) (by simp [zeroBodies]) fun b hb => (zeroBodies_clean b hb).1
  obtain ⟨es, hes, hlen, -⟩ := h.2 hno
  exact ⟨h.1.2 hno, es, hes, hlen⟩

/-! ## Arbitrary files -/

/-- the script ends without an error, and every index an entry reads lies before the next match and in the file -/
def EntriesInside (data : List UInt8) : Prop :=
  ∃ mtch es, tagSearch data = some mtch ∧ parse data = some es ∧
    ∀ i o o', index mtch i = some o → index mtch (i + 1) = some o' → ∀ r ∈ reads o, r < o' ∧ r ≤ data.length

/-- any two occurrences of "NUx" start at least 69 bytes apart -/
def Spaced (data : List UInt8) : Prop := ∀ p q, Occurs data p → Occurs data q → p < q → p + 69 ≤ q

/-- the entry of a match lies before the next one, and so in the file -/
theorem entry_inside {data : List UInt8} (h : Spaced data) {o o' : ℕ} (ho : 1 ≤ o) (hlt : o < o')
    (hocc : Occurs data (o - 1)) (hocc' : Occurs data (o' - 1)) : ∀ r ∈ reads o, r < o' ∧ r ≤ data.length := by
  intro r hr
  have hfar := h _ _ hocc hocc' (by omega)
  have hmax := (mem_reads hr).2
  have hend := hocc'.lt
  omega

theorem parse_spaced {data : List UInt8} (h : Spaced data) {mtch : List ℕ} (hs : tagSearch data = some mtch)
    (hm : Matches data mtch) : ∃ es, parse data = some es := by
  obtain ⟨es, hes, -⟩ := mapM_some (g := parseEntry data mtch) (List.range' 1 (mtch.length - 1)) (by
    intro i hi
    rw [List.mem_range'_1] at hi
    obtain ⟨o, ho⟩ := index_isSome mtch (i := i) (by omega) (by omega)
    obtain ⟨o', ho'⟩ := index_isSome mtch (i := i + 1) (by omega) (by omega)
    obtain ⟨hpos, hlt, hocc, hocc'⟩ := hm.next ho ho'
    have hin := entry_inside h hpos hlt hocc hocc'
    rw [parseEntry, ho]
    exact Option.isSome_iff_exists.1 ((decode_isSome hpos).2 fun r hr => (hin r hr).2))
  refine ⟨es, ?_⟩
  rw [parse, hs]
  exact hes

/-- **When every entry lies inside its own record.** On any file of three bytes or more, the script runs to its end with
every index it reads for an entry before the next match and in the file, exactly when the occurrences of "NUx" in the
file start at least 69 bytes apart. -/
theorem inside_iff_spaced (data : List UInt8) (hlen : 3 ≤ data.length) : EntriesInside data ↔ Spaced data := by
  obtain ⟨mtch, hs, hm⟩ := tagSearch_matches hlen
  refine ⟨?_, ?_⟩
  · rintro ⟨mtch', es, hs', -, hin⟩ p q hp hq hpq
    obtain rfl : mtch = mtch' := Option.some.inj (hs.symm.trans hs')
    obtain ⟨i, o, hthis, hnext, hle⟩ := hm.behind hp hq hpq
    have hread := hin i (p + 1) o hthis hnext _ (last_mem_reads (p + 1))
    omega
  · intro hspaced
    obtain ⟨es, hes⟩ := parse_spaced hspaced hs hm
    refine ⟨mtch, es, hs, hes, ?_⟩
    intro i o o' hi hi'
    obtain ⟨hpos, hlt, hocc, hocc'⟩ := hm.next hi hi'
    exact entry_inside hspaced hpos hlt hocc hocc'

/-- a log of frames that imitate no tag -/
theorem frames_spaced {bodies : List (List UInt8)} (h : ∀ b ∈ bodies, b.length = 65)
    (hno : ∀ b ∈ bodies, ¬ tagBytes <:+: b) : Spaced (bodies.map frame).flatten := by
  have hstart : ∀ p, Occurs (bodies.map frame).flatten p → p % 69 = 0 := by
    intro p hp
    have hmod : p % 69 < 69 := Nat.mod_lt p (by decide)
    rw [← Nat.div_add_mod p 69, occurs_frames h _ _ hmod] at hp
    obtain ⟨b, hb, h0 | ⟨i, -, hi⟩⟩ := hp
    · exact h0
    · exact absurd ((infix_iff_occurs b).2 ⟨i, hi⟩) (hno b (List.mem_of_getElem? hb))
  intro p q hp hq hpq
  have h1 := hstart p hp
  have h2 := hstart q hq
  omega

/-- three frames of zero bytes, of which the script decodes two -/
theorem inside_iff_spaced_frames :
    EntriesInside ((zeroBodies 3).map frame).flatten ∧
      ∃ es, parse ((zeroBodies 3).map frame).flatten = some es ∧ es.length = 2 := by
  have hlen : ∀ b ∈ zeroBodies 3, b.length = 65 := fun b hb => (zeroBodies_clean b hb).1
  have hno : ∀ b ∈ zeroBodies 3, ¬ tagBytes <:+: b := fun b hb => (zeroBodies_clean b hb).2
  have hfile : 3 ≤ ((zeroBodies 3).map frame).flatten.length := by
    rw [frames_length hlen]
    decide
  obtain ⟨mtch, hm, hmatches⟩ := tagSearch_matches hfile
  have hstarts := (matches_are_starts hlen hmatches).2 hno
  obtain ⟨es, hes, hcount, -⟩ := parse_frames hlen (by rw [hm, hstarts])
  exact ⟨(inside_iff_spaced _ hfile).2 (frames_spaced hlen hno), es, hes, hcount⟩

/-- **Two tags and no packet**: the script reads past the end of the file. -/
theorem runs_past_end :
    parse (tagBytes ++ tagBytes) = none ∧ ¬ ∀ data : List UInt8, 3 ≤ data.length → EntriesInside data := by
  have hnone : parse (tagBytes ++ tagBytes) = none := by decide
  refine ⟨hnone, ?_⟩
  intro h
  obtain ⟨mtch, es, -, hes, -⟩ := h (tagBytes ++ tagBytes) (by decide)
  rw [hnone] at hes
  cases hes

end NuStars.Parser
