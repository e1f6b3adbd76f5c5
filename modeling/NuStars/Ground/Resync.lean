/-
Where the tag search of the ground receiver stops, for a queue with a tag somewhere in it.

The search never looks at a byte twice: the byte that breaks a partial tag is gone, also when it is the 'N' of the tag
itself. So it stops at the tag exactly when the bytes before it are `Junk`. Otherwise these bytes end in a partial tag,
an 'N' or an "NU" behind some junk, and the tag's own 'N' is what breaks it (`junk_or_cut`).

- `locks_iff`: any occurrence of the tag with 70 bytes behind its space byte;
- `resync_iff`: the first occurrence, with the inputs on which it is missed;
- `resync_missed`: "NNUx" is missed.
-/
import NuStars.Ground.Receiver

namespace NuStars.Ground

open NuStars.Loop

/-! ## Junk and partial tags -/

theorem junk_cancel {j w : List UInt8} (hj : Junk j) (h : Junk (j ++ w)) : Junk w := by
  induction hj with
  | nil => exact h
  | @byte b q hb _ ih =>
    rw [List.cons_append] at h
    generalize q ++ w = v at h ih
    cases h with
    | byte _ h => exact ih h
    | brokenU _ _ => exact absurd rfl hb
    | brokenX _ _ => exact absurd rfl hb
  | @brokenU b q hb _ ih =>
    rw [List.cons_append, List.cons_append] at h
    generalize q ++ w = v at h ih
    cases h with
    | byte hN _ => exact absurd rfl hN
    | brokenU _ h => exact ih h
    | brokenX _ _ => exact absurd rfl hb
  | brokenX hb _ ih =>
    simp only [List.cons_append] at h
    cases h with
    | byte hN _ => exact absurd rfl hN
    | brokenU hU _ => exact absurd rfl hU
    | brokenX _ h => exact ih h

theorem not_junk_N : ¬ Junk [chN] := by
  intro h
  cases h with
  | byte hN _ => exact hN rfl

theorem not_junk_NU : ¬ Junk [chN, chU] := by
  intro h
  cases h with
  | byte hN _ => exact hN rfl
  | brokenU hU _ => exact hU rfl

/-- some junk and then a tag cut off behind its first or its second byte -/
def Partial (pre : List UInt8) : Prop := ∃ j, Junk j ∧ (pre = j ++ [chN] ∨ pre = j ++ [chN, chU])

theorem Partial.extend {pre : List UInt8} (h : Partial pre) (block : List UInt8)
    (hblock : ∀ j, Junk j → Junk (block ++ j)) : Partial (block ++ pre) := by
  obtain ⟨j, hj, rfl | rfl⟩ := h
  · exact ⟨block ++ j, hblock j hj, Or.inl (by simp)⟩
  · exact ⟨block ++ j, hblock j hj, Or.inr (by simp)⟩

theorem not_junk_of_partial {pre : List UInt8} (h : Partial pre) : ¬ Junk pre := by
  obtain ⟨j, hj, rfl | rfl⟩ := h
  · intro h
    exact not_junk_N (junk_cancel hj h)
  · intro h
    exact not_junk_NU (junk_cancel hj h)

/-- the search throws all of `pre` away, or is inside a tag at its end -/
theorem junk_or_cut : ∀ pre : List UInt8, ¬ tagBytes <:+: pre → Junk pre ∨ Partial pre
  | [], _ => Or.inl .nil
  | b :: q, h => by
    by_cases hN : b = chN
    · subst hN
      cases q with
      | nil => exact Or.inr ⟨[], .nil, Or.inl rfl⟩
      | cons u q =>
        by_cases hU : u = chU
        · subst hU
          cases q with
          | nil => exact Or.inr ⟨[], .nil, Or.inr rfl⟩
          | cons x q =>
            have hX : x ≠ chX := by
              rintro rfl
              exact h ⟨[], q, rfl⟩
            have hq : ¬ tagBytes <:+: q := fun hi => h (hi.trans ⟨[chN, chU, x], [], by simp⟩)
            rcases junk_or_cut q hq with hj | hp
            · exact Or.inl (.brokenX hX hj)
            · exact Or.inr (hp.extend [chN, chU, x] fun j hj => .brokenX hX hj)
        · have hq : ¬ tagBytes <:+: q := fun hi => h (hi.trans ⟨[chN, u], [], by simp⟩)
          rcases junk_or_cut q hq with hj | hp
          · exact Or.inl (.brokenU hU hj)
          · exact Or.inr (hp.extend [chN, u] fun j hj => .brokenU hU hj)
    · have hq : ¬ tagBytes <:+: q := fun hi => h (hi.trans ⟨[b], [], by simp⟩)
      rcases junk_or_cut q hq with hj | hp
      · exact Or.inl (.byte hN hj)
      · exact Or.inr (hp.extend [b] fun j hj => .byte hN hj)

/-! ## Where the search stops -/

/-- the tag search returns with `rest` left in the queue -/
def StopsBefore (g : St) (rest : List UInt8) : Prop :=
  ∃ fuel g', search fuel g = some (true, g') ∧ Represents g'.q rest

theorem stops_iff_tagAt {g : St} {q rest : List UInt8} (h : Represents g.q q) (hlen : packetSize ≤ rest.length) :
    StopsBefore g rest ↔ TagAt q rest := by
  have hold : Holding g q g := ⟨h, rfl, rfl, rfl⟩
  refine ⟨?_, ?_⟩
  · rintro ⟨fuel, g', hs, hrest⟩
    obtain ⟨-, rest', ht, -, hrest'⟩ := search_sound hold hs
    rwa [represents_unique hrest hrest'.rep]
  · intro ht
    obtain ⟨g', ⟨n, k, hf⟩, hg'⟩ := search_complete hold ht hlen
    refine ⟨max n k, g', ?_, hg'.rep⟩
    exact loopN_mono (searchBody_mono (le_max_right n k)) (le_max_left n k) hf

/-- **The search stops at an occurrence of the tag** that has 70 bytes behind its space byte exactly when the bytes
before it are junk. -/
theorem locks_iff {g : St} {pre rest : List UInt8} {y : UInt8}
    (h : Represents g.q (pre ++ chN :: chU :: chX :: y :: rest)) (hlen : packetSize ≤ rest.length) :
    StopsBefore g rest ↔ Junk pre := by
  rw [stops_iff_tagAt h hlen]
  refine ⟨?_, ?_⟩
  · rintro ⟨junk, y', hj, e⟩
    obtain ⟨rfl, -⟩ := List.append_inj' e (by simp)
    exact hj
  · intro hj
    exact ⟨pre, y, hj, rfl⟩

theorem not_tag_before {q pre post : List UInt8} (hq : q = pre ++ post)
    (hfirst : ∀ i < pre.length, ¬ tagBytes <+: q.drop i) : ¬ tagBytes <:+: pre := by
  rintro ⟨a, b, rfl⟩
  refine hfirst a.length (by simp [tagBytes]) ⟨b ++ post, ?_⟩
  rw [hq, List.append_assoc, List.append_assoc, List.drop_left]

/-- **When resynchronisation locks on the first tag.** The queue holds `q`, whose first tag stands behind `pre` and is
followed by a byte and by at least 70 more. The search stops with everything up to that byte consumed exactly when `pre`
falls into blocks that each end with the first byte that breaks a tag. It does not exactly when `pre` consists of such
blocks and an 'N' or "NU" more. -/
theorem resync_iff (g : St) (q pre : List UInt8) (y : UInt8) (rest : List UInt8) (h : Represents g.q q)
    (hq : q = pre ++ chN :: chU :: chX :: y :: rest) (hfirst : ∀ i < pre.length, ¬ tagBytes <+: q.drop i)
    (hlen : packetSize ≤ rest.length) :
    (StopsBefore g rest ↔ Junk pre) ∧
      (¬ StopsBefore g rest ↔ ∃ j, Junk j ∧ (pre = j ++ [chN] ∨ pre = j ++ [chN, chU])) := by
  have hiff : StopsBefore g rest ↔ Junk pre := by
    rw [hq] at h
    exact locks_iff h hlen
  refine ⟨hiff, ?_⟩
  rw [hiff]
  refine ⟨?_, not_junk_of_partial⟩
  intro hnot
  exact (junk_or_cut pre (not_tag_before hq hfirst)).resolve_left hnot

/-- the receiver once `setup()` has run and the bytes q have been pushed -/
def pushed (q : List UInt8) : St := { setup (fun _ => 0) with q := (pushq (setupQueue fun _ => 0) q).2 }

theorem pushed_represents {q : List UInt8} (hq : q.length ≤ 255) : Represents (pushed q).q q :=
  (pushq_fits (represents_setup fun _ => 0) (by simpa using hq)).2

/-- two other bytes before a tag with 134 bytes behind it: the tag is found -/
theorem resync_iff_junk :
    StopsBefore (pushed ([0, 7] ++ chN :: chU :: chX :: chSpace :: List.replicate 134 0)) (List.replicate 134 0) := by
  refine (resync_iff _ _ [0, 7] chSpace _ (pushed_represents (by simp)) rfl ?_ (by simp [packetSize])).1.2 ?_
  · intro i hi
    have hi' : i < 2 := hi
    interval_cases i
    · decide
    · decide
  · exact .byte (by decide) (.byte (by decide) .nil)

/-- **"NNUx" is missed**, with 136 bytes behind it -/
theorem resync_missed :
    ¬ ∀ (g : St) (q pre : List UInt8) (y : UInt8) (rest : List UInt8), Represents g.q q → 2 * packetSize ≤ q.length →
      q = pre ++ chN :: chU :: chX :: y :: rest → (∀ i < pre.length, ¬ tagBytes <+: q.drop i) →
      packetSize ≤ rest.length → StopsBefore g rest := by
  intro h
  have hlen : packetSize ≤ (List.replicate 135 (0 : UInt8)).length := by simp [packetSize]
  have hrep : Represents (pushed ([chN] ++ chN :: chU :: chX :: chSpace :: List.replicate 135 0)).q _ :=
    pushed_represents (by simp)
  have hstop := h _ _ [chN] chSpace _ hrep (by simp [packetSize]) rfl ?_ hlen
  · exact not_junk_N ((locks_iff hrep hlen).1 hstop)
  · intro i hi
    have hi' : i < 1 := hi
    interval_cases i
    decide

end NuStars.Ground
