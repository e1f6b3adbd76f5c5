/-
What parse.m makes of a log of records of any lengths, each the tag and a body.

No occurrence of "NUx" lies across the end of a record: its second or third byte would be the 'N' of the next tag. So
when no body contains "NUx", the matches are the starts of the records, whatever their lengths.

- `parse_eq`: the script decodes at each match but the last;
- `tagSearch_records`: the matches in a log of records;
- `parse_records`: the entries, when every record but the last has the 69 bytes an entry reads;
- `decode_words`: a packet decodes to what was packed, with its last single read as a uint32.
-/
import NuStars.Parser.Frames

namespace NuStars.Parser

open NuStars.Avionics NuStars.Ground

/-! ## Matches -/

/-- the script, without its counter -/
theorem parse_eq (data : List UInt8) :
    parse data = (tagSearch data).bind fun mtch => mtch.dropLast.mapM (decode data) := by
  unfold parse
  refine congrArg (Option.bind (tagSearch data)) (funext fun mtch => ?_)
  have hindex : ∀ k (hk : k < mtch.dropLast.length), index mtch (1 + k) = some mtch.dropLast[k] := by
    intro k hk
    rw [List.length_dropLast] at hk
    rw [index_eq (Nat.le_add_right 1 k), Nat.add_sub_cancel_left, List.getElem_dropLast,
      List.getElem?_eq_getElem (Nat.lt_of_lt_of_le hk (Nat.sub_le _ _))]
  have hmap : (List.range' 1 (mtch.length - 1)).map (parseEntry data mtch) = mtch.dropLast.map (decode data) := by
    apply List.ext_getElem
    · simp
    · intro k hk hk'
      rw [List.length_map] at hk'
      rw [List.getElem_map, List.getElem_map, List.getElem_range', Nat.one_mul, parseEntry, hindex k hk']
      rfl
  calc (List.range' 1 (mtch.length - 1)).mapM (parseEntry data mtch)
      = ((List.range' 1 (mtch.length - 1)).map (parseEntry data mtch)).mapM id := by rw [List.mapM_map]; rfl
    _ = (mtch.dropLast.map (decode data)).mapM id := by rw [hmap]
    _ = mtch.dropLast.mapM (decode data) := by rw [List.mapM_map]; rfl

/-- nothing occurs across a boundary behind which stands an 'N' -/
theorem occurs_append {a r : List UInt8} (hr : ∀ x, r[0]? = some x → x = chN) (p : ℕ) :
    Occurs (a ++ r) p ↔ Occurs a p ∨ ∃ q, p = a.length + q ∧ Occurs r q := by
  have hright : ∀ q, Occurs (a ++ r) (a.length + q) ↔ Occurs r q := by
    intro q
    simp only [Occurs, Nat.add_assoc, List.getElem?_append_right (Nat.le_add_right _ _), Nat.add_sub_cancel_left]
  have hfirst : ∀ x, x ≠ chN → (a ++ r)[a.length]? ≠ some x := by
    intro x hx hget
    rw [List.getElem?_append_right le_rfl, Nat.sub_self] at hget
    exact hx (hr x hget)
  refine ⟨?_, ?_⟩
  · intro h
    rcases Nat.lt_or_ge p a.length with hp | hp
    · left
      rcases Nat.lt_or_ge (p + 2) a.length with hin | hout
      · have hleft : ∀ i, i < a.length → (a ++ r)[i]? = a[i]? := fun i hi => List.getElem?_append_left hi
        rwa [Occurs, hleft p hp, hleft (p + 1) (Nat.lt_of_succ_lt hin), hleft (p + 2) hin] at h
      · rcases Nat.lt_or_ge (p + 1) a.length with hin' | hout'
        · have hend : p + 2 = a.length := Nat.le_antisymm hin' hout
          exact absurd (hend ▸ h.2.2) (hfirst chX (by decide))
        · have hend : p + 1 = a.length := Nat.le_antisymm hp hout'
          exact absurd (hend ▸ h.2.1) (hfirst chU (by decide))
    · right
      refine ⟨p - a.length, (Nat.add_sub_cancel' hp).symm, ?_⟩
      rw [← hright, Nat.add_sub_cancel' hp]
      exact h
  · rintro (h | ⟨q, rfl, h⟩)
    · have hlt := h.lt
      have hleft : ∀ i, i < a.length → (a ++ r)[i]? = a[i]? := fun i hi => List.getElem?_append_left hi
      rw [Occurs, hleft p (by omega), hleft (p + 1) (by omega), hleft (p + 2) hlt]
      exact h
    · exact (hright q).2 h

/-- the starts of records that begin behind n bytes, counted from 1 -/
def startsFrom (n : ℕ) : List (List UInt8) → List ℕ
  | [] => []
  | r :: rs => (n + 1) :: startsFrom (n + r.length) rs

theorem lt_of_mem_starts {n o : ℕ} {rs : List (List UInt8)} (h : o ∈ startsFrom n rs) : n < o := by
  induction rs generalizing n with
  | nil => cases h
  | cons r rs ih =>
    rcases List.mem_cons.1 h with rfl | h
    · exact Nat.lt_succ_self n
    · exact Nat.lt_of_le_of_lt (Nat.le_add_right n _) (ih h)

theorem startsFrom_snoc (n : ℕ) (rs : List (List UInt8)) (r : List UInt8) :
    ∃ o, startsFrom n (rs ++ [r]) = startsFrom n rs ++ [o] := by
  induction rs generalizing n with
  | nil => exact ⟨n + 1, rfl⟩
  | cons r' rs ih =>
    obtain ⟨o, ho⟩ := ih (n + r'.length)
    exact ⟨o, by rw [List.cons_append, startsFrom, ho]; rfl⟩

/-- in a log of records "NUx" occurs at their starts -/
theorem occurs_records {bodies : List (List UInt8)} (h : ∀ b ∈ bodies, ¬ tagBytes <:+: b) (n p : ℕ) :
    Occurs (bodies.map frame).flatten p ↔ n + p + 1 ∈ startsFrom n (bodies.map frame) := by
  induction bodies generalizing n p with
  | nil =>
    refine iff_of_false ?_ List.not_mem_nil
    intro ho
    exact absurd ho.lt (Nat.not_lt_zero _)
  | cons b bodies ih =>
    have hnext : ∀ x, (bodies.map frame).flatten[0]? = some x → x = chN := by
      intro x hx
      cases bodies with
      | nil => cases hx
      | cons b' bodies => exact (Option.some.inj hx).symm
    have hb : Occurs (frame b) p ↔ p = 0 := by
      rw [occurs_frame]
      refine or_iff_left ?_
      rintro ⟨i, -, hi⟩
      exact h b List.mem_cons_self ((infix_iff_occurs b).2 ⟨i, hi⟩)
    have hrest := ih (fun b' hb' => h b' (List.mem_cons_of_mem b hb')) (n + (frame b).length)
    rw [List.map_cons, List.flatten_cons, occurs_append hnext, hb, startsFrom, List.mem_cons]
    refine or_congr ?_ ?_
    · exact ⟨fun hp => by rw [hp, Nat.add_zero], fun hp => by omega⟩
    · refine ⟨?_, ?_⟩
      · rintro ⟨q, rfl, hq⟩
        rw [← Nat.add_assoc]
        exact (hrest q).1 hq
      · intro hmem
        have hlt := lt_of_mem_starts hmem
        obtain ⟨q, rfl⟩ := Nat.exists_eq_add_of_le (show (frame b).length ≤ p by omega)
        rw [← Nat.add_assoc] at hmem
        exact ⟨q, rfl, (hrest q).2 hmem⟩

theorem startsFrom_sorted (n : ℕ) (bodies : List (List UInt8)) : (startsFrom n (bodies.map frame)).Pairwise (· < ·) := by
  induction bodies generalizing n with
  | nil => exact List.Pairwise.nil
  | cons b bodies ih =>
    refine List.Pairwise.cons ?_ (ih _)
    intro o ho
    have hlt := lt_of_mem_starts ho
    have hpos : 0 < (frame b).length := by simp [frame, tag]
    omega

/-- **The tag search on a log of records** -/
theorem tagSearch_records {bodies : List (List UInt8)} (hne : bodies ≠ []) (h : ∀ b ∈ bodies, ¬ tagBytes <:+: b) :
    tagSearch (bodies.map frame).flatten = some (startsFrom 0 (bodies.map frame)) := by
  have hlen : 3 ≤ (bodies.map frame).flatten.length := by
    obtain ⟨b, bs, rfl⟩ := List.exists_cons_of_ne_nil hne
    rw [List.map_cons, List.flatten_cons, List.length_append, frame, List.length_append]
    exact (Nat.le_succ 3).trans ((Nat.le_add_right 4 _).trans (Nat.le_add_right _ _))
  obtain ⟨mtch, hm, hmatches⟩ := tagSearch_matches hlen
  rw [hm]
  refine congrArg some (List.Pairwise.eq_of_mem_iff hmatches.sorted (startsFrom_sorted 0 bodies) ?_)
  intro o
  cases o with
  | zero =>
    refine iff_of_false (fun h0 => absurd ((hmatches.mem 0).1 h0).1 (by decide)) ?_
    intro h0
    exact absurd (lt_of_mem_starts h0) (lt_irrefl 0)
  | succ p =>
    rw [hmatches.mem, Nat.add_sub_cancel, and_iff_right (Nat.le_add_left 1 p), occurs_records h 0 p, Nat.zero_add]

/-! ## Entries -/

/-- each record decodes as if it stood alone -/
theorem decode_records {bodies : List (List UInt8)} (h : ∀ b ∈ bodies, 65 ≤ b.length) (before after : List UInt8) :
    (startsFrom before.length (bodies.map frame)).mapM (decode (before ++ (bodies.map frame).flatten ++ after)) =
      bodies.mapM fun b => decode (frame b) 1 := by
  induction bodies generalizing before with
  | nil => rfl
  | cons b bodies ih =>
    have hsize : 69 ≤ (frame b).length := by
      rw [frame, List.length_append]
      exact Nat.add_le_add_left (h b List.mem_cons_self) 4
    have hdata : before ++ ((b :: bodies).map frame).flatten ++ after =
        (before ++ frame b) ++ (bodies.map frame).flatten ++ after := by
      rw [List.map_cons, List.flatten_cons, ← List.append_assoc]
    have hfirst : decode (before ++ ((b :: bodies).map frame).flatten ++ after) (before.length + 1) =
        decode (frame b) 1 := by
      have hlen : before.length + 1 + 68 ≤ (before ++ ((b :: bodies).map frame).flatten ++ after).length := by
        rw [hdata]
        simp only [List.length_append]
        omega
      rw [decode_window (Nat.le_add_left 1 _) hlen, decode_window le_rfl hsize, Nat.add_sub_cancel, Nat.sub_self,
        List.drop_zero, List.append_assoc, List.drop_left, List.map_cons, List.flatten_cons, List.append_assoc,
        List.take_append_of_le_length hsize]
    have hrest := ih (fun b' hb' => h b' (List.mem_cons_of_mem b hb')) (before ++ frame b)
    rw [List.length_append] at hrest
    rw [List.map_cons, startsFrom, List.mapM_cons, List.mapM_cons]
    rw [List.map_cons] at hdata hfirst
    rw [hfirst, hdata, hrest]

/-- **The entries of a log of records**: all but the last one, which may be cut off -/
theorem parse_records {bodies : List (List UInt8)} (hne : bodies ≠ []) (hno : ∀ b ∈ bodies, ¬ tagBytes <:+: b)
    (hlen : ∀ b ∈ bodies.dropLast, 65 ≤ b.length) :
    parse (bodies.map frame).flatten = bodies.dropLast.mapM fun b => decode (frame b) 1 := by
  obtain ⟨bs, b, rfl⟩ := (List.eq_nil_or_concat bodies).resolve_left hne
  rw [List.concat_eq_append] at hne hno hlen ⊢
  rw [List.dropLast_concat] at hlen ⊢
  obtain ⟨o, ho⟩ := startsFrom_snoc 0 (bs.map frame) (frame b)
  have hall := decode_records hlen [] (frame b)
  rw [List.nil_append, List.length_nil] at hall
  rw [parse_eq, tagSearch_records hne hno, Option.bind_some, List.map_append, List.map_singleton, ho,
    List.dropLast_concat, List.flatten_append, List.flatten_singleton]
  exact hall

/-- the entries of records `body x` that decode to `entry x` -/
theorem parse_entries {α : Type*} {body : α → List UInt8} {entry : α → Entry} {xs : List α} (hne : xs ≠ [])
    (hlen : ∀ x ∈ xs, 65 ≤ (body x).length) (hno : ∀ x ∈ xs, ¬ tagBytes <:+: body x)
    (hdec : ∀ x ∈ xs, decode (frame (body x)) 1 = some (entry x)) :
    parse ((xs.map body).map frame).flatten = some (xs.dropLast.map entry) := by
  have hclean : ∀ b ∈ xs.map body, ¬ tagBytes <:+: b := by
    intro b hb
    obtain ⟨x, hx, rfl⟩ := List.mem_map.1 hb
    exact hno x hx
  have hsize : ∀ b ∈ (xs.map body).dropLast, 65 ≤ b.length := by
    intro b hb
    obtain ⟨x, hx, rfl⟩ := List.mem_map.1 (List.dropLast_subset _ hb)
    exact hlen x hx
  rw [parse_records (mt List.map_eq_nil_iff.1 hne) hclean hsize, ← List.map_dropLast]
  refine mapM_eq_some.2 ?_
  rw [List.forall₂_map_left_iff, List.forall₂_map_right_iff]
  apply List.forall₂_same.2
  intro x hx
  exact hdec x (List.dropLast_subset xs hx)

/-! ## Packets -/

/-- the four bytes of a value -/
def bits : Value → UInt32
  | .uint32 w => w
  | .single w => w

/-- the entry with the last field read as a uint32 -/
def misread (e : Entry) : Entry := { e with numSat := .uint32 (bits e.numSat) }

theorem decode_words (single : ℚ → UInt32) (maxAcc : ℚ) (r : Readings) (raven : UInt8) (after : List UInt8) :
    decode (encode (fieldWords single maxAcc r) raven ++ after) 1 = some (misread (packedEntry single maxAcc r raven)) := by
  have h : decode ([] ++ encode (fieldWords single maxAcc r) raven ++ after) ([].length + 1) =
      some (misread (packedEntry single maxAcc r raven)) :=
    decode_encode [] after _ _ _ _ _ _ _ _ _ _ _ _ _ _ _ _ raven
  rwa [List.nil_append] at h

theorem padSingle_cases (q : ℚ) : padSingle q = 0xC3480000 ∨ padSingle q = 0x43480000 ∨ padSingle q = 0 := by
  unfold padSingle
  split_ifs
  · exact Or.inl rfl
  · exact Or.inr (Or.inl rfl)
  · exact Or.inr (Or.inr rfl)

/-- the packets of a rocket on the pad imitate no tag -/
theorem pad_clean (maxAcc : ℚ) :
    ¬ tagBytes <:+: (encode (fieldWords padSingle maxAcc (padReadings 1 allHigh)) 0).drop 4 := by
  obtain ⟨q, hwords⟩ : ∃ q, fieldWords padSingle maxAcc (padReadings 1 allHigh) =
      [1, 0, 0, 0, 0, 0, 0] ++ List.replicate 3 (padSingle (-200)) ++ [0, 0, 0, 0, 0, padSingle q] :=
    ⟨_, by simp [fieldWords, padReadings, adxl, ADXL.getAcceleration, ADXL.switch]; rfl⟩
  have hx : padSingle (-200) = 0xC3480000 := if_pos rfl
  rw [hwords, hx]
  rcases padSingle_cases q with h | h | h
  · rw [h]
    decide +kernel
  · rw [h]
    decide +kernel
  · rw [h]
    decide +kernel

end NuStars.Parser
