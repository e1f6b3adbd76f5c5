/-
What the checksum test of `parse` keeps out.

`read` leaves the newline of a line at the start of the next one, and the sum begins at the third byte, so '$' is not
summed and the body is. The first line after the start has no newline in front.

- `sum_zero`: the test passes when the two digits are the XOR of the body;
- `checksum_gate`: which sentences reach the parser of the fields.
-/
import NuStars.Gps.Parse
import NuStars.Gps.Read

namespace NuStars.Gps

open NuStars.CString

/-- the two digits of a checksum -/
def hexValue (h₁ h₂ : UInt8) : UInt8 := parseHex h₁ * 16 + parseHex h₂

/-- a sentence as a GPS sends it, up to the newline -/
def sentence (body : List UInt8) (star h₁ h₂ : UInt8) : List UInt8 :=
  chDollar :: body ++ [star, h₁, h₂, chReturn]

theorem parseHex_lt (c : UInt8) : (parseHex c).toNat < 16 := by
  unfold parseHex
  split_ifs with hdigit hnine hletter hf
  · decide
  · have hle := UInt8.le_iff_toNat_le.1 hnine
    rw [UInt8.toNat_sub_of_le _ _ (UInt8.not_lt.1 hdigit)]
    exact (Nat.sub_le_sub_right hle _).trans_lt (by decide)
  · decide
  · have hle := UInt8.le_iff_toNat_le.1 hf
    rw [UInt8.toNat_add, UInt8.toNat_sub_of_le _ _ (UInt8.not_lt.1 hletter)]
    exact (Nat.mod_le _ _).trans_lt ((Nat.add_le_add_right (Nat.sub_le_sub_right hle _) _).trans_lt (by decide))
  · decide

theorem foldl_xor_wide (c : UInt8) (l : List UInt8) :
    l.foldl (fun sum b => sum ^^^ b.toUInt16) c.toUInt16 = (c ^^^ xorAll l).toUInt16 := by
  induction l generalizing c with
  | nil => simp
  | cons b l ih => rw [List.foldl_cons, ← UInt8.toUInt16_xor, ih, xorAll_cons, UInt8.xor_assoc]

theorem hexValue_wide (h₁ h₂ : UInt8) :
    (parseHex h₁).toUInt16 * 16 + (parseHex h₂).toUInt16 = (hexValue h₁ h₂).toUInt16 := by
  have hhigh := parseHex_lt h₁
  have hlow := parseHex_lt h₂
  rw [← UInt16.toNat_inj]
  simp [hexValue, UInt16.toNat_add, UInt16.toNat_mul]
  omega

/-- the fourth, third and second byte from the end -/
theorem frame_bytes (l : List UInt8) (star h₁ h₂ c : UInt8) :
    let s := l ++ [star, h₁, h₂, c]
    ¬ s.length < 4 ∧ s[s.length - 4]? = some star ∧ s.getD (s.length - 3) 0 = h₁ ∧ s.getD (s.length - 2) 0 = h₂ := by
  intro s
  have hlen : s.length = l.length + 4 := by simp [s]
  have hat : ∀ k, s[l.length + k]? = [star, h₁, h₂, c][k]? := by
    intro k
    rw [List.getElem?_append_right (Nat.le_add_right _ _), Nat.add_sub_cancel_left]
  rw [hlen]
  refine ⟨by omega, hat 0, ?_, ?_⟩
  · rw [List.getD_eq_getElem?_getD]
    exact congrArg (Option.getD · 0) (hat 1)
  · rw [List.getD_eq_getElem?_getD]
    exact congrArg (Option.getD · 0) (hat 2)

/-- the sum leaves out two bytes at the start -/
theorem sum_zero (l : List UInt8) (star h₁ h₂ c : UInt8) :
    sum (l ++ [star, h₁, h₂, c]) = 0 ↔ hexValue h₁ h₂ = xorAll (l.drop 2) := by
  obtain ⟨_, _, hfirst, hsecond⟩ := frame_bytes l star h₁ h₂ c
  have hbody : ((l ++ [star, h₁, h₂, c]).drop 2).take ((l ++ [star, h₁, h₂, c]).length - 4 - 2) = l.drop 2 := by
    rw [List.drop_append]
    refine List.take_left' ?_
    simp
  have hzero : (0 : UInt16) = (0 : UInt8).toUInt16 := rfl
  rw [sum]
  simp only [hfirst, hsecond, hbody]
  rw [hexValue_wide, foldl_xor_wide, hzero]
  refine ⟨fun h => ?_, fun h => ?_⟩
  · have hxor : hexValue h₁ h₂ ^^^ xorAll (l.drop 2) = 0 := UInt8.toUInt16_inj.1 h
    exact UInt8.xor_eq_zero_iff.1 hxor
  · rw [h, UInt8.xor_self]

/-- `parse` of a line that ends like a sentence -/
theorem parse_frame (g : Fields) (l : List UInt8) (star h₁ h₂ c : UInt8) (r : List UInt8)
    (h : 0 ∉ l ++ [star, h₁, h₂, c]) (hlong : l.length < 256) :
    parse g (l ++ [star, h₁, h₂, c] ++ 0 :: r) =
      if star = chStar ∧ hexValue h₁ h₂ ≠ xorAll (l.drop 2) then some (g, false)
      else parseSentence g (l ++ [star, h₁, h₂, c]) (l ++ [star, h₁, h₂, c] ++ 0 :: r) := by
  obtain ⟨hlen, hstar, _⟩ := frame_bytes l star h₁ h₂ c
  have hends : ¬ 256 ≤ (l ++ [star, h₁, h₂, c]).length - 4 := by
    rw [List.length_append]
    exact not_le.2 hlong
  have hsum := not_congr (sum_zero l star h₁ h₂ c)
  rw [parse, text_append h]
  simp only [Option.bind_eq_bind, Option.bind_some, if_neg hlen, hstar, Option.pure_def, hends, and_false, if_false,
    hsum]

/-- `parse` of a line without a '*' -/
theorem parse_untested (g : Fields) {l : List UInt8} (r : List UInt8) (h : 0 ∉ l) (hlong : 4 ≤ l.length)
    (hstar : chStar ∉ l) : parse g (l ++ 0 :: r) = parseSentence g l (l ++ 0 :: r) := by
  have hat : l[l.length - 4]? = some (l[l.length - 4]) := List.getElem?_eq_getElem _
  have hne : l[l.length - 4] ≠ chStar := fun heq => hstar (heq ▸ List.getElem_mem _)
  rw [parse, text_append h]
  simp only [Option.bind_eq_bind, Option.bind_some, if_neg (not_lt.2 hlong), hat, hne, false_and, if_false]

theorem sentence_nonzero {body : List UInt8} {star h₁ h₂ : UInt8} (hbody : 0 ∉ body) (hstar : star ≠ 0) (hh₁ : h₁ ≠ 0)
    (hh₂ : h₂ ≠ 0) : 0 ∉ sentence body star h₁ h₂ := by
  rw [sentence, List.cons_append, List.mem_cons, List.mem_append, List.mem_cons, List.mem_cons, List.mem_cons,
    List.mem_singleton]
  rintro (h | h | h | h | h | h)
  · cases h
  · exact hbody h
  · exact hstar h.symm
  · exact hh₁ h.symm
  · exact hh₂ h.symm
  · cases h

theorem line_nonzero {body : List UInt8} {star h₁ h₂ : UInt8} (hbody : 0 ∉ body) (hstar : star ≠ 0) (hh₁ : h₁ ≠ 0)
    (hh₂ : h₂ ≠ 0) : 0 ∉ chNewline :: sentence body star h₁ h₂ := by
  rw [List.mem_cons, not_or]
  exact ⟨by decide, sentence_nonzero hbody hstar hh₁ hh₂⟩

theorem parse_line (g : Fields) {body : List UInt8} {star h₁ h₂ : UInt8} (r : List UInt8) (hbody : 0 ∉ body)
    (hstar : star ≠ 0) (hh₁ : h₁ ≠ 0) (hh₂ : h₂ ≠ 0) (hlong : body.length < 254) :
    let line := chNewline :: sentence body star h₁ h₂
    parse g (line ++ 0 :: r) =
      if star = chStar ∧ hexValue h₁ h₂ ≠ xorAll body then some (g, false) else parseSentence g line (line ++ 0 :: r) :=
  parse_frame g (chNewline :: chDollar :: body) star h₁ h₂ chReturn r (line_nonzero hbody hstar hh₁ hh₂)
    (Nat.add_lt_add_right hlong 2)

/-- a sentence without a newline in front: the sum lacks the first byte of the body -/
theorem parse_first (g : Fields) {body : List UInt8} {h₁ h₂ : UInt8} (r : List UInt8) (hbody : 0 ∉ body) (hh₁ : h₁ ≠ 0)
    (hh₂ : h₂ ≠ 0) (hlong : body.length < 254) (hwrong : hexValue h₁ h₂ ≠ xorAll body.tail) :
    parse g (sentence body chStar h₁ h₂ ++ 0 :: r) = some (g, false) := by
  have hnz := sentence_nonzero hbody (by decide : chStar ≠ 0) hh₁ hh₂
  have hfirst := parse_frame g (chDollar :: body) chStar h₁ h₂ chReturn r hnz
    (by rw [List.length_cons]; omega)
  refine hfirst.trans (if_pos ⟨rfl, ?_⟩)
  rwa [List.drop_succ_cons, List.drop_one]

/-- the sum without the first byte is another one -/
theorem xorAll_tail {body : List UInt8} (hne : body ≠ []) (hbody : 0 ∉ body) : xorAll body ≠ xorAll body.tail := by
  obtain ⟨c, rest, rfl⟩ := List.exists_cons_of_ne_nil hne
  intro h
  have hc : c = 0 := by
    rw [xorAll_cons] at h
    exact (UInt8.xor_left_inj (xorAll rest)).1 (h.trans UInt8.zero_xor.symm)
  exact hbody (hc ▸ List.mem_cons_self)

/-- **A damaged sentence changes nothing.** Of the lines behind a newline that have their '*', those reach the parser
of the fields whose two digits are the XOR of the body; every other one is refused with all fields as they were. So a
sentence is refused when a byte of its body has changed, unless it is 0 now: then the text ends there, and what is in
front of it is not tested. A sentence that has lost its '*' is not tested either. A sentence that is all right is
refused when no newline came before it, as happens to the first one after the start. -/
theorem checksum_gate (g : Fields) (body r : List UInt8) (h₁ h₂ : UInt8) (hbody : 0 ∉ body) (hlong : body.length < 254)
    (hh₁ : h₁ ≠ 0) (hh₂ : h₂ ≠ 0) :
    let parsed (line : List UInt8) := parse g (line ++ 0 :: r)
    let reached (line : List UInt8) := parseSentence g line (line ++ 0 :: r)
    let line (body : List UInt8) (star : UInt8) := chNewline :: sentence body star h₁ h₂
    parsed (line body chStar) =
        (if hexValue h₁ h₂ = xorAll body then reached (line body chStar) else some (g, false)) ∧
      (∀ star, star ≠ 0 → star ≠ chStar → parsed (line body star) = reached (line body star)) ∧
      (hexValue h₁ h₂ = xorAll body →
        (∀ i b, i < body.length → b ≠ 0 → body[i]? ≠ some b → parsed (line (body.set i b) chStar) = some (g, false)) ∧
        (body ≠ [] → parsed (sentence body chStar h₁ h₂) = some (g, false))) ∧
      (chStar ∉ body → ∀ i, 2 ≤ i → i < body.length →
        let cut := line (body.set i 0) chStar
        parsed cut = parseSentence g (chNewline :: chDollar :: body.take i) (cut ++ 0 :: r)) := by
  intro parsed reached line
  have hparsed : ∀ body star, 0 ∉ body → body.length < 254 → star ≠ 0 → parsed (line body star) =
      if star = chStar ∧ hexValue h₁ h₂ ≠ xorAll body then some (g, false) else reached (line body star) :=
    fun body star hb hl hs => parse_line g r hb hs hh₁ hh₂ hl
  have hbad : ∀ body, 0 ∉ body → body.length < 254 → hexValue h₁ h₂ ≠ xorAll body →
      parsed (line body chStar) = some (g, false) := by
    intro body hb hl hne
    rw [hparsed body chStar hb hl (by decide), if_pos ⟨rfl, hne⟩]
  refine ⟨?_, ?_, fun hgood => ⟨?_, ?_⟩, ?_⟩
  · split_ifs with hgood
    · rw [hparsed body chStar hbody hlong (by decide), if_neg fun h => h.2 hgood]
    · exact hbad body hbody hlong hgood
  · intro star hs hne
    rw [hparsed body star hbody hlong hs, if_neg fun h => hne h.1]
  · intro i b hi hb hne
    have hnz : 0 ∉ body.set i b := by
      intro hmem
      rcases List.mem_or_eq_of_mem_set hmem with h | h
      · exact hbody h
      · exact hb h.symm
    refine hbad _ hnz (by rwa [List.length_set]) fun heq => hne ?_
    rw [hgood, xorAll_set body i hi b] at heq
    have hxor := (UInt8.xor_right_inj (xorAll body)).1 (UInt8.xor_zero.trans heq)
    rw [List.getElem?_eq_getElem hi, UInt8.xor_eq_zero_iff.1 hxor.symm]
  · intro hcons
    exact parse_first g r hbody hh₁ hh₂ hlong (hgood ▸ xorAll_tail hcons hbody)
  · intro hnostar i hi hlt cut
    have hsplit : cut ++ 0 :: r = chNewline :: chDollar :: body.take i ++
        0 :: (body.drop (i + 1) ++ [chStar, h₁, h₂, chReturn] ++ 0 :: r) := by
      simp [cut, line, sentence, List.set_eq_take_append_cons_drop, hlt]
    have hmem : ∀ b, b ∈ chNewline :: chDollar :: body.take i → b = chNewline ∨ b = chDollar ∨ b ∈ body := by
      intro b hb
      simp only [List.mem_cons] at hb
      exact hb.imp_right (Or.imp_right List.mem_of_mem_take)
    have hcut := parse_untested g (body.drop (i + 1) ++ [chStar, h₁, h₂, chReturn] ++ 0 :: r)
      (l := chNewline :: chDollar :: body.take i) (fun h => ?_) ?_ (fun h => ?_)
    · rw [← hsplit] at hcut
      exact hcut
    · rcases hmem 0 h with h | h | h
      · cases h
      · cases h
      · exact hbody h
    · simp
      omega
    · rcases hmem chStar h with h | h | h
      · cases h
      · cases h
      · exact hnostar h

/-- "GPGGA,123519.000,4807.0380,N,01131.0000,E,1,08,0.9,545.4,M,46.9,M,," -/
def sampleBody : List UInt8 :=
  [0x47, 0x50, 0x47, 0x47, 0x41, 0x2C, 0x31, 0x32, 0x33, 0x35, 0x31, 0x39, 0x2E, 0x30, 0x30, 0x30, 0x2C, 0x34, 0x38,
    0x30, 0x37, 0x2E, 0x30, 0x33, 0x38, 0x30, 0x2C, 0x4E, 0x2C, 0x30, 0x31, 0x31, 0x33, 0x31, 0x2E, 0x30, 0x30, 0x30,
    0x30, 0x2C, 0x45, 0x2C, 0x31, 0x2C, 0x30, 0x38, 0x2C, 0x30, 0x2E, 0x39, 0x2C, 0x35, 0x34, 0x35, 0x2E, 0x34, 0x2C,
    0x4D, 0x2C, 0x34, 0x36, 0x2E, 0x39, 0x2C, 0x4D, 0x2C, 0x2C]

/-- the sentence; with "4801" for "4807", with a space for its '*', with no newline before it, and cut behind its time -/
theorem checksum_sample :
    let parsed (line : List UInt8) := parse initialFields (line ++ [0])
    let reached (line : List UInt8) := parseSentence initialFields line (line ++ [0])
    let line (body : List UInt8) (star : UInt8) := chNewline :: sentence body star 0x35 0x39
    parsed (line sampleBody chStar) = reached (line sampleBody chStar) ∧
      parsed (line (sampleBody.set 20 0x31) chStar) = some (initialFields, false) ∧
      parsed (line sampleBody 0x20) = reached (line sampleBody 0x20) ∧
      parsed (sentence sampleBody chStar 0x35 0x39) = some (initialFields, false) ∧
      parsed (line (sampleBody.set 16 0) chStar) =
        parseSentence initialFields (chNewline :: chDollar :: sampleBody.take 16)
          (line (sampleBody.set 16 0) chStar ++ [0]) := by
  intro parsed reached line
  obtain ⟨hwhole, hlost, hsound, hcut⟩ := checksum_gate initialFields sampleBody [] 0x35 0x39 (by decide) (by decide)
    (by decide) (by decide)
  obtain ⟨hchanged, hfirst⟩ := hsound (by decide)
  exact ⟨hwhole.trans (if_pos (by decide)), hchanged 20 0x31 (by decide) (by decide) (by decide),
    hlost 0x20 (by decide) (by decide), hfirst (by decide), hcut (by decide) 16 (by decide) (by decide)⟩

end NuStars.Gps
