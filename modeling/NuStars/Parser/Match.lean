/-
The tag search and the decoding loop of parse.m.

`eMatch = (data == ['N' 'U' 'x'])` is an array with a row for each byte and three columns, and `length` of it is the
larger of the two dimensions. The search walks along it and marks, in `xMatch`, the rows where the three letters follow
one another; `match = find(xMatch)`. The loop decodes an entry for each match but the last one. `&&` does not evaluate
its right side when the left one is false, so the search indexes no further than it must. An index outside an array ends
the script (`none`), and so does the comparison when the file is empty: `data` is then 0×0 and does not fit 1×3.

- `tagSearch_eq`: on three bytes or more the search returns all occurrences of "NUx", in increasing order;
- `decode_window`, `decode_isSome`: an entry depends on the 69 bytes from its offset on, and is decoded iff they exist.
-/
import NuStars.Parser.Decode

namespace NuStars.Parser

/-! ## Model -/

/-- the rows of `data == ['N' 'U' 'x']` -/
def letterRows (data : List UInt8) : List (Bool × Bool × Bool) := data.map fun b => (b == chN, b == chU, b == chX)

/-- `eMatch` -/
def eMatch (data : List UInt8) : Option (List (Bool × Bool × Bool)) :=
  if data.isEmpty then none else some (letterRows data)

/-- `length` of an array of three columns -/
def length3 (rows : ℕ) : ℕ := if rows = 0 then 0 else max rows 3

/-- `eMatch(i, 1) && eMatch(i+1, 2) && eMatch(i+2, 3)` -/
def test (rows : List (Bool × Bool × Bool)) (i : ℕ) : Option Bool := do
  let r1 ← index rows i
  if r1.1 then
    let r2 ← index rows (i + 1)
    if r2.2.1 then
      let r3 ← index rows (i + 2)
      return r3.2.2
    else return false
  else return false

/-- `xMatch` after the search loop; true is 1 -/
def xMatch (data : List UInt8) : Option (List Bool) := do
  let rows ← eMatch data
  let n := length3 rows.length
  (List.range' 1 (n - 2)).foldlM (fun x i => do return if ← test rows i then x.set (i - 1) true else x)
    (List.replicate n false)

def find (x : List Bool) : List ℕ := (List.range' 1 x.length).filter fun i => x[i - 1]? == some true

/-- `match` -/
def tagSearch (data : List UInt8) : Option (List ℕ) := (xMatch data).map find

/-- the entries the script decodes -/
def parse (data : List UInt8) : Option (List Entry) := do
  let mtch ← tagSearch data
  (List.range' 1 (mtch.length - 1)).mapM (parseEntry data mtch)

/-! ## Arrays -/

section
variable {α : Type*}

theorem index_eq {data : List α} {i : ℕ} (hi : 1 ≤ i) : index data i = data[i - 1]? := if_neg (by omega)

theorem index_isSome (data : List α) {i : ℕ} (hi : 1 ≤ i) (hlen : i ≤ data.length) :
    ∃ x, index data i = some x := by
  rw [index_eq hi]
  exact ⟨_, List.getElem?_eq_getElem (by omega)⟩

theorem slice_eq {data : List α} {a b : ℕ} (ha : 1 ≤ a) (hab : a ≤ b) (hb : b ≤ data.length) :
    slice data a b = some ((data.drop (a - 1)).take (b + 1 - a)) := by
  rw [slice, if_neg (by omega), if_neg (by omega)]

/-- setting flags one after another -/
theorem foldl_set (f : ℕ → Bool) (is : List ℕ) (x : List Bool) :
    (is.foldl (fun x i => if f i then x.set (i - 1) true else x) x).length = x.length ∧
      ∀ j < x.length, (is.foldl (fun x i => if f i then x.set (i - 1) true else x) x)[j]? = some true ↔
        x[j]? = some true ∨ ∃ i ∈ is, i - 1 = j ∧ f i = true := by
  induction is generalizing x with
  | nil => simp
  | cons i is ih =>
    rw [List.foldl_cons]
    obtain ⟨hlen, hget⟩ := ih (if f i then x.set (i - 1) true else x)
    have hx : (if f i then x.set (i - 1) true else x).length = x.length := by
      split_ifs
      · exact List.length_set
      · rfl
    refine ⟨hlen.trans hx, ?_⟩
    intro j hj
    rw [hget j (by omega)]
    by_cases hf : f i = true
    · by_cases hij : i - 1 = j
      · subst hij
        simp [hf, hj]
      · simp [hf, hij]
    · simp [hf]

theorem foldlM_some {β : Type*} {g : β → α → Option β} {h : β → α → β} (is : List α) (x : β)
    (hg : ∀ y, ∀ i ∈ is, g y i = some (h y i)) : is.foldlM g x = some (is.foldl h x) := by
  induction is generalizing x with
  | nil => rfl
  | cons i is ih =>
    rw [List.foldlM_cons, hg x i List.mem_cons_self]
    exact ih _ fun y j hj => hg y j (List.mem_cons_of_mem i hj)

theorem mapM_eq_some {β : Type*} {f : α → Option β} {as : List α} {bs : List β} :
    as.mapM f = some bs ↔ List.Forall₂ (fun a b => f a = some b) as bs := by
  induction as generalizing bs with
  | nil => simp [eq_comm]
  | cons a as ih =>
    rw [List.mapM_cons, List.forall₂_cons_left_iff]
    refine ⟨?_, ?_⟩
    · intro h
      simp only [Option.bind_eq_bind, Option.bind_eq_some_iff, Option.pure_def, Option.some.injEq] at h
      obtain ⟨b, hb, bs', hbs, rfl⟩ := h
      exact ⟨b, bs', hb, ih.1 hbs, rfl⟩
    · rintro ⟨b, bs', hb, hbs, rfl⟩
      rw [hb, ih.2 hbs]
      rfl

theorem mapM_some {β : Type*} {g : α → Option β} (is : List α) (h : ∀ i ∈ is, ∃ y, g i = some y) :
    ∃ ys, is.mapM g = some ys ∧ ys.length = is.length ∧
      ∀ k (hk : k < is.length) (hk' : k < ys.length), g is[k] = some ys[k] := by
  have hsome : ∃ ys, is.mapM g = some ys := by
    induction is with
    | nil => exact ⟨[], rfl⟩
    | cons i is ih =>
      obtain ⟨y, hy⟩ := h i List.mem_cons_self
      obtain ⟨ys, hys⟩ := ih fun j hj => h j (List.mem_cons_of_mem i hj)
      exact ⟨y :: ys, by rw [List.mapM_cons, hy, hys]; rfl⟩
  obtain ⟨ys, hys⟩ := hsome
  have hall := mapM_eq_some.1 hys
  exact ⟨ys, hys, hall.length_eq.symm, fun k hk hk' => hall.get hk hk'⟩

end

/-! ## The search -/

/-- "NUx" stands at the place p, counted from 0 -/
def Occurs (data : List UInt8) (p : ℕ) : Prop :=
  data[p]? = some chN ∧ data[p + 1]? = some chU ∧ data[p + 2]? = some chX

instance (data : List UInt8) (p : ℕ) : Decidable (Occurs data p) := by unfold Occurs; infer_instance

theorem Occurs.lt {data : List UInt8} {p : ℕ} (h : Occurs data p) : p + 2 < data.length :=
  (List.getElem?_eq_some_iff.1 h.2.2).1

theorem infix_iff_occurs (data : List UInt8) : tagBytes <:+: data ↔ ∃ p, Occurs data p := by
  refine ⟨?_, ?_⟩
  · rintro ⟨a, c, rfl⟩
    exact ⟨a.length, by simp [Occurs, tagBytes]⟩
  · rintro ⟨p, h⟩
    have hlt := h.lt
    obtain ⟨h0, h1, h2⟩ := h
    rw [List.getElem?_eq_getElem (by omega), Option.some.injEq] at h0 h1 h2
    refine ⟨data.take p, data.drop (p + 3), ?_⟩
    calc data.take p ++ tagBytes ++ data.drop (p + 3)
        = data.take p ++ (data[p] :: data[p + 1] :: data[p + 2] :: data.drop (p + 3)) := by
          rw [h0, h1, h2]
          simp [tagBytes]
      _ = data.take p ++ data.drop p := by
          rw [← List.drop_eq_getElem_cons, ← List.drop_eq_getElem_cons, ← List.drop_eq_getElem_cons]
      _ = data := List.take_append_drop p data

theorem index_letterRows {data : List UInt8} {i : ℕ} (hi : 1 ≤ i) (hlen : i ≤ data.length) :
    ∃ b, data[i - 1]? = some b ∧ index (letterRows data) i = some (b == chN, b == chU, b == chX) := by
  have hb : data[i - 1]? = some data[i - 1] := List.getElem?_eq_getElem (by omega)
  refine ⟨_, hb, ?_⟩
  rw [index_eq hi, letterRows, List.getElem?_map, hb]
  rfl

/-- inside the array the test is a test for the three letters -/
theorem test_eq {data : List UInt8} {i : ℕ} (hi : 1 ≤ i) (hlen : i + 2 ≤ data.length) :
    test (letterRows data) i = some (decide (Occurs data (i - 1))) := by
  obtain ⟨b0, hb0, h0⟩ := index_letterRows hi (show i ≤ data.length by omega)
  obtain ⟨b1, hb1, h1⟩ := index_letterRows (show 1 ≤ i + 1 by omega) (show i + 1 ≤ data.length by omega)
  obtain ⟨b2, hb2, h2⟩ := index_letterRows (show 1 ≤ i + 2 by omega) hlen
  rw [show i + 1 - 1 = i - 1 + 1 by omega] at hb1
  rw [show i + 2 - 1 = i - 1 + 2 by omega] at hb2
  have hocc : Occurs data (i - 1) ↔ b0 = chN ∧ b1 = chU ∧ b2 = chX := by
    rw [Occurs, hb0, hb1, hb2]
    simp only [Option.some.injEq]
  simp only [test, h0, h1, h2, Option.bind_eq_bind, Option.bind_some, hocc]
  by_cases hN : b0 = chN
  · by_cases hU : b1 = chU
    · simp [hN, hU, beq_eq_decide]
    · simp [hN, hU]
  · simp [hN]

/-- **The search returns all occurrences** of "NUx", in increasing order. -/
theorem tagSearch_eq {data : List UInt8} (hlen : 3 ≤ data.length) :
    tagSearch data = some ((List.range' 1 (data.length - 2)).filter fun i => Occurs data (i - 1)) := by
  have hrows : eMatch data = some (letterRows data) := by
    rw [eMatch, if_neg]
    rw [List.isEmpty_iff]
    exact List.ne_nil_of_length_pos (by omega)
  have hn : length3 (letterRows data).length = data.length := by
    rw [letterRows, List.length_map, length3, if_neg (by omega)]
    omega
  have hfold : xMatch data = some ((List.range' 1 (data.length - 2)).foldl
      (fun x i => if decide (Occurs data (i - 1)) then x.set (i - 1) true else x)
      (List.replicate data.length false)) := by
    simp only [xMatch, hrows, Option.bind_eq_bind, Option.bind_some, hn]
    apply foldlM_some
    intro x i hi
    rw [List.mem_range'_1] at hi
    rw [test_eq (by omega) (by omega)]
    rfl
  obtain ⟨hsize, hget⟩ := foldl_set (fun i => decide (Occurs data (i - 1))) (List.range' 1 (data.length - 2))
    (List.replicate data.length false)
  rw [List.length_replicate] at hsize hget
  rw [tagSearch, hfold, Option.map_some, find, hsize]
  refine congrArg some (List.Pairwise.eq_of_mem_iff (r := (· < ·)) ?_ ?_ ?_)
  · exact (List.pairwise_lt_range' (s := 1) (n := data.length)).filter _
  · exact (List.pairwise_lt_range' (s := 1) (n := data.length - 2)).filter _
  · intro i
    rw [List.mem_filter, List.mem_filter, List.mem_range'_1, List.mem_range'_1]
    rw [beq_iff_eq, decide_eq_true_iff]
    refine ⟨?_, ?_⟩
    · rintro ⟨hi, hx⟩
      rcases (hget (i - 1) (by omega)).1 hx with h0 | ⟨i', hi', heq, hocc⟩
      · rw [List.getElem?_replicate] at h0
        split_ifs at h0
        cases h0
      · rw [List.mem_range'_1] at hi'
        obtain rfl : i' = i := by omega
        exact ⟨hi', of_decide_eq_true hocc⟩
    · rintro ⟨hi, hocc⟩
      exact ⟨by omega, (hget (i - 1) (by omega)).2 (Or.inr ⟨i, List.mem_range'_1.2 hi, rfl, decide_eq_true hocc⟩)⟩

/-- the matches are the occurrences, counted from 1 and in increasing order -/
structure Matches (data : List UInt8) (mtch : List ℕ) : Prop where
  sorted : mtch.Pairwise (· < ·)
  mem : ∀ o, o ∈ mtch ↔ 1 ≤ o ∧ Occurs data (o - 1)

theorem tagSearch_matches {data : List UInt8} (hlen : 3 ≤ data.length) :
    ∃ mtch, tagSearch data = some mtch ∧ Matches data mtch := by
  refine ⟨_, tagSearch_eq hlen, (List.pairwise_lt_range' (s := 1)).filter _, ?_⟩
  intro o
  rw [List.mem_filter, List.mem_range'_1, decide_eq_true_iff]
  refine ⟨fun h => ⟨h.1.1, h.2⟩, ?_⟩
  rintro ⟨h1, ho⟩
  have hlt := ho.lt
  exact ⟨by omega, ho⟩

namespace Matches
variable {data : List UInt8} {mtch : List ℕ}

/-- two successive matches -/
theorem next (h : Matches data mtch) {i o o' : ℕ} (hi : index mtch i = some o) (hi' : index mtch (i + 1) = some o') :
    1 ≤ o ∧ o < o' ∧ Occurs data (o - 1) ∧ Occurs data (o' - 1) := by
  have hpos : 1 ≤ i := by
    by_contra h0
    obtain rfl : i = 0 := by omega
    cases hi
  rw [index_eq hpos] at hi
  rw [index_eq (by omega), Nat.add_sub_cancel] at hi'
  obtain ⟨hilt, higet⟩ := List.getElem?_eq_some_iff.1 hi
  obtain ⟨hilt', higet'⟩ := List.getElem?_eq_some_iff.1 hi'
  have hlt := List.pairwise_iff_getElem.1 h.sorted (i - 1) i hilt hilt' (by omega)
  rw [higet, higet'] at hlt
  obtain ⟨ho, hocc⟩ := (h.mem o).1 (List.mem_of_getElem? hi)
  exact ⟨ho, hlt, hocc, ((h.mem o').1 (List.mem_of_getElem? hi')).2⟩

/-- the match behind an occurrence is at most any later occurrence -/
theorem behind (h : Matches data mtch) {p q : ℕ} (hp : Occurs data p) (hq : Occurs data q) (hpq : p < q) :
    ∃ i o, index mtch i = some (p + 1) ∧ index mtch (i + 1) = some o ∧ o ≤ q + 1 := by
  obtain ⟨a, ha, hpa⟩ := List.getElem_of_mem ((h.mem (p + 1)).2 ⟨by omega, hp⟩)
  obtain ⟨b, hb, hqb⟩ := List.getElem_of_mem ((h.mem (q + 1)).2 ⟨by omega, hq⟩)
  have hab : a < b := by
    by_contra hge
    rcases Nat.lt_or_ge b a with hlt | hge'
    · have := List.pairwise_iff_getElem.1 h.sorted b a hb ha hlt
      omega
    · obtain rfl : a = b := by omega
      omega
  refine ⟨a + 1, mtch[a + 1], ?_, ?_, ?_⟩
  · rw [index_eq (by omega), Nat.add_sub_cancel, List.getElem?_eq_getElem ha, hpa]
  · rw [index_eq (by omega), Nat.add_sub_cancel, List.getElem?_eq_getElem]
  · rcases Nat.lt_or_ge (a + 1) b with hlt | hge
    · have := List.pairwise_iff_getElem.1 h.sorted (a + 1) b (by omega) hb hlt
      omega
    · obtain rfl : b = a + 1 := by omega
      exact hqb.le

end Matches

/-! ## One entry -/

/-- the indices the body of the loop reads -/
def reads (offset : ℕ) : List ℕ := [offset, offset + 1, offset + 2] ++ List.range' (offset + 4) 65

theorem mem_reads {offset r : ℕ} (h : r ∈ reads offset) : offset ≤ r ∧ r ≤ offset + 68 := by
  simp only [reads, List.mem_append, List.mem_cons, List.not_mem_nil, or_false, List.mem_range'_1] at h
  omega

theorem last_mem_reads (offset : ℕ) : offset + 68 ∈ reads offset := by
  simp [reads, List.mem_range'_1]

/-- **An entry depends on the 69 bytes from its offset on.** -/
theorem decode_window {data : List UInt8} {o : ℕ} (ho : 1 ≤ o) (hlen : o + 68 ≤ data.length) :
    decode data o = decode ((data.drop (o - 1)).take 69) 1 := by
  have hsize : ((data.drop (o - 1)).take 69).length = 69 := by
    rw [List.length_take, List.length_drop]
    omega
  have hidx : ∀ j, j ≤ 68 → index data (o + j) = index ((data.drop (o - 1)).take 69) (1 + j) := by
    intro j hj
    rw [index_eq (by omega), index_eq (by omega), List.getElem?_take_of_lt (by omega), List.getElem?_drop]
    congr 1
    omega
  have hslice : ∀ a b, a ≤ b → b ≤ 68 →
      slice data (o + a) (o + b) = slice ((data.drop (o - 1)).take 69) (1 + a) (1 + b) := by
    intro a b hab hb
    rw [slice_eq (by omega) (by omega) (by omega), slice_eq (by omega) (by omega) (by omega), List.drop_take,
      List.take_take, List.drop_drop]
    congr 2
    · omega
    · congr 1
      omega
  have h0 : index data o = index ((data.drop (o - 1)).take 69) 1 := hidx 0 (by omega)
  simp (disch := omega) only [decode, h0, hidx, hslice]

/-- **When an entry is decoded**: when all it reads is in the file. -/
theorem decode_isSome {data : List UInt8} {o : ℕ} (ho : 1 ≤ o) :
    (decode data o).isSome = true ↔ ∀ r ∈ reads o, r ≤ data.length := by
  refine ⟨?_, ?_⟩
  · intro h r hr
    by_contra hlt
    have hlast : index data (o + 68) = none := by
      rw [index_eq (by omega), List.getElem?_eq_none]
      have := (mem_reads hr).2
      omega
    simp [decode, hlast] at h
  · intro h
    have hlen : o + 68 ≤ data.length := h _ (last_mem_reads o)
    have hidx : ∀ j, j ≤ 68 → index data (o + j) = some (data[o + j - 1]?.getD 0) := by
      intro j hj
      rw [index_eq (by omega), List.getElem?_eq_getElem (by omega), Option.getD_some]
    have h0 : index data o = some (data[o - 1]?.getD 0) := hidx 0 (by omega)
    have hslice : ∀ a b, a ≤ b → b ≤ 68 →
        slice data (o + a) (o + b) = some ((data.drop (o + a - 1)).take (o + b + 1 - (o + a))) := by
      intro a b hab hb
      exact slice_eq (by omega) (by omega) (by omega)
    simp (disch := omega) [decode, h0, hidx, hslice]

end NuStars.Parser
