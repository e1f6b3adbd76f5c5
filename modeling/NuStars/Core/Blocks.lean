/-
Concatenations of blocks of one length n.

- `length_blocks`, `take_blocks`, `drop_blocks`: length, and cutting at a multiple of n;
- `drop_blocks_cons`: from the start of a block there is that block and then the rest;
- `get_blocks`: the element at a place in a block.
-/
import Mathlib.Tactic

namespace NuStars.Blocks

variable {α : Type*}

theorem length_blocks {n : ℕ} {bs : List (List α)} (h : ∀ b ∈ bs, b.length = n) :
    bs.flatten.length = n * bs.length := by
  induction bs with
  | nil => simp
  | cons b bs ih =>
    rw [List.flatten_cons, List.length_append, h b List.mem_cons_self,
      ih fun b' hb' => h b' (List.mem_cons_of_mem b hb'), List.length_cons, Nat.mul_succ, Nat.add_comm]

theorem take_blocks {n : ℕ} {bs : List (List α)} (h : ∀ b ∈ bs, b.length = n) (k : ℕ) :
    bs.flatten.take (n * k) = (bs.take k).flatten := by
  induction bs generalizing k with
  | nil => simp
  | cons b bs ih =>
    cases k with
    | zero => simp
    | succ k =>
      have hb : b.length = n := h b List.mem_cons_self
      rw [List.flatten_cons, List.take_succ_cons, List.flatten_cons, List.take_append,
        List.take_of_length_le (by rw [hb, Nat.mul_succ]; omega), hb,
        show n * (k + 1) - n = n * k by rw [Nat.mul_succ]; omega,
        ih (fun b' hb' => h b' (List.mem_cons_of_mem b hb')) k]

theorem drop_blocks {n : ℕ} {bs : List (List α)} (h : ∀ b ∈ bs, b.length = n) (k : ℕ) :
    bs.flatten.drop (n * k) = (bs.drop k).flatten := by
  have hsplit : bs.flatten = bs.flatten.take (n * k) ++ (bs.drop k).flatten := by
    rw [take_blocks h, ← List.flatten_append, List.take_append_drop]
  conv_lhs => rw [hsplit]
  rcases Nat.lt_or_ge k bs.length with hk | hk
  · rw [List.drop_append_of_le_length, List.drop_eq_nil_of_le, List.nil_append]
    · simp
    · rw [List.length_take, length_blocks h]
      exact le_min le_rfl (Nat.mul_le_mul_left n hk.le)
  · have hnil : bs.drop k = [] := List.drop_eq_nil_of_le hk
    rw [hnil, List.flatten_nil, List.append_nil, List.drop_eq_nil_of_le]
    simp

theorem drop_blocks_cons {n : ℕ} {bs : List (List α)} (h : ∀ b ∈ bs, b.length = n) {k : ℕ} (hk : k < bs.length) :
    bs.flatten.drop (n * k) = bs[k] ++ bs.flatten.drop (n * (k + 1)) := by
  rw [drop_blocks h, drop_blocks h, List.drop_eq_getElem_cons hk, List.flatten_cons]

theorem get_blocks {n : ℕ} {bs : List (List α)} (h : ∀ b ∈ bs, b.length = n) (k j : ℕ) (hj : j < n) :
    bs.flatten[n * k + j]? = bs[k]?.bind fun b => b[j]? := by
  rcases Nat.lt_or_ge k bs.length with hk | hk
  · have hlen : bs[k].length = n := h _ (List.getElem_mem hk)
    rw [← List.getElem?_drop, drop_blocks_cons h hk, List.getElem?_append_left (by omega), List.getElem?_eq_getElem hk,
      Option.bind_some]
  · rw [List.getElem?_eq_none (by rw [length_blocks h]; exact (Nat.mul_le_mul_left n hk).trans (Nat.le_add_right _ j)),
      List.getElem?_eq_none hk, Option.bind_none]

end NuStars.Blocks
