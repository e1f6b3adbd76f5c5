/-
A list held in a memory through an address map `ix : ℕ → ι`, where only finitely many addresses are distinct
(`Wraps n ix`: two positions share a cell only when they agree mod n). A ring buffer is the case where `ix i` is the
address i places after the head.

- `Holds.snoc`: writing at the first free position appends, as long as fewer than n positions are in use;
- `Holds.tail`: advancing the map by one position removes the oldest element;
- `holds_unique`: the list held is determined by its length.
-/
import Mathlib.Tactic

namespace NuStars.Ring

variable {ι α : Type*}

/-- `mem` holds the elements of `q`, oldest first, at the addresses `ix 0, ix 1, …` -/
def Holds (ix : ℕ → ι) (mem : ι → α) (q : List α) : Prop := ∀ i (hi : i < q.length), mem (ix i) = q[i]

/-- two positions share an address only if they agree mod `n` -/
def Wraps (n : ℕ) (ix : ℕ → ι) : Prop := ∀ i j, ix i = ix j → i % n = j % n

theorem holds_nil (ix : ℕ → ι) (mem : ι → α) : Holds ix mem [] := by
  intro i hi
  simp at hi

theorem Holds.head {ix : ℕ → ι} {mem : ι → α} {b : α} {q : List α} (h : Holds ix mem (b :: q)) : mem (ix 0) = b :=
  h 0 (by simp)

theorem Holds.tail {ix : ℕ → ι} {mem : ι → α} {b : α} {q : List α} (h : Holds ix mem (b :: q)) :
    Holds (fun i => ix (i + 1)) mem q :=
  fun i hi => h (i + 1) (by simpa using hi)

theorem holds_unique {ix : ℕ → ι} {mem : ι → α} {q q' : List α} (h : Holds ix mem q) (h' : Holds ix mem q')
    (hlen : q.length = q'.length) : q = q' :=
  List.ext_getElem hlen fun i hi hi' => (h i hi).symm.trans (h' i hi')

theorem Holds.snoc [DecidableEq ι] {n : ℕ} {ix : ℕ → ι} (hix : Wraps n ix) {mem : ι → α} {q : List α}
    (h : Holds ix mem q) (hq : q.length < n) (b : α) :
    Holds ix (Function.update mem (ix q.length) b) (q ++ [b]) := by
  intro i hi
  rcases Nat.lt_or_ge i q.length with hlt | hge
  · have hne : ix i ≠ ix q.length := by
      intro e
      have := hix i q.length e
      rw [Nat.mod_eq_of_lt (hlt.trans hq), Nat.mod_eq_of_lt hq] at this
      omega
    rw [Function.update_of_ne hne, List.getElem_append_left hlt]
    exact h i hlt
  · have hi' : i = q.length := by simp at hi; omega
    subst hi'
    simp

end NuStars.Ring
