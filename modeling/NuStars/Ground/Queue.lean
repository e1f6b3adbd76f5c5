/-
The byte queue of the ground receiver (grounduino.ino, `queue`, `head`, `tail`, `sz`, `pushq`, `popq`): a 256-byte
block indexed by two `uint8_t` counters whose overflow does the wrapping, and a signed count `sz`.

`queue` is a function on `UInt8`: the block has 256 cells and every `uint8_t` is an index into it. Its contents after
`setup()` are whatever `malloc` returned, so they are an argument. `sz` is an unbounded integer. The length argument of
`pushq` is the length of the list `x`.

The abstract queue is a list of bytes with capacity 255 (`Fifo`). `Represents s q` says that the C state stands for the
list `q`; the list is determined by the state (`represents_unique`).

Results:
- `pushq_fits`, `pushq_refused`, `popq_spec`: one operation;
- `ring_refines_fifo`: from the state `setup()` leaves, along any sequence of pushes and pops in which no pop is made at
  `sz = 0`, the ring returns what the bounded FIFO returns and represents its contents.
-/
import NuStars.Core.Ring
import NuStars.Core.Run

namespace NuStars.Ground

open NuStars.Ring NuStars.Run

/-! ## Model -/

structure Queue where
  queue : UInt8 → UInt8
  head : UInt8
  tail : UInt8
  sz : ℤ

/-- the copy loop of `pushq`: `queue[tail++] = x[i]; sz++` for each byte -/
def pushBytes (s : Queue) : List UInt8 → Queue
  | [] => s
  | b :: x => pushBytes { s with queue := Function.update s.queue s.tail b, tail := s.tail + 1, sz := s.sz + 1 } x

def pushq (s : Queue) (x : List UInt8) : UInt8 × Queue :=
  if 255 - s.sz < (x.length : ℤ) then (0, s) else (1, pushBytes s x)

def popq (s : Queue) : UInt8 × Queue := (s.queue s.head, { s with head := s.head + 1, sz := s.sz - 1 })

/-- the queue `setup()` leaves, over the block `mem` that `malloc` returned -/
def setupQueue (mem : UInt8 → UInt8) : Queue := ⟨mem, 0, 0, 0⟩

/-! ## Representation -/

/-- the address of the i-th queued byte -/
def cell (head : UInt8) (i : ℕ) : UInt8 := head + UInt8.ofNat i

theorem cell_wraps (head : UInt8) : Wraps 256 (cell head) := by
  intro i j h
  have h' : UInt8.ofNat i = UInt8.ofNat j := (UInt8.add_right_inj head).1 h
  simpa using congrArg UInt8.toNat h'

theorem cell_zero (head : UInt8) : cell head 0 = head := by simp [cell]

theorem cell_succ (head : UInt8) (i : ℕ) : cell head (i + 1) = cell (head + 1) i := by
  simp only [cell, UInt8.ofNat_add, UInt8.add_assoc]
  rw [UInt8.add_comm (UInt8.ofNat i)]
  rfl

/-- the C state stands for the byte list `q`, oldest byte first -/
structure Represents (s : Queue) (q : List UInt8) : Prop where
  size : s.sz = q.length
  bound : q.length ≤ 255
  tail : s.tail = cell s.head q.length
  cells : Holds (cell s.head) s.queue q

theorem represents_unique {s : Queue} {q q' : List UInt8} (h : Represents s q) (h' : Represents s q') : q = q' := by
  have hlen : (q.length : ℤ) = q'.length := h.size.symm.trans h'.size
  exact holds_unique h.cells h'.cells (by exact_mod_cast hlen)

theorem represents_setup (mem : UInt8 → UInt8) : Represents (setupQueue mem) [] :=
  ⟨rfl, by simp, by simp [setupQueue, cell], holds_nil _ _⟩

/-- the representation in index form: `tail = (head + sz) mod 256` and `q_i = queue[(head + i) mod 256]` -/
theorem represents_iff (s : Queue) (q : List UInt8) :
    Represents s q ↔ s.sz = q.length ∧ q.length ≤ 255 ∧ s.tail.toNat = (s.head.toNat + q.length) % 256 ∧
      ∀ i (hi : i < q.length), s.queue (UInt8.ofNat ((s.head.toNat + i) % 256)) = q[i] := by
  have hcell : ∀ i, cell s.head i = UInt8.ofNat ((s.head.toNat + i) % 256) := by
    intro i
    apply UInt8.toNat.inj
    simp [cell]
  have htail : s.tail = cell s.head q.length ↔ s.tail.toNat = (s.head.toNat + q.length) % 256 := by
    rw [← UInt8.toNat_inj, hcell]
    simp
  refine ⟨?_, ?_⟩
  · rintro ⟨h1, h2, h3, h4⟩
    exact ⟨h1, h2, htail.1 h3, fun i hi => by rw [← hcell]; exact h4 i hi⟩
  · rintro ⟨h1, h2, h3, h4⟩
    exact ⟨h1, h2, htail.2 h3, fun i hi => by rw [hcell]; exact h4 i hi⟩

/-! ## One operation -/

theorem pushBytes_spec (s : Queue) (q x : List UInt8) (h : Represents s q) (hfit : q.length + x.length ≤ 255) :
    Represents (pushBytes s x) (q ++ x) := by
  induction x generalizing s q with
  | nil => simpa [pushBytes] using h
  | cons b x ih =>
    simp only [List.length_cons] at hfit
    have hstep : Represents
        { s with queue := Function.update s.queue s.tail b, tail := s.tail + 1, sz := s.sz + 1 } (q ++ [b]) := by
      refine ⟨by simp [h.size], by simp; omega, ?_, ?_⟩
      · simp [h.tail, cell, UInt8.add_assoc]
      · rw [h.tail]
        exact h.cells.snoc (cell_wraps s.head) (by omega) b
    have := ih _ (q ++ [b]) hstep (by simp; omega)
    simpa [pushBytes] using this

theorem pushq_fits {s : Queue} {q x : List UInt8} (h : Represents s q) (hfit : q.length + x.length ≤ 255) :
    (pushq s x).1 = 1 ∧ Represents (pushq s x).2 (q ++ x) := by
  have hroom : ¬ 255 - s.sz < (x.length : ℤ) := by rw [h.size]; omega
  simp only [pushq, if_neg hroom, true_and]
  exact pushBytes_spec s q x h hfit

theorem pushq_refused {s : Queue} {q x : List UInt8} (h : Represents s q) (hfull : 255 < q.length + x.length) :
    pushq s x = (0, s) := by
  have hroom : 255 - s.sz < (x.length : ℤ) := by rw [h.size]; omega
  simp only [pushq, if_pos hroom]

theorem popq_spec {s : Queue} {b : UInt8} {q : List UInt8} (h : Represents s (b :: q)) :
    (popq s).1 = b ∧ Represents (popq s).2 q := by
  have hb := h.cells.head
  rw [cell_zero] at hb
  have hlen := h.bound
  refine ⟨hb, ?_, ?_, ?_, ?_⟩
  · simp [popq, h.size]
  · simp at hlen; omega
  · simp only [popq, h.tail, List.length_cons, cell_succ]
  · have ht := h.cells.tail
    simp only [cell_succ] at ht
    exact ht

/-! ## Runs -/

inductive QOp where
  | push (x : List UInt8)
  | pop
deriving DecidableEq, Repr

/-- a queue together with the values its calls have returned so far, oldest first -/
structure QSt where
  q : Queue
  out : List UInt8

def stepQ (s : QSt) : QOp → QSt
  | .push x => ⟨(pushq s.q x).2, s.out ++ [(pushq s.q x).1]⟩
  | .pop => ⟨(popq s.q).2, s.out ++ [(popq s.q).1]⟩

/-- the bounded FIFO: the queued bytes and the values returned -/
structure Fifo where
  q : List UInt8
  out : List UInt8

/-- a push is taken whole when it fits into 255 bytes and refused whole otherwise; a pop removes the oldest byte -/
def stepFifo (s : Fifo) : QOp → Fifo
  | .push x =>
    if s.q.length + x.length ≤ 255 then ⟨s.q ++ x, s.out ++ [1]⟩ else ⟨s.q, s.out ++ [0]⟩
  | .pop =>
    match s.q with
    | [] => s
    | b :: q => ⟨q, s.out ++ [b]⟩

/-- the caller's side of the contract: "only call this after checking queue sz" -/
def Checked (s : QSt) (o : QOp) : Prop := o = .pop → 0 < s.q.sz

theorem step_refines {s : QSt} {f : Fifo} (o : QOp) (hs : Represents s.q f.q) (ho : s.out = f.out)
    (hc : Checked s o) : Represents (stepQ s o).q (stepFifo f o).q ∧ (stepQ s o).out = (stepFifo f o).out := by
  cases o with
  | push x =>
    simp only [stepQ, stepFifo]
    split_ifs with hfit
    · obtain ⟨h1, h2⟩ := pushq_fits hs hfit
      exact ⟨h2, by rw [h1, ho]⟩
    · rw [pushq_refused hs (by omega)]
      exact ⟨hs, by rw [ho]⟩
  | pop =>
    have hpos := hc rfl
    simp only [stepQ, stepFifo]
    cases hq : f.q with
    | nil =>
      have := hs.size
      rw [hq] at this
      simp at this; omega
    | cons b q =>
      rw [hq] at hs
      obtain ⟨h1, h2⟩ := popq_spec hs
      exact ⟨h2, by rw [h1, ho]⟩

theorem run_refines {s : QSt} {f : Fifo} (ops : List QOp) (hs : Represents s.q f.q) (ho : s.out = f.out)
    (hc : Along stepQ Checked s ops) :
    Represents (run stepQ s ops).q (run stepFifo f ops).q ∧ (run stepQ s ops).out = (run stepFifo f ops).out := by
  induction ops generalizing s f with
  | nil => exact ⟨hs, ho⟩
  | cons o ops ih =>
    obtain ⟨h0, hc⟩ := (along_cons _ _ _ _ _).1 hc
    obtain ⟨h1, h2⟩ := step_refines o hs ho h0
    exact ih h1 h2 hc

/-- a push moves only the tail: the unread bytes stay where they are -/
theorem pushq_keeps {s : Queue} {q : List UInt8} (h : Represents s q) (x : List UInt8) :
    (pushq s x).2.head = s.head ∧
      ∀ i < q.length, (pushq s x).2.queue (cell s.head i) = s.queue (cell s.head i) := by
  have hhead : ∀ (y : List UInt8) (t : Queue), (pushBytes t y).head = t.head := by
    intro y
    induction y with
    | nil => exact fun t => rfl
    | cons b y ih => exact fun t => ih _
  rcases Nat.lt_or_ge 255 (q.length + x.length) with hfull | hfit
  · rw [pushq_refused h hfull]
    exact ⟨rfl, fun i _ => rfl⟩
  · have hx : (pushq s x).2.head = s.head := by
      unfold pushq
      split_ifs
      · rfl
      · exact hhead x s
    refine ⟨hx, ?_⟩
    intro i hi
    have hcells := (pushq_fits h hfit).2.cells i (by simp; omega)
    rw [hx, List.getElem_append_left hi] at hcells
    rw [hcells, h.cells i hi]

/-- **The ring refines a bounded FIFO.** From the state `setup()` leaves over any block, run any pushes and pops with
every pop made at `sz > 0`. The calls return what the FIFO's calls return. In the state reached, `sz` is the number of
queued bytes, at most 255, `tail` is `(head + sz) mod 256` and byte i sits in cell `(head + i) mod 256`. There, a push
that fits returns 1 and appends all its bytes in order; any other returns 0 and changes nothing; neither touches an
unread byte; a pop returns and removes the oldest byte. -/
theorem ring_refines_fifo (mem : UInt8 → UInt8) (ops : List QOp)
    (hc : Along stepQ Checked ⟨setupQueue mem, []⟩ ops) :
    let s := run stepQ ⟨setupQueue mem, []⟩ ops
    let f := run stepFifo ⟨[], []⟩ ops
    s.out = f.out ∧ s.q.sz = f.q.length ∧ 0 ≤ s.q.sz ∧ s.q.sz ≤ 255 ∧
      s.q.tail.toNat = (s.q.head.toNat + f.q.length) % 256 ∧
      (∀ i (hi : i < f.q.length), s.q.queue (UInt8.ofNat ((s.q.head.toNat + i) % 256)) = f.q[i]) ∧
      (∀ x : List UInt8, f.q.length + x.length ≤ 255 →
        (pushq s.q x).1 = 1 ∧ Represents (pushq s.q x).2 (f.q ++ x)) ∧
      (∀ x : List UInt8, 255 < f.q.length + x.length → pushq s.q x = (0, s.q)) ∧
      (∀ x : List UInt8, (pushq s.q x).2.head = s.q.head ∧
        ∀ i < f.q.length, (pushq s.q x).2.queue (cell s.q.head i) = s.q.queue (cell s.q.head i)) ∧
      (∀ b q, f.q = b :: q → (popq s.q).1 = b ∧ Represents (popq s.q).2 q) := by
  intro s f
  obtain ⟨hr, hout⟩ := run_refines (f := ⟨[], []⟩) ops (represents_setup mem) rfl hc
  obtain ⟨hsz, hle, htail, hcells⟩ := (represents_iff _ _).1 hr
  have hle' : s.q.sz ≤ 255 := by rw [hsz]; exact_mod_cast hle
  refine ⟨hout, hsz, by rw [hsz]; omega, hle', htail, hcells, fun x hx => pushq_fits hr hx,
    fun x hx => pushq_refused hr hx, fun x => pushq_keeps hr x, fun b q hq => ?_⟩
  rw [hq] at hr
  exact popq_spec hr

/-- three bytes in, one out, one more in, over a block of 0xFF -/
theorem ring_refines_fifo_run :
    (run stepQ ⟨setupQueue fun _ => 0xFF, []⟩ [.push [1, 2, 3], .pop, .push [4]]).out = [1, 1, 1] ∧
      (run stepQ ⟨setupQueue fun _ => 0xFF, []⟩ [.push [1, 2, 3], .pop, .push [4]]).q.sz = 3 := by
  have hc : Along stepQ Checked ⟨setupQueue fun _ => 0xFF, []⟩ [.push [1, 2, 3], .pop, .push [4]] := by
    simp only [along_cons, along_nil, and_true]
    exact ⟨nofun, fun _ => by decide, nofun⟩
  obtain ⟨hout, hsz, -⟩ := ring_refines_fifo _ _ hc
  exact ⟨hout, hsz⟩

end NuStars.Ground
