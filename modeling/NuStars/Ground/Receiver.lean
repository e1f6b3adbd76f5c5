/-
The ground receiver's `loop()` (grounduino.ino): it receives one radio message, pushes it, and once 140 bytes are queued
searches for the tag, reads 65 bytes and a checksum byte, and writes the frame to Serial when the checksum agrees.

The two search loops test neither `sz` nor the number of pops, so they are fuelled loops (`Loop.loopN`), and
`Returns g m g'` says that `loop()` called on the message m returns, for some fuel. `popq` reads stale cells of the
block when the queue is empty, exactly as the code does. The state also records that this happened (`underrun`), and the
bytes of the messages the queue accepted (`accepted`).

`Junk` and `TagAt` say which tags the search recognises: after a byte that breaks a tag it goes on with the byte behind
it, so in "NNUx" it sees no tag.

Results:
- `search_sound`, `search_complete`: the search returns exactly when a tag it can recognise is queued with at least 70
  bytes behind its space byte, and it then stops there with nothing stale read;
- `search_stuck`: below 70 bytes it never returns;
- `loop_det`: `loop()` has one result.
-/
import NuStars.Core.Loop
import NuStars.Ground.Queue
import NuStars.Packet

namespace NuStars.Ground

open NuStars.Loop NuStars.Run

/-! ## Concrete model -/

structure St where
  q : Queue
  /-- every byte written to Serial -/
  serial : List UInt8
  /-- the bytes of the messages for which pushq returned 1 -/
  accepted : List UInt8
  /-- popq was called while the queue was empty -/
  underrun : Bool

/-- the state `setup()` leaves -/
def setup (mem : UInt8 → UInt8) : St := ⟨setupQueue mem, [], [], false⟩

def St.popq (g : St) : UInt8 × St :=
  ((NuStars.Ground.popq g.q).1,
    { g with q := (NuStars.Ground.popq g.q).2, underrun := g.underrun || decide (g.q.sz ≤ 0) })

/-- the guard and the step of the scan for 'N': the state is (`x`, the receiver) -/
def notN (p : UInt8 × St) : Bool := p.1 != chN
def next (p : UInt8 × St) : Option (UInt8 × St) := some p.2.popq

/-- `for (uint8_t x = 0; x != 'N'; x = popq());` -/
def seekN (fuel : ℕ) (g : St) : Option (UInt8 × St) := loopN notN next fuel (0, g)

/-- one pass of the tag search: the state is (`done`, the receiver) -/
def searchBody (fuel : ℕ) (p : Bool × St) : Option (Bool × St) :=
  (seekN fuel p.2).map fun r =>
    let (u, g1) := r.2.popq
    if u = chU then
      let (x, g2) := g1.popq
      if x = chX then (true, g2.popq.2) else (p.1, g2)
    else (p.1, g1)

/-- `while (!done || sz < PACKET_SIZE)` -/
def searching (p : Bool × St) : Bool := !p.1 || decide (p.2.q.sz < packetSize)

def search (fuel : ℕ) (g : St) : Option (Bool × St) := loopN searching (searchBody fuel) fuel (false, g)

/-- n passes of the read loop: (`checksum`, `buf`, the receiver) -/
def readBuf : ℕ → UInt8 → List UInt8 → St → UInt8 × List UInt8 × St
  | 0, checksum, buf, g => (checksum, buf, g)
  | n + 1, checksum, buf, g => readBuf n (checksum ^^^ g.popq.1) (buf ++ [g.popq.1]) g.popq.2

/-- the block under `if (done)` -/
def readPacket (g : St) : St :=
  let (checksum, buf, g1) := readBuf (packetSize - 5) 0 [] g
  let (c, g2) := g1.popq
  if checksum = c then { g2 with serial := g2.serial ++ tag ++ buf } else g2

/-- `pushq(recvBuf, len)`, whose result `loop()` ignores -/
def receive (g : St) (m : List UInt8) : St :=
  { g with
    q := (pushq g.q m).2
    accepted := if (pushq g.q m).1 = 1 then g.accepted ++ m else g.accepted }

/-- `loop()` once the message m has arrived -/
def loop (fuel : ℕ) (g : St) (m : List UInt8) : Option St :=
  let g := receive g m
  if 2 * (packetSize : ℤ) ≤ g.q.sz then
    (search fuel g).map fun p => if p.1 then readPacket p.2 else p.2
  else some g

/-- `loop()`, called on m in state g, returns and leaves g' -/
def Returns (g : St) (m : List UInt8) (g' : St) : Prop := ∃ fuel, loop fuel g m = some g'

/-! ## What the search skips -/

/-- bytes the search throws away: each block ends with the first byte that breaks a tag, which is not looked at again -/
inductive Junk : List UInt8 → Prop where
  | nil : Junk []
  | byte {b : UInt8} {q : List UInt8} : b ≠ chN → Junk q → Junk (b :: q)
  | brokenU {b : UInt8} {q : List UInt8} : b ≠ chU → Junk q → Junk (chN :: b :: q)
  | brokenX {b : UInt8} {q : List UInt8} : b ≠ chX → Junk q → Junk (chN :: chU :: b :: q)

/-- the search over the queue `q` recognises a tag after some junk; `rest` is what follows the tag's space byte -/
def TagAt (q rest : List UInt8) : Prop := ∃ junk y, Junk junk ∧ q = junk ++ chN :: chU :: chX :: y :: rest

theorem tagAt_here (y : UInt8) (rest : List UInt8) : TagAt (chN :: chU :: chX :: y :: rest) rest :=
  ⟨[], y, .nil, rfl⟩

theorem TagAt.byte {b : UInt8} {q rest : List UInt8} (hb : b ≠ chN) (h : TagAt q rest) : TagAt (b :: q) rest := by
  obtain ⟨junk, y, hj, rfl⟩ := h
  exact ⟨b :: junk, y, .byte hb hj, rfl⟩

theorem TagAt.skip {pre q rest : List UInt8} (hpre : chN ∉ pre) (h : TagAt q rest) : TagAt (pre ++ q) rest := by
  induction pre with
  | nil => exact h
  | cons b pre ih =>
    simp only [List.mem_cons, not_or] at hpre
    exact (ih hpre.2).byte (Ne.symm hpre.1)

theorem TagAt.brokenU {b : UInt8} {q rest : List UInt8} (hb : b ≠ chU) (h : TagAt q rest) :
    TagAt (chN :: b :: q) rest := by
  obtain ⟨junk, y, hj, rfl⟩ := h
  exact ⟨chN :: b :: junk, y, .brokenU hb hj, rfl⟩

theorem TagAt.brokenX {b : UInt8} {q rest : List UInt8} (hb : b ≠ chX) (h : TagAt q rest) :
    TagAt (chN :: chU :: b :: q) rest := by
  obtain ⟨junk, y, hj, rfl⟩ := h
  exact ⟨chN :: chU :: b :: junk, y, .brokenX hb hj, rfl⟩

/-! ## Pops -/

/-- `g` is `g0` with its queue holding `q` -/
structure Holding (g0 : St) (q : List UInt8) (g : St) : Prop where
  rep : Represents g.q q
  serial : g.serial = g0.serial
  accepted : g.accepted = g0.accepted
  underrun : g.underrun = g0.underrun

theorem popq_holding {g0 g : St} {b : UInt8} {q : List UInt8} (h : Holding g0 (b :: q) g) :
    g.popq.1 = b ∧ Holding g0 q g.popq.2 := by
  obtain ⟨hb, hr⟩ := popq_spec h.rep
  have hpos : ¬ g.q.sz ≤ 0 := by rw [h.rep.size]; simp
  exact ⟨hb, hr, h.serial, h.accepted, by simp [St.popq, hpos, h.underrun]⟩

@[simp] theorem popq_sz (g : St) : g.popq.2.q.sz = g.q.sz - 1 := rfl

/-! ## The search for 'N' -/

theorem next_sz {c : ℤ} (s t : UInt8 × St) (hs : s.2.q.sz ≤ c) (h : next s = some t) : t.2.q.sz ≤ c := by
  simp only [next, Option.some.injEq] at h
  rw [← h, popq_sz]
  omega

theorem seekN_sz {fuel : ℕ} {g g' : St} {x : UInt8} (h : seekN fuel g = some (x, g')) : g'.q.sz ≤ g.q.sz :=
  (loopN_inv (I := fun p => p.2.q.sz ≤ g.q.sz) (fun s t hs _ ht => next_sz s t hs ht) le_rfl h).1

theorem notN_of_ne {x : UInt8} (hx : x ≠ chN) (g : St) : notN (x, g) = true := by simpa [notN] using hx

theorem next_eq (x : UInt8) (g : St) : next (x, g) = some g.popq := rfl

theorem next_holding {g0 g : St} {b x : UInt8} {q : List UInt8} (h : Holding g0 (b :: q) g) :
    next (x, g) = some (b, g.popq.2) := by
  rw [← (popq_holding h).1]
  rfl

/-- from any byte other than 'N' the scan stops behind the first queued 'N', or else it has run past the end -/
theorem seek_sound {g0 g g' : St} {q : List UInt8} {x x' : UInt8} {n : ℕ} (h : Holding g0 q g) (hx : x ≠ chN)
    (hr : loopN notN next n (x, g) = some (x', g')) :
    (∃ pre post, q = pre ++ chN :: post ∧ chN ∉ pre ∧ Holding g0 post g') ∨ g'.q.sz < 0 := by
  induction q generalizing g x n with
  | nil =>
    right
    cases n with
    | zero => simp [loopN] at hr
    | succ n =>
      rw [loopN_step (notN_of_ne hx g) (next_eq x g)] at hr
      have h0 : g.popq.2.q.sz ≤ -1 := by rw [popq_sz, h.rep.size]; simp
      have := (loopN_inv (I := fun p => p.2.q.sz ≤ -1) (fun s t hs _ ht => next_sz s t hs ht) h0 hr).1
      simp only at this; omega
  | cons b q ih =>
    cases n with
    | zero => simp [loopN] at hr
    | succ n =>
      rw [loopN_step (notN_of_ne hx g) (next_holding h)] at hr
      obtain ⟨-, hq⟩ := popq_holding h
      by_cases hb : b = chN
      · left
        cases n with
        | zero => simp [loopN] at hr
        | succ n =>
          rw [loopN_exit (by simp [notN, hb])] at hr
          simp only [Option.some.injEq, Prod.mk.injEq] at hr
          obtain ⟨-, rfl⟩ := hr
          exact ⟨[], q, by rw [hb]; rfl, by simp, hq⟩
      · rcases ih hq hb hr with ⟨pre, post, rfl, hpre, hpost⟩ | hneg
        · refine Or.inl ⟨b :: pre, post, rfl, ?_, hpost⟩
          simp only [List.mem_cons, not_or]
          exact ⟨Ne.symm hb, hpre⟩
        · exact Or.inr hneg

theorem seekN_here {g0 g : St} {q : List UInt8} (h : Holding g0 (chN :: q) g) :
    seekN 2 g = some (chN, g.popq.2) := by
  rw [seekN, loopN_step (notN_of_ne (by decide) g) (next_holding h), loopN_exit (by simp [notN])]

/-- a byte that is not 'N' costs the scan one more pass -/
theorem seekN_byte {g0 g : St} {b : UInt8} {q : List UInt8} (h : Holding g0 (b :: q) g) (hb : b ≠ chN) (n : ℕ) :
    seekN (n + 1) g = seekN n g.popq.2 := by
  rw [seekN, seekN, loopN_step (notN_of_ne (by decide) g) (next_holding h)]
  cases n with
  | zero => rfl
  | succ n =>
    rw [loopN_step (notN_of_ne hb _) (next_eq b _), loopN_step (notN_of_ne (by decide) _) (next_eq 0 _)]

theorem seekN_mono {n m : ℕ} (hnm : n ≤ m) {g : St} {r : UInt8 × St} (h : seekN n g = some r) : seekN m g = some r :=
  loopN_mono (fun _ _ h => h) hnm h

/-! ## The tag search -/

theorem searchBody_mono {n m : ℕ} (hnm : n ≤ m) (p p' : Bool × St) (h : searchBody n p = some p') :
    searchBody m p = some p' := by
  simp only [searchBody, Option.map_eq_some_iff] at h ⊢
  obtain ⟨r, hr, hp⟩ := h
  exact ⟨r, seekN_mono hnm hr, hp⟩

theorem searchBody_sz {k : ℕ} {p p' : Bool × St} (h : searchBody k p = some p') : p'.2.q.sz ≤ p.2.q.sz := by
  simp only [searchBody, Option.map_eq_some_iff] at h
  obtain ⟨r, hr, hp⟩ := h
  have hle := seekN_sz hr
  split_ifs at hp
  all_goals
    rw [← hp]
    simp only [popq_sz]
    omega

/-- below 70 bytes the search never ends: `sz` only falls -/
theorem search_stuck {k : ℕ} {p : Bool × St} (h : p.2.q.sz < packetSize) (n : ℕ) :
    loopN searching (searchBody k) n p = none :=
  loopN_stuck (I := fun p => p.2.q.sz < (packetSize : ℤ)) (fun p hp => by simp [searching, hp])
    (fun _ _ hs _ hb => lt_of_le_of_lt (searchBody_sz hb) hs) h n

/-- one pass of the search that does not run past the end either throws junk away or finds the tag -/
theorem searchBody_sound {g0 g : St} {q : List UInt8} {k : ℕ} {p : Bool × St} (h : Holding g0 q g)
    (hr : searchBody k (false, g) = some p) (hsz : 0 ≤ p.2.q.sz) :
    (p.1 = false ∧ ∃ q', Holding g0 q' p.2 ∧ ∀ rest, TagAt q' rest → TagAt q rest) ∨
      (p.1 = true ∧ ∃ rest, Holding g0 rest p.2 ∧ TagAt q rest) := by
  simp only [searchBody, Option.map_eq_some_iff] at hr
  obtain ⟨⟨x, g1⟩, hs, hp⟩ := hr
  have hle : p.2.q.sz < g1.q.sz := by
    split_ifs at hp
    all_goals
      rw [← hp]
      simp only [popq_sz]
      omega
  obtain ⟨pre, post, rfl, hpre, hpost⟩ | hneg := seek_sound h (by decide) hs
  · cases post with
    | nil =>
      have := hpost.rep.size
      simp at this; omega
    | cons u post =>
      obtain ⟨hu, hpost⟩ := popq_holding hpost
      simp only [hu] at hp
      split_ifs at hp with h1 h2
      · subst hp
        cases post with
        | nil =>
          have := hpost.rep.size
          simp at this hsz; omega
        | cons x post =>
          obtain ⟨hx, hpost⟩ := popq_holding hpost
          rw [hx] at h2
          cases post with
          | nil =>
            have := hpost.rep.size
            simp at this hsz; omega
          | cons y rest =>
            obtain ⟨-, hrest⟩ := popq_holding hpost
            refine Or.inr ⟨rfl, rest, hrest, ?_⟩
            rw [h1, h2]
            exact (tagAt_here y rest).skip hpre
      · subst hp
        cases post with
        | nil =>
          have := hpost.rep.size
          simp at this hsz; omega
        | cons x post =>
          obtain ⟨hx, hpost⟩ := popq_holding hpost
          rw [hx] at h2
          refine Or.inl ⟨rfl, post, hpost, fun rest ht => ?_⟩
          rw [h1]
          exact (ht.brokenX h2).skip hpre
      · subst hp
        exact Or.inl ⟨rfl, post, hpost, fun rest ht => (ht.brokenU h1).skip hpre⟩
  · omega

/-- **The search stops only at a queued tag** with at least 70 bytes behind its space byte, and has then read nothing
stale. -/
theorem search_sound {g0 g : St} {q : List UInt8} {k n : ℕ} {p : Bool × St} (h : Holding g0 q g)
    (hr : loopN searching (searchBody k) n (false, g) = some p) :
    p.1 = true ∧ ∃ rest, TagAt q rest ∧ packetSize ≤ rest.length ∧ Holding g0 rest p.2 := by
  induction n generalizing q g with
  | zero => simp [loopN] at hr
  | succ n ih =>
    cases hb : searchBody k (false, g) with
    | none => simp [loopN, searching, hb] at hr
    | some p' =>
      rw [loopN_step (by simp [searching]) hb] at hr
      have hbig : (packetSize : ℤ) ≤ p'.2.q.sz := by
        by_contra hlt
        rw [search_stuck (by omega) n] at hr
        cases hr
      have hpos : 0 ≤ p'.2.q.sz := le_trans (by decide) hbig
      obtain ⟨hf, q', hq', htag⟩ | ⟨ht, rest, hrest, htag⟩ := searchBody_sound h hb hpos
      · rw [show p' = (false, p'.2) from Prod.ext hf rfl] at hr
        obtain ⟨h1, rest, h2, h3, h4⟩ := ih hq' hr
        exact ⟨h1, rest, htag rest h2, h3, h4⟩
      · cases n with
        | zero => simp [loopN] at hr
        | succ n =>
          rw [loopN_exit (by simp [searching, ht, hbig]), Option.some.injEq] at hr
          subst hr
          refine ⟨ht, rest, htag, ?_, hrest⟩
          rw [hrest.rep.size] at hbig
          exact_mod_cast hbig

/-- the search from g ends with the tag found in state g' -/
def Finds (g g' : St) : Prop := ∃ n k, loopN searching (searchBody k) n (false, g) = some (true, g')

theorem finds_of_body {g g1 g' : St} {k : ℕ} (hb : searchBody k (false, g) = some (false, g1)) (h : Finds g1 g') :
    Finds g g' := by
  obtain ⟨n, k', hr⟩ := h
  refine ⟨n + 1, max k k', ?_⟩
  rw [loopN_step (by simp [searching]) (searchBody_mono (le_max_left k k') _ _ hb)]
  exact loopN_mono (searchBody_mono (le_max_right k k')) le_rfl hr

/-- a byte that is not 'N' before the queue makes no difference to the search -/
theorem finds_byte {g0 g g' : St} {b : UInt8} {q : List UInt8} (h : Holding g0 (b :: q) g) (hb : b ≠ chN)
    (hf : Finds g.popq.2 g') : Finds g g' := by
  obtain ⟨n, k, hr⟩ := hf
  cases n with
  | zero => simp [loopN] at hr
  | succ n =>
    cases hbody : searchBody k (false, g.popq.2) with
    | none => simp [loopN, searching, hbody] at hr
    | some p =>
      refine ⟨n + 1, k + 1, ?_⟩
      have hbody' : searchBody (k + 1) (false, g) = some p := by
        rw [← hbody]
        simp only [searchBody, seekN_byte h hb]
      rw [loopN_step (by simp [searching]) hbody] at hr
      rw [loopN_step (by simp [searching]) hbody']
      exact loopN_mono (searchBody_mono (Nat.le_succ k)) le_rfl hr

/-- **The search reaches every tag it can recognise** that has 70 bytes behind its space byte. -/
theorem search_complete {g0 g : St} {q rest : List UInt8} (h : Holding g0 q g) (ht : TagAt q rest)
    (hlen : packetSize ≤ rest.length) : ∃ g', Finds g g' ∧ Holding g0 rest g' := by
  obtain ⟨junk, y, hj, rfl⟩ := ht
  induction hj generalizing g with
  | nil =>
    have hs := seekN_here h
    obtain ⟨-, h1⟩ := popq_holding h
    obtain ⟨hu, h2⟩ := popq_holding h1
    obtain ⟨hx, h3⟩ := popq_holding h2
    obtain ⟨-, h4⟩ := popq_holding h3
    refine ⟨_, ⟨2, 2, ?_⟩, h4⟩
    have hbig : ¬ g.popq.2.popq.2.popq.2.popq.2.q.sz < (packetSize : ℤ) := by
      rw [h4.rep.size]
      exact_mod_cast not_lt.2 hlen
    rw [loopN_step (t := (true, g.popq.2.popq.2.popq.2.popq.2)) (by simp [searching])
      (by simp [searchBody, hs, hu, hx]), loopN_exit (by simp only [searching, hbig]; rfl)]
  | byte hb _ ih =>
    obtain ⟨-, h1⟩ := popq_holding h
    obtain ⟨g', hf, hg'⟩ := ih h1
    exact ⟨g', finds_byte h hb hf, hg'⟩
  | brokenU hb _ ih =>
    have hs := seekN_here h
    obtain ⟨-, h1⟩ := popq_holding h
    obtain ⟨hu, h2⟩ := popq_holding h1
    obtain ⟨g', hf, hg'⟩ := ih h2
    exact ⟨g', finds_of_body (k := 2) (by simp [searchBody, hs, hu, hb]) hf, hg'⟩
  | brokenX hb _ ih =>
    have hs := seekN_here h
    obtain ⟨-, h1⟩ := popq_holding h
    obtain ⟨hu, h2⟩ := popq_holding h1
    obtain ⟨hx, h3⟩ := popq_holding h2
    obtain ⟨g', hf, hg'⟩ := ih h3
    exact ⟨g', finds_of_body (k := 2) (by simp [searchBody, hs, hu, hx, hb]) hf, hg'⟩

/-! ## One result -/

theorem search_mono {n m : ℕ} (hnm : n ≤ m) {g : St} {p : Bool × St} (h : search n g = some p) :
    search m g = some p :=
  loopN_mono (searchBody_mono hnm) hnm h

theorem loop_mono {n m : ℕ} (hnm : n ≤ m) {g g' : St} {msg : List UInt8} (h : loop n g msg = some g') :
    loop m g msg = some g' := by
  simp only [loop] at h ⊢
  split_ifs at h ⊢
  · rw [Option.map_eq_some_iff] at h ⊢
    obtain ⟨p, hp, rfl⟩ := h
    exact ⟨p, search_mono hnm hp, rfl⟩
  · exact h

theorem loop_det {g g1 g2 : St} {m : List UInt8} (h1 : Returns g m g1) (h2 : Returns g m g2) : g1 = g2 := by
  obtain ⟨n1, h1⟩ := h1
  obtain ⟨n2, h2⟩ := h2
  have e1 := loop_mono (le_max_left n1 n2) h1
  have e2 := loop_mono (le_max_right n1 n2) h2
  rw [e1, Option.some.injEq] at e2
  exact e2

end NuStars.Ground
