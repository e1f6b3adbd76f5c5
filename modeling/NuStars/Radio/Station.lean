/-
The ground station: `loop()` of grounduino.ino over the radio driver, with the modem's interrupts at any point.

`loop()` polls `rf95.available()`, then calls `recv`, and hands what it copied to `pushq`. Ground.Receiver starts there,
at the message that has arrived. Here that message comes out of the driver: one `Step` is an interrupt, or one piece of
`loop()` in which no interrupt can come, or during which one makes no difference because the piece does not touch the
driver (`push`, which may not return).

`receive_path`: whatever is on the air, and wherever the interrupts come, the messages passed to `pushq` are made of
packets that were received, in order and each at most once, and so is the one in hand, with which `loop()` may hang. A
packet of four bytes or more gives its data. A shorter one should be thrown away; it is pushed as 252 bytes or more that
are not its own. That, and a packet for somebody else, gets through only if it comes in while an accepted one waits to
be read.
-/
import NuStars.Ground.Receiver
import NuStars.Radio.Driver

namespace NuStars.Radio.Station

open NuStars.Run

/-! ## Model -/

/-- where `loop()` is -/
inductive LoopAt where
  /-- in `while (!rf95.available());` -/
  | poll
  /-- in `recv`, before its `available()` -/
  | recv
  /-- before its atomic block -/
  | copy
  /-- before `clearRxBuf()`, with the new `len` -/
  | clear (len : UInt8)
  /-- before `pushq(recvBuf, len)` -/
  | push (len : UInt8)
deriving DecidableEq, Repr

structure St where
  rf95 : RF95
  recvBuf : List UInt8
  loopAt : LoopAt
  ground : Ground.St
  /-- the arguments of the calls of `pushq` whose `loop()` has returned -/
  pushed : List (List UInt8)

/-- the state after `setup()`; `mem` is the block of the queue, `buf` that of `recvBuf` -/
def setup (mem : UInt8 → UInt8) (buf : List UInt8) : St := ⟨RF95.init, buf, .poll, Ground.setup mem, []⟩

inductive Act where
  | interrupt (irqFlags : UInt8) (p : Payload)
  /-- the next piece of `loop()`, and the memory behind `_buf` -/
  | loop (past : ℕ → UInt8)

def St.interrupt (s : St) (irqFlags : UInt8) (p : Payload) : St :=
  { s with rf95 := s.rf95.handleInterrupt irqFlags p }

def St.poll (s : St) : St :=
  { s with
    rf95 := s.rf95.available.2
    loopAt := if s.rf95.available.1 then .recv else .poll }

/-- the `available()` of `recv`; if it is false, `recv` returns false and leaves `len` at 255 -/
def St.recv (s : St) : St :=
  { s with
    rf95 := s.rf95.available.2
    loopAt := if s.rf95.available.1 then .copy else .push 255 }

def St.copy (s : St) (past : ℕ → UInt8) : St :=
  { s with
    recvBuf := (s.rf95.copyOut past 255).2 ++ s.recvBuf.drop (s.rf95.copyOut past 255).2.length
    loopAt := .clear (s.rf95.copyOut past 255).1 }

def St.clear (s : St) (len : UInt8) : St := { s with rf95 := s.rf95.clearRxBuf, loopAt := .push len }

/-- the bytes of `recvBuf` that are pushed -/
def St.message (s : St) (len : UInt8) : List UInt8 := s.recvBuf.take len.toNat

def St.push (s : St) (len : UInt8) (g : Ground.St) : St :=
  { s with ground := g, loopAt := .poll, pushed := s.pushed ++ [s.message len] }

inductive Step (s : St) : Act → St → Prop where
  | interrupt (irqFlags : UInt8) (p : Payload) : Step s (.interrupt irqFlags p) (s.interrupt irqFlags p)
  | poll (past : ℕ → UInt8) (hat : s.loopAt = .poll) : Step s (.loop past) s.poll
  | recv (past : ℕ → UInt8) (hat : s.loopAt = .recv) : Step s (.loop past) s.recv
  | copy (past : ℕ → UInt8) (hat : s.loopAt = .copy) : Step s (.loop past) (s.copy past)
  | clear (past : ℕ → UInt8) (len : UInt8) (hat : s.loopAt = .clear len) : Step s (.loop past) (s.clear len)
  /-- the rest of `loop()`, which may not return -/
  | push (past : ℕ → UInt8) (len : UInt8) (g : Ground.St) (hat : s.loopAt = .push len)
      (hret : Ground.Returns s.ground (s.message len) g) : Step s (.loop past) (s.push len g)

/-- a step, if the rest of `loop()` returns within the fuel -/
def advance (fuel : ℕ) (s : St) : Act → Option St
  | .interrupt irqFlags p => some (s.interrupt irqFlags p)
  | .loop past =>
    match s.loopAt with
    | .poll => some s.poll
    | .recv => some s.recv
    | .copy => some (s.copy past)
    | .clear len => some (s.clear len)
    | .push len => (Ground.loop fuel s.ground (s.message len)).map (s.push len)

theorem advance_step {fuel : ℕ} {s : St} {a : Act} {t : St} (h : advance fuel s a = some t) : Step s a t := by
  cases a with
  | interrupt irqFlags p =>
    obtain rfl := Option.some.inj h
    exact .interrupt irqFlags p
  | loop past =>
    rw [advance] at h
    cases hat : s.loopAt with
    | poll =>
      rw [hat] at h
      obtain rfl := Option.some.inj h
      exact .poll past hat
    | recv =>
      rw [hat] at h
      obtain rfl := Option.some.inj h
      exact .recv past hat
    | copy =>
      rw [hat] at h
      obtain rfl := Option.some.inj h
      exact .copy past hat
    | clear len =>
      rw [hat] at h
      obtain rfl := Option.some.inj h
      exact .clear past len hat
    | push len =>
      rw [hat] at h
      obtain ⟨g, hg, rfl⟩ := Option.map_eq_some_iff.1 h
      exact .push past len g hat ⟨fuel, hg⟩

/-! ## Packets received -/

/-- the packet an action brings in -/
def reception : Act → Option (List UInt8)
  | .interrupt irqFlags p => if received irqFlags then some p.bytes else none
  | .loop _ => none

def receptions (as : List Act) : List (List UInt8) := as.filterMap reception

theorem receptions_snoc (as : List Act) (a : Act) : receptions (as ++ [a]) = receptions as ++ (reception a).toList := by
  rw [receptions, List.filterMap_append]
  rfl

theorem mem_receptions {as pre post : List Act} {a : Act} {bytes : List UInt8} (has : as = pre ++ a :: post)
    (ha : reception a = some bytes) : bytes ∈ receptions as := by
  rw [receptions, List.mem_filterMap]
  exact ⟨a, by rw [has]; exact List.mem_append_right _ List.mem_cons_self, ha⟩

/-- the message that has been copied out, up to the return of the `loop()` that pushes it -/
def St.inHand (s : St) : List (List UInt8) :=
  match s.loopAt with
  | .clear len => [s.message len]
  | .push len => [s.message len]
  | _ => []

/-- the packet in `_buf` that will be read; before `clearRxBuf()` there is none -/
def St.waiting (s : St) : List (List UInt8) :=
  match s.loopAt with
  | .clear _ => []
  | _ => if s.rf95.rxBufValid then [s.rf95.held] else []

/-- a packet comes in over one that waits in `_buf` -/
def Overwrites (s : St) (a : Act) (bytes : List UInt8) : Prop :=
  reception a = some bytes ∧ s.rf95.mode = .rx ∧ s.waiting ≠ []

/-- after the receptions `ps`: the packets `qs` have been copied out of `_buf`. `Q` holds of every packet read or to be
read. -/
structure Carries (Q : List UInt8 → Prop) (ps qs : List (List UInt8)) (s : St) : Prop where
  delivered : List.Forall₂ Delivers qs (s.pushed ++ s.inHand)
  sub : (qs ++ s.waiting).Sublist ps
  kept : ∀ p ∈ qs ++ s.waiting, Q p
  valid : s.loopAt = .recv ∨ s.loopAt = .copy → s.rf95.rxBufValid = true
  mode : s.rf95.mode ≠ .tx
  address : s.rf95.addressed = RF95.init.addressed

theorem setup_carries (Q : List UInt8 → Prop) (mem : UInt8 → UInt8) (buf : List UInt8) :
    Carries Q [] [] (setup mem buf) := by
  refine ⟨.nil, .slnil, nofun, ?_, nofun, rfl⟩
  rintro (h | h) <;> cases h

theorem waiting_of_ne {s : St} (h : ∀ len, s.loopAt ≠ .clear len) :
    s.waiting = if s.rf95.rxBufValid then [s.rf95.held] else [] := by
  unfold St.waiting
  split
  · next len hat => exact absurd hat (h len)
  · rfl

theorem waiting_clear {s : St} {len : UInt8} (h : s.loopAt = .clear len) : s.waiting = [] := by
  unfold St.waiting
  rw [h]

theorem available_of_mode {d : RF95} (h : d.mode ≠ .tx) : d.available = (d.rxBufValid, d.setModeRx) := if_neg h

section
variable {Q : List UInt8 → Prop} {ps qs : List (List UInt8)} {s : St}

theorem Carries.sub_left (h : Carries Q ps qs s) : qs.Sublist ps := (List.sublist_append_left _ _).trans h.sub

/-- nothing that `Carries` speaks of depends on the driver but its packet, and that one is still there -/
theorem Carries.same (h : Carries Q ps qs s) {d' : RF95} (hsame : SameBuffer s.rf95 d') :
    Carries Q ps qs { s with rf95 := d' } := by
  have hwait : ({ s with rf95 := d' } : St).waiting = s.waiting := by
    unfold St.waiting
    rw [hsame.valid, hsame.held]
  refine ⟨h.delivered, ?_, ?_, ?_, ?_, hsame.address.trans h.address⟩
  · rw [hwait]
    exact h.sub
  · rw [hwait]
    exact h.kept
  · intro hat
    exact hsame.valid.trans (h.valid hat)
  · rcases hsame.mode with hmode | hmode
    · rw [hmode]
      exact h.mode
    · rw [hmode]
      nofun

theorem Carries.interrupt (hQ : ∀ bytes, Proper RF95.init bytes → Q bytes) (h : Carries Q ps qs s)
    (irqFlags : UInt8) (p : Payload) (hover : ∀ bytes, Overwrites s (.interrupt irqFlags p) bytes → Q bytes) :
    ∃ qs', Carries Q (ps ++ (reception (.interrupt irqFlags p)).toList) qs' (s.interrupt irqFlags p) := by
  refine ⟨qs, ?_⟩
  have hm := interrupt_moves s.rf95 irqFlags p
  unfold St.interrupt
  generalize s.rf95.handleInterrupt irqFlags p = d' at hm ⊢
  cases hm with
  | read hmode hrec hheld hvalid hmode' haddr =>
    have hrep : reception (.interrupt irqFlags p) = some p.bytes := if_pos hrec
    have hwait : ({ s with rf95 := d' } : St).waiting = [] ∨
        ({ s with rf95 := d' } : St).waiting = [p.bytes] ∧ Q p.bytes := by
      by_cases hclear : ∃ len, s.loopAt = .clear len
      · obtain ⟨len, hlen⟩ := hclear
        exact Or.inl (waiting_clear (s := { s with rf95 := d' }) hlen)
      · have hne : ∀ len, s.loopAt ≠ .clear len := fun len hlen => hclear ⟨len, hlen⟩
        rw [waiting_of_ne (s := { s with rf95 := d' }) hne]
        by_cases hval : d'.rxBufValid = true
        · refine Or.inr ⟨by rw [if_pos hval, hheld], ?_⟩
          rcases hvalid.1 hval with hold | hproper
          · refine hover p.bytes ⟨hrep, hmode, ?_⟩
            rw [waiting_of_ne hne, if_pos hold]
            exact List.cons_ne_nil _ _
          · apply hQ
            rwa [Proper, h.address] at hproper
        · exact Or.inl (if_neg hval)
    have hkept : ∀ q ∈ qs, Q q := fun q hq => h.kept q (List.mem_append_left _ hq)
    rw [hrep, Option.toList_some]
    refine ⟨h.delivered, ?_, ?_, ?_, ?_, haddr.trans h.address⟩
    · rcases hwait with hwait | ⟨hwait, -⟩
      · rw [hwait, List.append_nil]
        exact h.sub_left.trans (List.sublist_append_left _ _)
      · rw [hwait]
        exact h.sub_left.append (List.Sublist.refl _)
    · rcases hwait with hwait | ⟨hwait, hp⟩
      · rwa [hwait, List.append_nil]
      · rw [hwait]
        intro q hq
        rcases List.mem_append.1 hq with hq | hq
        · exact hkept q hq
        · rwa [List.mem_singleton.1 hq]
    · intro hat
      exact hvalid.2 (Or.inl (h.valid hat))
    · show d'.mode ≠ .tx
      rw [hmode']
      split_ifs
      all_goals decide
  | other hno hsame =>
    have hrest := h.same hsame
    cases hrep : reception (.interrupt irqFlags p) with
    | none => rwa [Option.toList_none, List.append_nil]
    | some bytes =>
      -- the modem was not listening
      exact ⟨hrest.delivered, hrest.sub.trans (List.sublist_append_left _ _), hrest.kept, hrest.valid, hrest.mode,
        hrest.address⟩

/-- `available()` turns the receiver on, and `loop()` goes on without a message in hand -/
theorem Carries.listen (h : Carries Q ps qs s) (hhand : s.inHand = []) (hno : ∀ len, s.loopAt ≠ .clear len)
    (l : LoopAt) (hl : l = .poll ∨ (l = .recv ∨ l = .copy) ∧ s.rf95.rxBufValid = true) :
    Carries Q ps qs { s with rf95 := s.rf95.setModeRx, loopAt := l } := by
  have hempty : ({ s with rf95 := s.rf95.setModeRx, loopAt := l } : St).inHand = [] := by
    rcases hl with rfl | ⟨rfl | rfl, -⟩
    all_goals rfl
  have hne : ∀ len, l ≠ .clear len := by
    rcases hl with rfl | ⟨rfl | rfl, -⟩
    all_goals nofun
  have hwait : ({ s with rf95 := s.rf95.setModeRx, loopAt := l } : St).waiting = s.waiting := by
    rw [waiting_of_ne hne, waiting_of_ne hno]
    rfl
  refine ⟨?_, ?_, ?_, ?_, nofun, h.address⟩
  · rw [hempty, ← hhand]
    exact h.delivered
  · rw [hwait]
    exact h.sub
  · rw [hwait]
    exact h.kept
  · intro hat
    rcases hl with rfl | ⟨-, hval⟩
    · rcases hat with hat | hat <;> cases hat
    · exact hval

theorem Carries.poll (h : Carries Q ps qs s) (hat : s.loopAt = .poll) : Carries Q ps qs s.poll := by
  have hav := available_of_mode h.mode
  have hhand : s.inHand = [] := by
    unfold St.inHand
    rw [hat]
  unfold St.poll
  rw [hav]
  apply h.listen hhand (by rw [hat]; nofun)
  by_cases hval : s.rf95.rxBufValid = true
  · exact Or.inr ⟨Or.inl (if_pos hval), hval⟩
  · exact Or.inl (if_neg hval)

theorem Carries.recv (h : Carries Q ps qs s) (hat : s.loopAt = .recv) : Carries Q ps qs s.recv := by
  have hav := available_of_mode h.mode
  have hval : s.rf95.rxBufValid = true := h.valid (Or.inl hat)
  have hhand : s.inHand = [] := by
    unfold St.inHand
    rw [hat]
  unfold St.recv
  rw [hav]
  exact h.listen hhand (by rw [hat]; nofun) _ (Or.inr ⟨Or.inr (if_pos hval), hval⟩)

theorem Carries.copy (h : Carries Q ps qs s) (hat : s.loopAt = .copy) (past : ℕ → UInt8) :
    Carries Q ps (qs ++ [s.rf95.held]) (s.copy past) := by
  have hval : s.rf95.rxBufValid = true := h.valid (Or.inr hat)
  obtain ⟨hlen, hdel⟩ := copyOut_spec s.rf95 past
  have hhand : s.inHand = [] := by
    unfold St.inHand
    rw [hat]
  have hcopied : (s.copy past).inHand = [(s.rf95.copyOut past 255).2] := by
    show [((s.rf95.copyOut past 255).2 ++ _).take (s.rf95.copyOut past 255).1.toNat] = _
    rw [List.take_left' hlen]
  have hwait : s.waiting = [s.rf95.held] := by
    rw [waiting_of_ne (by rw [hat]; nofun), if_pos hval]
  have hdelivered := h.delivered
  have hsub := h.sub
  have hkept := h.kept
  rw [hhand, List.append_nil] at hdelivered
  rw [hwait] at hsub hkept
  refine ⟨?_, ?_, ?_, ?_, h.mode, h.address⟩
  · rw [hcopied]
    exact List.rel_append hdelivered (.cons hdel .nil)
  · rw [waiting_clear (s := s.copy past) rfl, List.append_nil]
    exact hsub
  · rw [waiting_clear (s := s.copy past) rfl, List.append_nil]
    exact hkept
  · intro hat'
    rcases hat' with hat' | hat' <;> cases hat'

theorem Carries.clear (h : Carries Q ps qs s) {len : UInt8} (hat : s.loopAt = .clear len) :
    Carries Q ps qs (s.clear len) := by
  have hwait : (s.clear len).waiting = s.waiting := (waiting_clear hat).symm
  have hhand : (s.clear len).inHand = s.inHand := by
    unfold St.inHand
    rw [hat]
    rfl
  refine ⟨?_, ?_, ?_, ?_, h.mode, h.address⟩
  · rw [hhand]
    exact h.delivered
  · rw [hwait]
    exact h.sub
  · rw [hwait]
    exact h.kept
  · intro hat'
    rcases hat' with hat' | hat' <;> cases hat'

theorem Carries.push (h : Carries Q ps qs s) {len : UInt8} (hat : s.loopAt = .push len) (g : Ground.St) :
    Carries Q ps qs (s.push len g) := by
  have hwait : (s.push len g).waiting = s.waiting := by
    rw [waiting_of_ne (s := s) (by rw [hat]; nofun)]
    rfl
  have hpushed : (s.push len g).pushed ++ (s.push len g).inHand = s.pushed ++ s.inHand := by
    have hhand : s.inHand = [s.message len] := by
      unfold St.inHand
      rw [hat]
    rw [hhand]
    exact List.append_nil _
  refine ⟨?_, ?_, ?_, ?_, h.mode, h.address⟩
  · rw [hpushed]
    exact h.delivered
  · rw [hwait]
    exact h.sub
  · rw [hwait]
    exact h.kept
  · intro hat'
    rcases hat' with hat' | hat' <;> cases hat'

theorem step_carries (hQ : ∀ bytes, Proper RF95.init bytes → Q bytes) (h : Carries Q ps qs s) {a : Act} {t : St}
    (hs : Step s a t) (hover : ∀ bytes, Overwrites s a bytes → Q bytes) :
    ∃ qs', Carries Q (ps ++ (reception a).toList) qs' t := by
  have hloop : ∀ past, ps ++ (reception (.loop past)).toList = ps := fun past => List.append_nil ps
  cases hs with
  | interrupt irqFlags p => exact h.interrupt hQ irqFlags p hover
  | poll past hat => exact ⟨qs, by rw [hloop]; exact h.poll hat⟩
  | recv past hat => exact ⟨qs, by rw [hloop]; exact h.recv hat⟩
  | copy past hat => exact ⟨_, by rw [hloop]; exact h.copy hat past⟩
  | clear past len hat => exact ⟨qs, by rw [hloop]; exact h.clear hat⟩
  | push past len g hat hret => exact ⟨qs, by rw [hloop]; exact h.push hat g⟩

end

/-! ## Runs -/

/-- the receiver behind the driver has been called on the messages pushed, and on no others -/
theorem run_ground {mem : UInt8 → UInt8} {buf : List UInt8} {as : List Act} {s : St}
    (h : Trace Step (setup mem buf) as s) : Trace Ground.Returns (Ground.setup mem) s.pushed s.ground := by
  refine trace_inv (I := fun s => Trace Ground.Returns (Ground.setup mem) s.pushed s.ground) ?_ h (.nil _)
  intro s a t hs hst
  cases hst with
  | push past len g hat hret => exact trace_append.2 ⟨_, hs, .cons hret (.nil g)⟩
  | interrupt irqFlags p => exact hs
  | poll past hat => exact hs
  | recv past hat => exact hs
  | copy past hat => exact hs
  | clear past len hat => exact hs

theorem run_carries {Q : List UInt8 → Prop} (hQ : ∀ bytes, Proper RF95.init bytes → Q bytes) {mem : UInt8 → UInt8}
    {buf : List UInt8} {as : List Act} {s : St} (h : Trace Step (setup mem buf) as s)
    (hover : ∀ pre a post, as = pre ++ a :: post → ∀ u, Trace Step (setup mem buf) pre u →
      ∀ bytes, Overwrites u a bytes → Q bytes) :
    ∃ qs, Carries Q (receptions as) qs s :=
  trace_observed (f := reception) (I := fun ps s => ∃ qs, Carries Q ps qs s)
    (fun ps s a t hs hst => by
      obtain ⟨qs, hs⟩ := hs
      exact step_carries hQ hs hst.1 hst.2)
    (trace_along (P := fun u a => ∀ bytes, Overwrites u a bytes → Q bytes) h hover) ⟨[], setup_carries Q mem buf⟩

/-- the packets behind the messages pushed, and the one behind the message in hand -/
theorem Carries.split {Q : List UInt8 → Prop} {ps qs : List (List UInt8)} {s : St} (h : Carries Q ps qs s) :
    ∃ rs hs : List (List UInt8), (rs ++ hs).Sublist ps ∧ (∀ r ∈ rs ++ hs, Q r) ∧ List.Forall₂ Delivers rs s.pushed ∧
      List.Forall₂ Delivers hs s.inHand := by
  have hqs : qs.take s.pushed.length ++ qs.drop s.pushed.length = qs := List.take_append_drop _ _
  refine ⟨qs.take s.pushed.length, qs.drop s.pushed.length, ?_, ?_, List.forall₂_take_append _ _ _ h.delivered,
    List.forall₂_drop_append _ _ _ h.delivered⟩
  · rw [hqs]
    exact h.sub_left
  · rw [hqs]
    exact fun r hr => h.kept r (List.mem_append_left _ hr)

theorem delivers_proper {rs ms : List (List UInt8)} (h : List.Forall₂ Delivers rs ms)
    (hrs : ∀ r ∈ rs, headerLen ≤ r.length) : ms = rs.map fun r => r.drop headerLen := by
  induction h with
  | nil => rfl
  | @cons r m rs ms hd _ ih =>
    have hm : m = r.drop headerLen := by
      rwa [Delivers, if_pos (hrs r List.mem_cons_self)] at hd
    rw [List.map_cons, ← hm, ih fun r' hr' => hrs r' (List.mem_cons_of_mem r hr')]

/-- the messages pushed and in hand are the data of the packets -/
theorem Carries.messages {ps qs : List (List UInt8)} {s : St} (h : Carries (Proper RF95.init) ps qs s) :
    s.pushed ++ s.inHand = qs.map fun r => r.drop headerLen :=
  delivers_proper h.delivered fun r hr => (h.kept r (List.mem_append_left _ hr)).1

/-- **The receive path.** Over every order of interrupts and pieces of `loop()`, and for every packet that may come in:
the messages passed to `pushq` are those of packets received without an error, in the order received and each at most
once, where a packet shorter than its headers gives 252 bytes or more; and so is a message in hand, whose `loop()` may
not return. If every packet that comes in over a waiting one is long enough and addressed to us, all these messages are
the data of such packets. -/
theorem receive_path (mem : UInt8 → UInt8) (buf : List UInt8) (as : List Act) (s : St)
    (h : Trace Step (setup mem buf) as s) :
    (∃ rs hs : List (List UInt8), (rs ++ hs).Sublist (receptions as) ∧ List.Forall₂ Delivers rs s.pushed ∧
        List.Forall₂ Delivers hs s.inHand) ∧
      ((∀ pre a post, as = pre ++ a :: post → ∀ u, Trace Step (setup mem buf) pre u →
          ∀ bytes, Overwrites u a bytes → Proper RF95.init bytes) →
        ∃ rs hs : List (List UInt8), (rs ++ hs).Sublist (receptions as) ∧ (∀ r ∈ rs ++ hs, Proper RF95.init r) ∧
          s.pushed = rs.map (fun r => r.drop headerLen) ∧ s.inHand = hs.map fun r => r.drop headerLen) := by
  refine ⟨?_, ?_⟩
  · obtain ⟨qs, hqs⟩ := run_carries (Q := fun _ => True) (fun _ _ => trivial) h
      (fun _ _ _ _ _ _ _ _ => trivial)
    obtain ⟨rs, hs, hsub, -, hpushed, hhand⟩ := hqs.split
    exact ⟨rs, hs, hsub, hpushed, hhand⟩
  · intro hover
    obtain ⟨qs, hqs⟩ := run_carries (Q := Proper RF95.init) (fun _ hp => hp) h hover
    obtain ⟨rs, hs, hsub, hproper, hpushed, hhand⟩ := hqs.split
    refine ⟨rs, hs, hsub, hproper, ?_, ?_⟩
    · exact delivers_proper hpushed fun r hr => (hproper r (List.mem_append_left _ hr)).1
    · exact delivers_proper hhand fun r hr => (hproper r (List.mem_append_right _ hr)).1

/-- a broadcast of two bytes -/
def twoBytes (b c : UInt8) : Payload := ⟨[0xFF, 0xFF, 0, 0, b, c], by simp [maxPayloadLen]⟩

/-- A packet comes in while the station polls, and a second one over it before it is read; that one is pushed. The third
is copied out and not pushed yet. -/
def overwritten : List Act :=
  let go : Act := .loop fun _ => 0
  [go, .interrupt rxDone (twoBytes 1 2), go, .interrupt rxDone (twoBytes 3 4), go, go, go, go, go,
    .interrupt rxDone (twoBytes 5 6), go, go, go]

theorem receive_path_overwritten :
    ∃ s, Trace Step (setup (fun _ => 0) []) overwritten s ∧
      receptions overwritten = [(twoBytes 1 2).bytes, (twoBytes 3 4).bytes, (twoBytes 5 6).bytes] ∧
      s.pushed = [[3, 4]] ∧ s.inHand = [[5, 6]] ∧
      ∃ rs hs : List (List UInt8), (rs ++ hs).Sublist (receptions overwritten) ∧ (∀ r ∈ rs ++ hs, Proper RF95.init r) ∧
        [[3, 4]] = rs.map (fun r => r.drop headerLen) ∧ [[5, 6]] = hs.map fun r => r.drop headerLen := by
  have hrun : ((overwritten.foldlM (advance 0) (setup (fun _ => 0) [])).map fun s => (s.pushed, s.inHand)) =
      some ([[3, 4]], [[5, 6]]) := by decide +kernel
  obtain ⟨s, hs, hseen⟩ := Option.map_eq_some_iff.1 hrun
  obtain ⟨hpushed, hhand⟩ := Prod.mk.inj hseen
  have htrace := trace_of_steps (R := Step) (fun _ _ _ => advance_step) hs
  have hover : ∀ pre a post, overwritten = pre ++ a :: post → ∀ u, Trace Step (setup (fun _ => 0) []) pre u →
      ∀ bytes, Overwrites u a bytes → Proper RF95.init bytes := by
    intro pre a post e u _ bytes hov
    have hmem : bytes ∈ [(twoBytes 1 2).bytes, (twoBytes 3 4).bytes, (twoBytes 5 6).bytes] := mem_receptions e hov.1
    simp only [List.mem_cons, List.not_mem_nil, or_false] at hmem
    rcases hmem with rfl | rfl | rfl
    all_goals decide
  obtain ⟨rs, hs', hsub, hproper, hp, hh⟩ := (receive_path (fun _ => 0) [] overwritten s htrace).2 hover
  refine ⟨s, htrace, rfl, hpushed, hhand, rs, hs', hsub, hproper, ?_, ?_⟩
  · rw [← hpushed, hp]
  · rw [← hhand, hh]

end NuStars.Radio.Station
