/-
One unlocked pass of `loop()` over `packetBuffer` (avionics.ino): the eighteen `pack()` calls, the assignments they make
and the packet they leave.

`pack` writes at the global `bufferLocation` and checks no bound. The pass is a list of `Call`s, run from
`bufferLocation = tagLength` and `checksum = 0`. `trail` lists the packer behind every execution of `pack`'s loop body,
`writes` the assignments `buff[index++] = b` these executions make. A sweep may suspend the pass between its sensor
fields and its last two calls; no other task touches the packer.

- `trail_buffers`, `trail_last`: along the trail the buffer changes by these assignments alone, and the trail ends where
  the pass ends;
- `writes_calls`: the calls write the indices 4, 5, …, 69, each once, with the bytes of the packet;
- `iteration_packs`: an unlocked iteration leaves what the calls compute from the state it starts in;
- `pass_builds_packet`: the packet at the end of the iteration.
-/
import NuStars.Avionics.Deployment

namespace NuStars.Avionics

open NuStars.LittleEndian NuStars.Run

/-! ## The calls of a pass -/

/-- a `pack()` call: of a word, of one byte, or of the checksum so far -/
inductive Call where
  | word (w : UInt32)
  | byte (b : UInt8)
  | checksum
deriving DecidableEq, Repr

/-- the argument `size` -/
def Call.size : Call → ℕ
  | .word _ => 4
  | .byte _ => 1
  | .checksum => 1

def Call.run (s : Packer) : Call → Packer
  | .word w => s.packWord w
  | .byte b => s.packByte b
  | .checksum => s.packByte s.checksum

/-- the union as `pack` receives it -/
def Call.fusion (s : Packer) : Call → List UInt8
  | .word w => leBytes 4 w.toNat
  | .byte b => s.fusion.set 0 b
  | .checksum => s.fusion.set 0 s.checksum

/-- the bytes `pack` writes in this call -/
def Call.bytes (s : Packer) (c : Call) : List UInt8 := (c.fusion s).take c.size

/-- `buff[i] = b` -/
def assign (buff : List UInt8) (w : ℕ × UInt8) : List UInt8 := buff.set w.1 w.2

/-- the assignments of the loop of `pack`, in order -/
def bytesWrites (s : Packer) : List UInt8 → List (ℕ × UInt8)
  | [] => []
  | b :: bs => (s.bufferLocation, b) :: bytesWrites (s.put b) bs

/-- the packer behind each execution of the body of that loop -/
def bytesTrail (s : Packer) : List UInt8 → List Packer
  | [] => []
  | b :: bs => s.put b :: bytesTrail (s.put b) bs

/-- the assignments of a list of calls -/
def writes (s : Packer) : List Call → List (ℕ × UInt8)
  | [] => []
  | c :: cs => bytesWrites { s with fusion := c.fusion s } (c.bytes s) ++ writes (c.run s) cs

def trail (s : Packer) : List Call → List Packer
  | [] => []
  | c :: cs => bytesTrail { s with fusion := c.fusion s } (c.bytes s) ++ trail (c.run s) cs

/-- `bufferLocation = tagLength; checksum = 0` -/
def Packer.start (s : Packer) : Packer := { s with bufferLocation := tag.length, checksum := 0 }

/-- the calls of a pass in order: the sixteen words, the raven byte and the checksum -/
def calls (single : ℚ → UInt32) (maxAcc : ℚ) (r : Readings) : List Call :=
  (fieldWords single maxAcc r).map .word ++ [.byte (ravenByte r), .checksum]

/-- a whole pass of the packer -/
def packPass (single : ℚ → UInt32) (s : Packer) (maxAcc : ℚ) (r : Readings) : Packer :=
  (packSensors single s maxAcc r).1.packTail (ravenByte r)

/-- **The pass is its calls.** -/
theorem packPass_eq (single : ℚ → UInt32) (s : Packer) (maxAcc : ℚ) (r : Readings) :
    packPass single s maxAcc r = (calls single maxAcc r).foldl Call.run s.start := by
  rw [packPass, packSensors_eq, calls, List.foldl_append, List.foldl_map]
  rfl

/-! ## The assignments -/

theorem packBytes_location (s : Packer) (bs : List UInt8) :
    (packBytes s bs).bufferLocation = s.bufferLocation + bs.length ∧ (packBytes s bs).fusion = s.fusion := by
  induction bs generalizing s with
  | nil => exact ⟨rfl, rfl⟩
  | cons b bs ih =>
    obtain ⟨h1, h2⟩ := ih (s.put b)
    refine ⟨?_, h2⟩
    rw [packBytes, h1, List.length_cons, Packer.put]
    dsimp only
    omega

theorem bytesWrites_fst (s : Packer) (bs : List UInt8) :
    (bytesWrites s bs).map Prod.fst = List.range' s.bufferLocation bs.length := by
  induction bs generalizing s with
  | nil => rfl
  | cons b bs ih =>
    rw [bytesWrites, List.map_cons, ih]
    rfl

theorem bytesWrites_snd (s : Packer) (bs : List UInt8) : (bytesWrites s bs).map Prod.snd = bs := by
  induction bs generalizing s with
  | nil => rfl
  | cons b bs ih => rw [bytesWrites, List.map_cons, ih]

theorem packBytes_buffer (s : Packer) (bs : List UInt8) :
    (packBytes s bs).packetBuffer = (bytesWrites s bs).foldl assign s.packetBuffer := by
  induction bs generalizing s with
  | nil => rfl
  | cons b bs ih =>
    rw [packBytes, ih]
    rfl

theorem bytesTrail_buffers (s : Packer) (bs : List UInt8) :
    s.packetBuffer :: (bytesTrail s bs).map Packer.packetBuffer = (bytesWrites s bs).scanl assign s.packetBuffer := by
  induction bs generalizing s with
  | nil => rfl
  | cons b bs ih =>
    rw [bytesTrail, List.map_cons, bytesWrites, List.scanl_cons, ih]
    rfl

theorem bytesTrail_last (s : Packer) (b : UInt8) (bs : List UInt8) :
    (bytesTrail s (b :: bs)).getLast? = some (packBytes s (b :: bs)) := by
  induction bs generalizing s b with
  | nil => rfl
  | cons b' bs ih =>
    rw [bytesTrail, packBytes, ← ih (s.put b) b']
    rfl

theorem call_run (s : Packer) (c : Call) : c.run s = packBytes { s with fusion := c.fusion s } (c.bytes s) := by
  cases c with
  | word w => rfl
  | byte b => rfl
  | checksum => rfl

/-- **Along the trail of a list of calls the buffer changes by their assignments**, one behind each execution of the
loop body, and by nothing else. -/
theorem trail_buffers (s : Packer) (cs : List Call) :
    s.packetBuffer :: (trail s cs).map Packer.packetBuffer = (writes s cs).scanl assign s.packetBuffer := by
  induction cs generalizing s with
  | nil => rfl
  | cons c cs ih =>
    have hcall := bytesTrail_buffers { s with fusion := c.fusion s } (c.bytes s)
    have hrun : (c.run s).packetBuffer =
        (bytesWrites { s with fusion := c.fusion s } (c.bytes s)).foldl assign s.packetBuffer := by
      rw [call_run, packBytes_buffer]
    rw [trail, writes, List.map_append, List.scanl_append, ← hcall, ← hrun, ← ih]
    rfl

/-- what `pack` needs to find its bytes: a union of four bytes, or a call that fills it -/
def Call.Fed (s : Packer) (c : Call) : Prop := s.fusion.length = 4 ∨ ∃ w, c = .word w

theorem call_bytes_length {s : Packer} {c : Call} (h : c.Fed s) :
    (c.fusion s).length = 4 ∧ (c.bytes s).length = c.size := by
  have hlen : (c.fusion s).length = 4 := by
    cases c with
    | word w => exact length_leBytes 4 _
    | byte b =>
      rcases h with h | ⟨w, hw⟩
      · rw [Call.fusion, List.length_set, h]
      · cases hw
    | checksum =>
      rcases h with h | ⟨w, hw⟩
      · rw [Call.fusion, List.length_set, h]
      · cases hw
  refine ⟨hlen, ?_⟩
  rw [Call.bytes, List.length_take, hlen]
  cases c <;> rfl

/-- one call moves `bufferLocation` by `size` and leaves four bytes in the union -/
theorem call_spec {s : Packer} {c : Call} (h : c.Fed s) :
    (c.run s).bufferLocation = s.bufferLocation + c.size ∧ (c.run s).fusion.length = 4 := by
  obtain ⟨hlen, hsize⟩ := call_bytes_length h
  obtain ⟨hloc, hfus⟩ := packBytes_location { s with fusion := c.fusion s } (c.bytes s)
  refine ⟨?_, ?_⟩
  · rw [call_run, hloc, hsize]
  · rw [call_run, hfus]
    exact hlen

theorem call_bytes_cons {s : Packer} {c : Call} (h : c.Fed s) : ∃ b bs, c.bytes s = b :: bs := by
  obtain ⟨-, hsize⟩ := call_bytes_length h
  cases hb : c.bytes s with
  | nil =>
    rw [hb] at hsize
    cases c <;> cases hsize
  | cons b bs => exact ⟨b, bs, rfl⟩

theorem trail_last (s : Packer) (c : Call) (cs : List Call) (h : c.Fed s) :
    (trail s (c :: cs)).getLast? = some ((c :: cs).foldl Call.run s) := by
  induction cs generalizing s c with
  | nil =>
    obtain ⟨b, bs, hb⟩ := call_bytes_cons h
    rw [trail, trail, List.append_nil, hb, bytesTrail_last, ← hb, ← call_run]
    rfl
  | cons c' cs ih =>
    have hrest := ih (c.run s) c' (Or.inl (call_spec h).2)
    rw [trail, List.getLast?_append, hrest]
    rfl

theorem writes_fst (s : Packer) (c : Call) (cs : List Call) (h : c.Fed s) :
    (writes s (c :: cs)).map Prod.fst = List.range' s.bufferLocation ((c :: cs).map Call.size).sum := by
  induction cs generalizing s c with
  | nil =>
    rw [writes, writes, List.append_nil, bytesWrites_fst, (call_bytes_length h).2]
    rfl
  | cons c' cs ih =>
    obtain ⟨hloc, hfus⟩ := call_spec h
    rw [writes, List.map_append, bytesWrites_fst, (call_bytes_length h).2, ih (c.run s) c' (Or.inl hfus), hloc,
      List.map_cons, List.sum_cons]
    exact List.range'_append_1

theorem writes_words (s : Packer) (ws : List UInt32) (cs : List Call) :
    (writes s (ws.map .word ++ cs)).map Prod.snd =
      wordBytes ws ++ (writes (ws.foldl Packer.packWord s) cs).map Prod.snd := by
  induction ws generalizing s with
  | nil => rfl
  | cons w ws ih =>
    have hbytes : (Call.word w).bytes s = leBytes 4 w.toNat := List.take_of_length_le (by simp [Call.fusion, Call.size])
    rw [List.map_cons, List.cons_append, writes, List.map_append, bytesWrites_snd, hbytes, ih, wordBytes_cons,
      List.append_assoc]
    rfl

theorem writes_tail {p : Packer} (raven : UInt8) (hfus : 0 < p.fusion.length) :
    (writes p [.byte raven, .checksum]).map Prod.snd = [raven, p.checksum ^^^ raven] := by
  obtain ⟨f, fs, hf⟩ := List.exists_cons_of_length_pos hfus
  have hbyte : (Call.byte raven).bytes p = [raven] := by simp [Call.bytes, Call.fusion, Call.size, hf]
  obtain ⟨b, bs, hrun⟩ : ∃ b bs, ((Call.byte raven).run p).fusion = b :: bs := by
    rw [call_run, (packBytes_location _ _).2]
    exact ⟨raven, fs, by simp [Call.fusion, hf]⟩
  have hsum : ((Call.byte raven).run p).checksum = p.checksum ^^^ raven := by
    rw [call_run, hbyte]
    rfl
  have hlast : Call.checksum.bytes ((Call.byte raven).run p) = [p.checksum ^^^ raven] := by
    simp [Call.bytes, Call.fusion, Call.size, hrun, hsum]
  rw [writes, writes, List.map_append, List.map_append, bytesWrites_snd, bytesWrites_snd, hbyte, hlast]
  rfl

/-- **A pass writes the indices 4..69**, each of them once, and writes there the bytes of its packet. -/
theorem writes_calls (single : ℚ → UInt32) (s : Packer) (maxAcc : ℚ) (r : Readings)
    (hsize : s.packetBuffer.length = packetSize) (htag : s.packetBuffer.take 4 = tag) :
    (writes s.start (calls single maxAcc r)).map Prod.fst = List.range' 4 66 ∧
      (writes s.start (calls single maxAcc r)).map Prod.snd =
        (encode (fieldWords single maxAcc r) (ravenByte r)).drop 4 := by
  refine ⟨?_, ?_⟩
  · have hsum : ((calls single maxAcc r).map Call.size).sum = 66 := by simp [calls, fieldWords, Call.size]
    obtain ⟨w, cs, hcalls⟩ : ∃ w cs, calls single maxAcc r = .word w :: cs := ⟨r.millis, _, rfl⟩
    rw [hcalls] at hsum ⊢
    rw [writes_fst s.start _ cs (Or.inr ⟨w, rfl⟩), hsum]
    rfl
  · have hfill := packSensors_filled single s maxAcc r hsize htag
    have hpk : (fieldWords single maxAcc r).foldl Packer.packWord s.start = (packSensors single s maxAcc r).1 :=
      (packSensors_eq single s maxAcc r).symm
    have hencode : encode (fieldWords single maxAcc r) (ravenByte r) = tag ++
        (wordBytes (fieldWords single maxAcc r) ++
          [ravenByte r, xorAll (wordBytes (fieldWords single maxAcc r) ++ [ravenByte r])]) := by
      rw [encode, List.append_assoc]
    rw [calls, writes_words, hpk, writes_tail (ravenByte r) hfill.union, hfill.sum, hencode,
      List.drop_left' (by rfl : tag.length = 4), xorAll_append, xorAll_cons, xorAll_nil, UInt8.xor_zero]

/-! ## An unlocked iteration -/

/-- where an iteration stands that started in s with the readings r: in the sweep, or past its last `pack()` -/
inductive PassAt (single : ℚ → UInt32) (s : St) (r : Readings) (t : St) : Prop where
  | sweep (d : Sweep) (i : ℤ) (hat : t.loopAt = .sweep d i (ravenByte r))
      (hpk : t.pk = (packSensors single s.pk s.maxAcc r).1) (hmax : t.maxAcc = (packSensors single s.pk s.maxAcc r).2)
      (hpacked : t.packed = s.packed)
  | done (hout : sweeping t.loopAt = false) (hpk : t.pk = packPass single s.pk s.maxAcc r)
      (hmax : t.maxAcc = (packSensors single s.pk s.maxAcc r).2)
      (hpacked : t.packed = s.packed ++ [(packPass single s.pk s.maxAcc r).packetBuffer])

theorem start_passAt (single : ℚ → UInt32) {s : St} (r : Readings) (htop : s.loopAt = .top)
    (hlock : s.radioLock = false) : PassAt single s r (step single s (.loop r)) := by
  have hm := start_moves single r htop hlock
  generalize step single s (.loop r) = t at hm ⊢
  cases hm with
  | pass hbr => exact .done rfl rfl rfl rfl
  | sweepStart hbr => exact .sweep .up 25 rfl rfl rfl rfl
  | sweepSkip hbr => exact .done rfl rfl rfl rfl

/-- a move that leaves `loop()`, the packer and `maxAcc` alone -/
theorem PassAt.of_eq {single : ℚ → UInt32} {s t u : St} {r : Readings} (h : PassAt single s r t)
    (hat : u.loopAt = t.loopAt) (hpk : u.pk = t.pk) (hmax : u.maxAcc = t.maxAcc) (hpacked : u.packed = t.packed) :
    PassAt single s r u := by
  cases h with
  | sweep d i h1 h2 h3 h4 => exact .sweep d i (hat.trans h1) (hpk.trans h2) (hmax.trans h3) (hpacked.trans h4)
  | done h1 h2 h3 h4 => exact .done (by rw [hat]; exact h1) (hpk.trans h2) (hmax.trans h3) (hpacked.trans h4)

theorem inside_passAt (single : ℚ → UInt32) {s : St} {r : Readings} (t : St) (a : Act) (h : PassAt single s r t)
    (hin : t.loopAt ≠ .top) : PassAt single s r (step single t a) := by
  have hm := step_moves single t a
  generalize step single t a = u at hm ⊢
  cases hm with
  | locked r' htop hlock => exact absurd htop hin
  | pass r' htop hlock hbr => exact absurd htop hin
  | sweepStart r' htop hlock hbr => exact absurd htop hin
  | sweepSkip r' htop hlock hbr => exact absurd htop hin
  | sweepOn r' d i raven hat hcond =>
    cases h with
    | sweep d' i' h1 h2 h3 h4 =>
      rw [hat] at h1
      cases h1
      exact .sweep d (d.next i) rfl h2 h3 h4
    | done h1 h2 h3 h4 =>
      rw [hat] at h1
      cases h1
  | sweepEnd r' d i raven hat hcond =>
    cases h with
    | sweep d' i' h1 h2 h3 h4 =>
      rw [hat] at h1
      cases h1
      -- the two last calls run on the packer the sweep started with
      have hpk : (finishPass (setDeployed t) (ravenByte r)).pk = packPass single s.pk s.maxAcc r := by
        show t.pk.packTail (ravenByte r) = _
        rw [h2, packPass]
      apply PassAt.done rfl hpk h3
      rw [← hpk, ← h4]
      rfl
    | done h1 h2 h3 h4 =>
      rw [hat] at h1
      cases h1
  | again r' hat =>
    cases h with
    | sweep d' i' h1 h2 h3 h4 =>
      rw [hat] at h1
      cases h1
    | done h1 h2 h3 h4 => exact .done rfl h2 h3 h4
  | flashOn opened past f hno => exact h.of_eq rfl rfl rfl rfl
  | flush opened past hat hsig => exact h.of_eq rfl rfl rfl rfl
  | send hat hlock => exact h.of_eq rfl rfl rfl rfl
  | unlock b hat => exact h.of_eq rfl rfl rfl rfl
  | radioOn p hno => exact h.of_eq rfl rfl rfl rfl

/-- **What an unlocked iteration packs** depends on the packer, `maxAcc` and the readings it starts with, and on nothing
the other tasks do until it ends. -/
theorem iteration_packs (single : ℚ → UInt32) {s : St} {r : Readings} {rest : List Act}
    (hit : Iteration single s r rest) (hlock : s.radioLock = false) :
    (run (step single) s (.loop r :: rest)).pk = packPass single s.pk s.maxAcc r ∧
      (run (step single) s (.loop r :: rest)).maxAcc = (packSensors single s.pk s.maxAcc r).2 ∧
      (run (step single) s (.loop r :: rest)).packed =
        s.packed ++ [(packPass single s.pk s.maxAcc r).packetBuffer] := by
  have hend : PassAt single s r (run (step single) s (.loop r :: rest)) :=
    run_inv_along (I := PassAt single s r) (fun t a h hin => inside_passAt single t a h hin) _ rest hit.inside
      (start_passAt single r hit.start hlock)
  cases hend with
  | sweep d i hat _ _ _ =>
    rw [hit.finish] at hat
    cases hat
  | done _ hpk hmax hpacked => exact ⟨hpk, hmax, hpacked⟩

/-! ## The packet -/

theorem packPass_packet (single : ℚ → UInt32) {p : Packer} (maxAcc : ℚ) (r : Readings)
    (hsize : p.packetBuffer.length = packetSize) (htag : p.packetBuffer.take 4 = tag) :
    (packPass single p maxAcc r).packetBuffer = encode (fieldWords single maxAcc r) (ravenByte r) ∧
      (packPass single p maxAcc r).bufferLocation = packetSize := by
  have hfill := packSensors_filled single p maxAcc r hsize htag
  refine ⟨packTail_filled hfill _, ?_⟩
  obtain ⟨o, o', hbuf⟩ := hfill.buffer
  have hloc : (packSensors single p maxAcc r).1.bufferLocation =
      (tag ++ wordBytes (fieldWords single maxAcc r)).length := by
    rw [hfill.location, List.length_append, wordBytes_length, hfill.count]
    rfl
  obtain ⟨-, hend, -⟩ := packTail_spec _ _ (ravenByte r) o o' hbuf hloc hfill.sum hfill.union
  rw [packPass, hend, List.length_append, wordBytes_length, hfill.count]
  rfl

theorem encode_take (ws : List UInt32) (raven : UInt8) : (encode ws raven).take 4 = tag := by
  rw [encode, List.append_assoc, List.take_left' (by rfl : tag.length = 4)]

/-- the sum over the fields, the raven byte and the checksum byte is 0 -/
theorem encode_xor (ws : List UInt32) (raven : UInt8) : xorAll ((encode ws raven).drop 4) = 0 := by
  have hsplit : encode ws raven = tag ++ (wordBytes ws ++ [raven] ++ [xorAll (wordBytes ws ++ [raven])]) := by
    simp [encode]
  rw [hsplit, List.drop_left' (by rfl : tag.length = 4), xorAll_append, xorAll_cons, xorAll_nil, UInt8.xor_zero,
    UInt8.xor_self]

/-- **A pass builds exactly one valid packet.** Whatever the packer holds, as long as `packetBuffer` has 70 bytes and
begins with the tag: an unlocked iteration runs eighteen `pack()` calls. Their assignments are all that changes the
buffer, from one execution of `pack`'s loop body to the next, and write the indices 4..69 in order, each once, with the
bytes of the packet. The pass ends with `bufferLocation = PACKET_SIZE`, the tag in bytes 0..3, and the XOR of bytes
4..68 in byte 69, so that bytes 4..69 XOR to 0. It hands one packet on, the one in the buffer. -/
theorem pass_builds_packet (single : ℚ → UInt32) (s : St) (r : Readings) (rest : List Act)
    (hit : Iteration single s r rest) (hlock : s.radioLock = false) (hsize : s.pk.packetBuffer.length = packetSize)
    (htag : s.pk.packetBuffer.take 4 = tag) :
    let t := run (step single) s (.loop r :: rest)
    let cs := calls single s.maxAcc r
    (t.pk = cs.foldl Call.run s.pk.start ∧ cs.length = 18 ∧ (trail s.pk.start cs).getLast? = some t.pk ∧
      s.pk.packetBuffer :: (trail s.pk.start cs).map Packer.packetBuffer =
        (writes s.pk.start cs).scanl assign s.pk.packetBuffer ∧
      (writes s.pk.start cs).map Prod.fst = List.range' 4 66 ∧
      (writes s.pk.start cs).map Prod.snd = t.pk.packetBuffer.drop 4) ∧
    t.pk.packetBuffer = encode (fieldWords single s.maxAcc r) (ravenByte r) ∧ t.pk.bufferLocation = packetSize ∧
      t.pk.packetBuffer.length = packetSize ∧ t.pk.packetBuffer.take 4 = tag ∧ ChecksumOk t.pk.packetBuffer ∧
      xorAll (t.pk.packetBuffer.drop 4) = 0 ∧ t.packed = s.packed ++ [t.pk.packetBuffer] := by
  intro t cs
  obtain ⟨hpk, -, hpacked⟩ := iteration_packs single hit hlock
  obtain ⟨hbuf, hloc⟩ := packPass_packet single s.maxAcc r hsize htag
  obtain ⟨hindices, hbytes⟩ := writes_calls single s.pk s.maxAcc r hsize htag
  have ht : t.pk = packPass single s.pk s.maxAcc r := hpk
  have hrun : t.pk = cs.foldl Call.run s.pk.start := ht.trans (packPass_eq single s.pk s.maxAcc r)
  have hcount : (fieldWords single s.maxAcc r).length = 16 := fieldWords_length single s.maxAcc r
  have hlast : (trail s.pk.start cs).getLast? = some t.pk := by
    rw [hrun]
    exact trail_last s.pk.start _ _ (Or.inr ⟨r.millis, rfl⟩)
  refine ⟨⟨hrun, rfl, hlast, trail_buffers s.pk.start cs, hindices, ?_⟩, ?_, ?_, ?_, ?_, ?_, ?_, ?_⟩
  · rw [ht, hbuf]
    exact hbytes
  · rw [ht, hbuf]
  · rw [ht, hloc]
  · rw [ht, hbuf, encode_length _ _ hcount]
    rfl
  · rw [ht, hbuf, encode_take]
  · rw [ht, hbuf]
    exact encode_checksum _ _ hcount
  · rw [ht, hbuf, encode_xor]
  · rw [ht]
    exact hpacked

/-- a buffer of 0xFF behind the tag, a stale index, checksum and union -/
def stale : St := { init with pk := ⟨tag ++ List.replicate 66 0xFF, 70, 0x5A, [1, 2, 3, 4]⟩ }

theorem pass_builds_packet_stale :
    let t := run (step padSingle) stale [.loop (padReadings 1 allHigh), .loop (padReadings 2 allHigh)]
    (writes stale.pk.start (calls padSingle stale.maxAcc (padReadings 1 allHigh))).map Prod.fst = List.range' 4 66 ∧
      t.pk.packetBuffer = encode (fieldWords padSingle stale.maxAcc (padReadings 1 allHigh)) 0 ∧
      t.pk.bufferLocation = 70 ∧ ChecksumOk t.pk.packetBuffer := by
  have hit : Iteration padSingle stale (padReadings 1 allHigh) [.loop (padReadings 2 allHigh)] := by
    refine ⟨rfl, ?_, by decide +kernel⟩
    rw [along_cons]
    exact ⟨by decide +kernel, along_nil _ _ _⟩
  obtain ⟨⟨-, -, -, -, hindices, -⟩, hbuf, hloc, -, -, hsum, -⟩ :=
    pass_builds_packet padSingle stale _ _ hit rfl rfl rfl
  exact ⟨hindices, hbuf, hloc, hsum⟩

end NuStars.Avionics
