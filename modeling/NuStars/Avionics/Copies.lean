/-
What `writeRadio` copies, in terms of the passes of `loop()` (avionics.ino).

`startedPasses` lists the packing passes a run starts, each with what it reads. `packetBuffer` holds the packet of the
last pass, or, while a sweep loop of the pass is suspended, its 64 sensor bytes in front of the last two bytes of the
packet before it (`halfPacked`). A copy is taken of one or the other (`copies`).

- `run_built`: `packetBuffer` and the packets packed, after every run;
- `sent_copies`: the copies of a run, in order;
- `halfPacked_checksum`: a half-packed packet passes the checksum test exactly when its sensor bytes have the same XOR
  as those of the packet before.
-/
import NuStars.Avionics.Radio

namespace NuStars.Avionics

open NuStars.Run

/-! ## Passes -/

/-- a packing pass: `maxAcc` before it, and what it reads -/
structure Pass where
  maxAcc : ℚ
  readings : Readings

/-- the bytes of the sensor fields -/
def Pass.fields (single : ℚ → UInt32) (p : Pass) : List UInt8 := wordBytes (fieldWords single p.maxAcc p.readings)

def Pass.packet (single : ℚ → UInt32) (p : Pass) : List UInt8 :=
  encode (fieldWords single p.maxAcc p.readings) (ravenByte p.readings)

/-- the pass a step starts -/
def startedPass (s : St) : Act → Option Pass
  | .loop r => if s.loopAt = .top ∧ s.radioLock = false then some ⟨s.maxAcc, r⟩ else none
  | _ => none

/-- the passes a run starts, oldest first -/
def startedPasses (single : ℚ → UInt32) (s : St) (as : List Act) : List Pass := observed (step single) startedPass s as

theorem mem_startedPasses {single : ℚ → UInt32} {s : St} {as : List Act} {p : Pass}
    (h : p ∈ startedPasses single s as) : .loop p.readings ∈ as := by
  induction as generalizing s with
  | nil => cases h
  | cons a as ih =>
    rcases List.mem_append.1 h with h | h
    · cases a with
      | loop r =>
        rw [startedPass] at h
        split_ifs at h
        · obtain rfl := List.mem_singleton.1 h
          exact List.mem_cons_self
        · cases h
      | writeFlash opened past => cases h
      | writeRadio => cases h
    · exact List.mem_cons_of_mem a (ih h)

/-- `packetBuffer` after whole passes -/
def lastPacket (single : ℚ → UInt32) (ps : List Pass) : List UInt8 :=
  ((ps.map (Pass.packet single)).getLast?).getD initialBuffer

/-- `packetBuffer` in a sweep of the last pass -/
def halfPacked (single : ℚ → UInt32) (ps : List Pass) : List UInt8 :=
  match ps.getLast? with
  | none => initialBuffer
  | some p => tag ++ p.fields single ++ (lastPacket single ps.dropLast).drop 68

/-- the sensor bytes of the last pass -/
def lastFields (single : ℚ → UInt32) (ps : List Pass) : List UInt8 :=
  (ps.getLast?.map (Pass.fields single)).getD (List.replicate 64 0)

theorem lastPacket_snoc (single : ℚ → UInt32) (ps : List Pass) (p : Pass) :
    lastPacket single (ps ++ [p]) = p.packet single := by
  simp [lastPacket]

theorem halfPacked_snoc (single : ℚ → UInt32) (ps : List Pass) (p : Pass) :
    halfPacked single (ps ++ [p]) = tag ++ p.fields single ++ (lastPacket single ps).drop 68 := by
  simp [halfPacked]

theorem fields_length (single : ℚ → UInt32) (p : Pass) : (p.fields single).length = 64 := by
  rw [Pass.fields, wordBytes_length, fieldWords_length]

theorem packet_length (single : ℚ → UInt32) (p : Pass) : (p.packet single).length = 70 :=
  encode_length _ _ (fieldWords_length single p.maxAcc p.readings)

theorem lastPacket_length (single : ℚ → UInt32) (ps : List Pass) : (lastPacket single ps).length = 70 := by
  rcases List.eq_nil_or_concat ps with rfl | ⟨ps, p, rfl⟩
  · rfl
  · rw [List.concat_eq_append, lastPacket_snoc, packet_length]

/-- the state after the passes `ps` have been started -/
inductive Built (single : ℚ → UInt32) (s : St) : List Pass → Prop where
  | rest {ps : List Pass} (hout : sweeping s.loopAt = false) (hpacked : s.packed = ps.map (Pass.packet single))
      (hbuf : s.pk.packetBuffer = lastPacket single ps) : Built single s ps
  | inSweep {ps : List Pass} (p : Pass) (d : Sweep) (i : ℤ) (hat : s.loopAt = .sweep d i (ravenByte p.readings))
      (hpacked : s.packed = ps.map (Pass.packet single)) (hbuf : s.pk.packetBuffer = halfPacked single (ps ++ [p]))
      (hfill : Filled s.pk (fieldWords single p.maxAcc p.readings)) : Built single s (ps ++ [p])

theorem init_built (single : ℚ → UInt32) : Built single init [] := .rest rfl rfl rfl

section
variable {single : ℚ → UInt32} {s t : St} {ps : List Pass}

theorem Built.of_eq (h : Built single s ps) (hat : t.loopAt = s.loopAt) (hpk : t.pk = s.pk)
    (hpacked : t.packed = s.packed) : Built single t ps := by
  cases h with
  | rest hout hp hbuf => exact .rest (by rw [hat]; exact hout) (hpacked.trans hp) (by rw [hpk]; exact hbuf)
  | inSweep p d i hsw hp hbuf hfill =>
    exact .inSweep p d i (hat.trans hsw) (hpacked.trans hp) (by rw [hpk]; exact hbuf) (by rw [hpk]; exact hfill)

theorem Built.atRest (h : Built single s ps) (hout : sweeping s.loopAt = false) :
    s.packed = ps.map (Pass.packet single) ∧ s.pk.packetBuffer = lastPacket single ps := by
  cases h with
  | rest _ hp hbuf => exact ⟨hp, hbuf⟩
  | inSweep p d i hsw hp hbuf hfill =>
    rw [hsw] at hout
    cases hout

/-- a step from one place outside the sweeps to another -/
theorem Built.idle (h : Built single s ps) (hs : sweeping s.loopAt = false) (ht : sweeping t.loopAt = false)
    (hpk : t.pk = s.pk) (hpacked : t.packed = s.packed) : Built single t ps := by
  obtain ⟨hp, hbuf⟩ := h.atRest hs
  exact .rest ht (hpacked.trans hp) (by rw [hpk]; exact hbuf)

/-- the end of a pass -/
theorem finishPass_built {p : Pass} (hp : s.packed = ps.map (Pass.packet single))
    (hfill : Filled s.pk (fieldWords single p.maxAcc p.readings)) :
    Built single (finishPass s (ravenByte p.readings)) (ps ++ [p]) := by
  have hbuf : (finishPass s (ravenByte p.readings)).pk.packetBuffer = p.packet single := packTail_filled hfill _
  refine .rest rfl ?_ ?_
  · show s.packed ++ [(finishPass s (ravenByte p.readings)).pk.packetBuffer] = _
    rw [hbuf, hp, List.map_append, List.map_singleton]
  · rw [hbuf, lastPacket_snoc]

theorem startedPass_none (h : s.loopAt ≠ .top ∨ s.radioLock = true) (r : Readings) :
    startedPass s (.loop r) = none := by
  apply if_neg
  intro hyes
  rcases h with htop | hlock
  · exact htop hyes.1
  · rw [hyes.2] at hlock
    cases hlock

theorem startedPass_some (htop : s.loopAt = .top) (hlock : s.radioLock = false) (r : Readings) :
    startedPass s (.loop r) = some ⟨s.maxAcc, r⟩ := if_pos ⟨htop, hlock⟩

/-- a step that starts no pass -/
theorem Built.of_none {a : Act} (h : Built single t ps) (hno : startedPass s a = none) :
    Built single t (ps ++ (startedPass s a).toList) := by
  rwa [hno, Option.toList_none, List.append_nil]

end

theorem step_built (single : ℚ → UInt32) {ps : List Pass} (s : St) (a : Act) (hk : Packets s)
    (h : Built single s ps) : Built single (step single s a) (ps ++ (startedPass s a).toList) := by
  have hfill : ∀ r, Filled (packFields single s r).pk (fieldWords single s.maxAcc r) := fun r =>
    packSensors_filled single s.pk s.maxAcc r hk.size hk.head
  have hm := step_moves single s a
  generalize step single s a = t at hm ⊢
  cases hm with
  | locked r htop hlock =>
    exact Built.of_none (h.idle (by rw [htop]; rfl) rfl rfl rfl) (startedPass_none (Or.inr hlock) r)
  | pass r htop hlock hbr =>
    rw [startedPass_some htop hlock, Option.toList_some]
    obtain ⟨hp, -⟩ := h.atRest (by rw [htop]; rfl)
    exact finishPass_built (p := ⟨s.maxAcc, r⟩) (s := packFields single s r) hp (hfill r)
  | sweepStart r htop hlock hbr =>
    rw [startedPass_some htop hlock, Option.toList_some]
    obtain ⟨hp, hbuf⟩ := h.atRest (by rw [htop]; rfl)
    refine .inSweep ⟨s.maxAcc, r⟩ .up 25 rfl hp ?_ (hfill r)
    rw [halfPacked_snoc, ← hbuf]
    exact (packSensors_spec single s.pk s.maxAcc r hk.size hk.head).1
  | sweepSkip r htop hlock hbr =>
    rw [startedPass_some htop hlock, Option.toList_some]
    obtain ⟨hp, -⟩ := h.atRest (by rw [htop]; rfl)
    exact finishPass_built (p := ⟨s.maxAcc, r⟩) (s := setDeployed (packFields single s r)) hp (hfill r)
  | sweepOn r d i raven hat hcond =>
    apply Built.of_none _ (startedPass_none (Or.inl (by rw [hat]; nofun)) r)
    cases h with
    | rest hout _ _ =>
      rw [hat] at hout
      cases hout
    | inSweep p d' i' hat' hp hbuf hfill' =>
      rw [hat] at hat'
      injection hat' with _ _ hraven
      exact .inSweep p d (d.next i) (by rw [← hraven]; rfl) hp hbuf hfill'
  | sweepEnd r d i raven hat hcond =>
    apply Built.of_none _ (startedPass_none (Or.inl (by rw [hat]; nofun)) r)
    cases h with
    | rest hout _ _ =>
      rw [hat] at hout
      cases hout
    | inSweep p d' i' hat' hp hbuf hfill' =>
      rw [hat] at hat'
      injection hat' with _ _ hraven
      rw [hraven]
      exact finishPass_built (s := setDeployed s) hp hfill'
  | again r hat =>
    exact Built.of_none (h.idle (by rw [hat]; rfl) rfl rfl rfl) (startedPass_none (Or.inl (by rw [hat]; nofun)) r)
  | flashOn opened past f hno => exact Built.of_none (h.of_eq rfl rfl rfl) rfl
  | flush opened past hat hsig => exact Built.of_none (h.of_eq rfl rfl rfl) rfl
  | send hat hlock => exact Built.of_none (h.of_eq rfl rfl rfl) rfl
  | unlock b hat => exact Built.of_none (h.of_eq rfl rfl rfl) rfl
  | radioOn p hno => exact Built.of_none (h.of_eq rfl rfl rfl) rfl

/-- **The packet buffer after every run** -/
theorem run_built (single : ℚ → UInt32) (as : List Act) :
    Built single (run (step single) init as) (startedPasses single init as) :=
  (run_observed (I := fun ps s => Packets s ∧ Built single s ps)
    (fun _ s a h => ⟨step_packets single s a h.1, step_built single s a h.1 h.2⟩) init as
    ⟨init_packets, init_built single⟩).2

/-! ## Copies -/

/-- a copy: the number of passes started, and whether the last of them is in its sweep -/
structure Copy where
  count : ℕ
  inSweep : Bool
deriving DecidableEq, Repr

/-- the copy a step takes -/
def copyTaken (s : St) : Act → Option Copy
  | .writeRadio =>
    if s.radioAt = .enter ∧ s.radioLock = false then
      some ⟨s.packed.length + (if sweeping s.loopAt then 1 else 0), sweeping s.loopAt⟩
    else none
  | _ => none

/-- the copies a run takes, oldest first -/
def copies (single : ℚ → UInt32) (s : St) (as : List Act) : List Copy := observed (step single) copyTaken s as

/-- the bytes of a copy in a run with the passes `ps` -/
def Copy.bytes (single : ℚ → UInt32) (ps : List Pass) (c : Copy) : List UInt8 :=
  if c.inSweep then halfPacked single (ps.take c.count) else lastPacket single (ps.take c.count)

theorem Copy.bytes_append (single : ℚ → UInt32) {ps : List Pass} (qs : List Pass) {c : Copy}
    (h : c.count ≤ ps.length) : c.bytes single (ps ++ qs) = c.bytes single ps := by
  unfold Copy.bytes
  rw [List.take_append_of_le_length h]

theorem Built.count {single : ℚ → UInt32} {s : St} {ps : List Pass} (h : Built single s ps) :
    ps.length = s.packed.length + if sweeping s.loopAt then 1 else 0 := by
  cases h with
  | rest hout hp _ =>
    rw [hout, hp, List.length_map]
    rfl
  | inSweep p d i hat hp _ _ =>
    rw [hat, hp, List.length_map, List.length_append]
    rfl

theorem Built.bytes {single : ℚ → UInt32} {s : St} {ps : List Pass} (h : Built single s ps) :
    s.pk.packetBuffer = Copy.bytes single ps ⟨ps.length, sweeping s.loopAt⟩ := by
  unfold Copy.bytes
  rw [List.take_length]
  cases h with
  | rest hout _ hbuf =>
    rw [hout]
    exact hbuf
  | inSweep p d i hat _ hbuf _ =>
    rw [hat]
    exact hbuf

/-- the copies `cs` taken in a run with the passes `ps` so far -/
structure Copied (single : ℚ → UInt32) (ps : List Pass) (cs : List Copy) (s : St) : Prop where
  sent : s.sent = cs.map (Copy.bytes single ps)
  order : cs.Pairwise fun b c => b.count ≤ c.count
  bound : ∀ c ∈ cs, c.count ≤ ps.length

/-- a step that takes no copy -/
theorem Copied.idle {single : ℚ → UInt32} {ps qs : List Pass} {cs : List Copy} {s t : St} {a : Act}
    (h : Copied single ps cs s) (hno : copyTaken s a = none) (hsent : t.sent = s.sent) :
    Copied single (ps ++ qs) (cs ++ (copyTaken s a).toList) t := by
  rw [hno, Option.toList_none, List.append_nil]
  refine ⟨?_, h.order, ?_⟩
  · rw [hsent, h.sent]
    apply List.map_congr_left
    intro c hc
    exact (Copy.bytes_append single qs (h.bound c hc)).symm
  · intro c hc
    rw [List.length_append]
    exact (h.bound c hc).trans (Nat.le_add_right _ _)

theorem step_copied (single : ℚ → UInt32) {ps : List Pass} {cs : List Copy} (s : St) (a : Act)
    (hb : Built single s ps) (h : Copied single ps cs s) :
    Copied single (ps ++ (startedPass s a).toList) (cs ++ (copyTaken s a).toList) (step single s a) := by
  have hm := step_moves single s a
  generalize step single s a = t at hm ⊢
  cases hm with
  | send hat hlock =>
    have hcopy : copyTaken s .writeRadio = some ⟨ps.length, sweeping s.loopAt⟩ := by
      rw [hb.count]
      exact if_pos ⟨hat, hlock⟩
    have hno : startedPass s .writeRadio = none := rfl
    rw [hcopy, hno, Option.toList_some, Option.toList_none, List.append_nil]
    refine ⟨?_, ?_, ?_⟩
    · show s.sent ++ [s.pk.packetBuffer] = _
      rw [h.sent, hb.bytes, List.map_append, List.map_singleton]
    · refine List.pairwise_append.2 ⟨h.order, List.pairwise_singleton _ _, ?_⟩
      intro b hb' c hc
      rw [List.mem_singleton.1 hc]
      exact h.bound b hb'
    · intro c hc
      rcases List.mem_append.1 hc with hc | hc
      · exact h.bound c hc
      · rw [List.mem_singleton.1 hc]
  | radioOn p hno => exact h.idle (if_neg hno) rfl
  | unlock b hat => exact h.idle (if_neg (by rw [hat]; nofun)) rfl
  | locked r htop hlock => exact h.idle rfl rfl
  | pass r htop hlock hbr => exact h.idle rfl rfl
  | sweepStart r htop hlock hbr => exact h.idle rfl rfl
  | sweepSkip r htop hlock hbr => exact h.idle rfl rfl
  | sweepOn r d i raven hat hcond => exact h.idle rfl rfl
  | sweepEnd r d i raven hat hcond => exact h.idle rfl rfl
  | again r hat => exact h.idle rfl rfl
  | flashOn opened past f hno => exact h.idle rfl rfl
  | flush opened past hat hsig => exact h.idle rfl rfl

theorem run_copied (single : ℚ → UInt32) (as : List Act) :
    Copied single (startedPasses single init as) (copies single init as) (run (step single) init as) := by
  induction as using List.reverseRecOn with
  | nil => exact ⟨rfl, .nil, nofun⟩
  | append_singleton as a ih =>
    rw [startedPasses, copies, observed_snoc, observed_snoc, run_snoc]
    exact step_copied single _ a (run_built single as) ih

/-! ## Checksums of copies -/

theorem lastFields_snoc (single : ℚ → UInt32) (ps : List Pass) (p : Pass) :
    lastFields single (ps ++ [p]) = p.fields single := by
  simp [lastFields]

theorem lastFields_length (single : ℚ → UInt32) (ps : List Pass) : (lastFields single ps).length = 64 := by
  rcases List.eq_nil_or_concat ps with rfl | ⟨ps, p, rfl⟩
  · rfl
  · rw [List.concat_eq_append, lastFields_snoc, fields_length]

theorem checksumOk_iff {w : List UInt8} (hw : w.length = 64) (o o' : UInt8) :
    ChecksumOk (tag ++ w ++ [o, o']) ↔ o' = xorAll w ^^^ o := by
  have hsplit : tag ++ w ++ [o, o'] = tag ++ ((w ++ [o]) ++ [o']) := by simp
  have hbody : ((tag ++ w ++ [o, o']).drop 4).take 65 = w ++ [o] := by
    rw [hsplit, List.drop_left' (by rfl : tag.length = 4), List.take_left' (by simp [hw])]
  have hlast : (tag ++ w ++ [o, o'])[69]? = some o' := by
    rw [hsplit, ← List.append_assoc, List.getElem?_append_right (by simp [tag, hw])]
    simp [tag, hw]
  rw [ChecksumOk, hbody, hlast, Option.some.injEq, xorAll_append, xorAll_cons, xorAll_nil, UInt8.xor_zero]

/-- the last packet: its sensor bytes, one more byte, and a right checksum -/
theorem lastPacket_split (single : ℚ → UInt32) (ps : List Pass) :
    ∃ o, lastPacket single ps = tag ++ lastFields single ps ++ [o, xorAll (lastFields single ps) ^^^ o] := by
  rcases List.eq_nil_or_concat ps with rfl | ⟨ps, p, rfl⟩
  · refine ⟨0, ?_⟩
    show initialBuffer = tag ++ List.replicate 64 0 ++ [0, xorAll (List.replicate 64 0) ^^^ 0]
    decide +kernel
  · refine ⟨ravenByte p.readings, ?_⟩
    rw [List.concat_eq_append, lastPacket_snoc, lastFields_snoc, Pass.packet, encode, Pass.fields, xorAll_append,
      xorAll_cons, xorAll_nil, UInt8.xor_zero]

theorem halfPacked_checksum (single : ℚ → UInt32) (ps : List Pass) :
    ChecksumOk (halfPacked single ps) ↔ xorAll (lastFields single ps) = xorAll (lastFields single ps.dropLast) := by
  rcases List.eq_nil_or_concat ps with rfl | ⟨ps, p, rfl⟩
  · have hinit : ChecksumOk initialBuffer := by decide +kernel
    exact iff_of_true hinit rfl
  · obtain ⟨o, ho⟩ := lastPacket_split single ps
    have hlen : (tag ++ lastFields single ps).length = 68 := by
      rw [List.length_append, lastFields_length]
      rfl
    rw [List.concat_eq_append, halfPacked_snoc, List.dropLast_concat, ho, List.drop_left' hlen,
      checksumOk_iff (fields_length single p), lastFields_snoc, UInt8.xor_left_inj]
    exact eq_comm

theorem lastPacket_checksum (single : ℚ → UInt32) (ps : List Pass) : ChecksumOk (lastPacket single ps) := by
  obtain ⟨o, ho⟩ := lastPacket_split single ps
  rw [ho]
  exact (checksumOk_iff (lastFields_length single ps) _ _).2 rfl

/-- a copy in a sweep: the sensor bytes of the pass have the XOR of those of the pass before -/
def Copy.SameSum (single : ℚ → UInt32) (ps : List Pass) (c : Copy) : Prop :=
  xorAll (lastFields single (ps.take c.count)) = xorAll (lastFields single (ps.take c.count).dropLast)

theorem Copy.checksum (single : ℚ → UInt32) (ps : List Pass) (c : Copy) :
    ChecksumOk (c.bytes single ps) ↔ (c.inSweep = true → c.SameSum single ps) := by
  unfold Copy.bytes
  split_ifs with hsw
  · rw [halfPacked_checksum]
    exact ⟨fun h _ => h, fun h => h hsw⟩
  · exact iff_of_true (lastPacket_checksum single _) (fun h => absurd h hsw)

/-! ## Copies as packets -/

theorem lastPacket_head (single : ℚ → UInt32) (ps : List Pass) : (lastPacket single ps).take 4 = tag := by
  obtain ⟨o, ho⟩ := lastPacket_split single ps
  rw [ho, List.append_assoc, List.take_left' (by rfl : tag.length = 4)]

theorem Copy.bytes_length (single : ℚ → UInt32) (ps : List Pass) (c : Copy) :
    (c.bytes single ps).length = packetSize := by
  unfold Copy.bytes
  split_ifs
  · rcases List.eq_nil_or_concat (ps.take c.count) with hps | ⟨qs, p, hps⟩
    · rw [hps]
      rfl
    · rw [hps, List.concat_eq_append, halfPacked_snoc, List.length_append, List.length_append, fields_length,
        List.length_drop, lastPacket_length]
      rfl
  · exact lastPacket_length single _

theorem Copy.bytes_head (single : ℚ → UInt32) (ps : List Pass) (c : Copy) : (c.bytes single ps).take 4 = tag := by
  unfold Copy.bytes
  split_ifs
  · rcases List.eq_nil_or_concat (ps.take c.count) with hps | ⟨qs, p, hps⟩
    · rw [hps]
      rfl
    · rw [hps, List.concat_eq_append, halfPacked_snoc, List.append_assoc, List.take_left' (by rfl : tag.length = 4)]
  · exact lastPacket_head single _

theorem Copy.bytes_tagged (single : ℚ → UInt32) (ps : List Pass) (c : Copy) :
    (c.bytes single ps).take 3 = [chN, chU, chX] := by
  have h := congrArg (List.take 3) (c.bytes_head single ps)
  rwa [List.take_take] at h

def Copy.packet (single : ℚ → UInt32) (ps : List Pass) (c : Copy) : Packet where
  bytes := c.bytes single ps
  size := c.bytes_length single ps
  tagged := c.bytes_tagged single ps

theorem checksumOk_valid (p : Packet) : ChecksumOk p.bytes ↔ p.Valid := by
  have h69 : 69 < p.bytes.length := by
    rw [p.size]
    decide
  rw [ChecksumOk, List.getElem?_eq_getElem h69, Option.some.injEq]
  exact eq_comm

/-- a copy that the receiver's checksum test lets through -/
theorem Copy.valid (single : ℚ → UInt32) (ps : List Pass) (c : Copy) :
    (c.packet single ps).Valid ↔ (c.inSweep = true → c.SameSum single ps) := by
  rw [← checksumOk_valid]
  exact c.checksum single ps

/-- **What the flight computer transmits.** Over every run: the copies, in order, are each the packet of the last pass
started by then, the initial buffer when there is none, or that pass half packed if it is in its sweep; so their passes
never go back. A copy of a whole packet has a right checksum, and a half-packed one exactly when its sensor bytes have
the XOR of those of the pass before. -/
theorem sent_copies (single : ℚ → UInt32) (as : List Act) :
    let ps := startedPasses single init as
    let cs := copies single init as
    (run (step single) init as).sent = cs.map (Copy.bytes single ps) ∧
      cs.Pairwise (fun b c => b.count ≤ c.count) ∧
      (∀ pre a c, copyTaken (run (step single) init pre) a = some c →
        c.count = (startedPasses single init pre).length) ∧
      ∀ c ∈ cs, ChecksumOk (c.bytes single ps) ↔ (c.inSweep = true → c.SameSum single ps) := by
  intro ps cs
  have h : Copied single ps cs (run (step single) init as) := run_copied single as
  refine ⟨h.sent, h.order, ?_, fun c _ => c.checksum single ps⟩
  intro pre a c hc
  have hcount := (run_built single pre).count
  cases a with
  | writeRadio =>
    rw [copyTaken] at hc
    by_cases hfree : (run (step single) init pre).radioAt = .enter ∧ (run (step single) init pre).radioLock = false
    · rw [if_pos hfree] at hc
      rw [hcount, ← Option.some.inj hc]
    · rw [if_neg hfree] at hc
      cases hc
  | loop r => cases hc
  | writeFlash opened past => cases hc

end NuStars.Avionics
