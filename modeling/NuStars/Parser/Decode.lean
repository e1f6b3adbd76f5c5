/-
Decoding one packet of a log (parse.m, old_parse_for_old_data.m).

Both scripts read the fields at the same distances from an `offset`; they differ in where it comes from. Arrays are
1-based, and an index outside the array is an error (`none`). `data` holds byte values, so `data(k)` is one of them. A
single is its bit pattern.

The flight computer packs 15 singles behind the time. Both scripts read the last of them, `maxAcc`, as the uint32
`numSat`.

- `decode_encode`: what the fields of an entry are, in terms of the words of the packet;
- `decode_pass`: for the packet of a packing pass, every field but the last single comes back as it was packed;
- `not_decoded`: so no packet is decoded to what was packed.
-/
import NuStars.Avionics.Flight

namespace NuStars.Parser

open NuStars.Avionics NuStars.LittleEndian NuStars.Run

/-! ## Arrays -/

section
variable {α : Type*}

/-- `data(i)` -/
def index (data : List α) (i : ℕ) : Option α := if i = 0 then none else data[i - 1]?

/-- `data(a : b)` -/
def slice (data : List α) (a b : ℕ) : Option (List α) :=
  if b < a then some []
  else if a = 0 ∨ data.length < b then none
  else some ((data.drop (a - 1)).take (b + 1 - a))

theorem index_mid (before after : List α) (x : α) {i : ℕ} (hi : i = before.length + 1) :
    index (before ++ x :: after) i = some x := by
  simp [index, hi]

theorem slice_mid (before mid after : List α) {a b : ℕ} (ha : a = before.length + 1)
    (hb : b = before.length + mid.length) (hmid : mid ≠ []) : slice (before ++ mid ++ after) a b = some mid := by
  have hpos : 0 < mid.length := List.length_pos_iff.2 hmid
  have hlen : (before ++ mid ++ after).length = before.length + mid.length + after.length := by
    simp [Nat.add_assoc]
  rw [slice, if_neg (by omega), if_neg (by omega), ha, Nat.add_sub_cancel, List.append_assoc, List.drop_left,
    show b + 1 - (before.length + 1) = mid.length by omega, List.take_left]

end

/-! ## Entries -/

inductive Class where
  | uint32
  | single
deriving DecidableEq, Repr

inductive Value where
  | uint32 (w : UInt32)
  | single (bits : UInt32)
deriving DecidableEq, Repr

def Class.value : Class → UInt32 → Value
  | .uint32 => .uint32
  | .single => .single

/-- `typecast(uint8(bs), class)` of four bytes -/
def typecast (c : Class) (bs : List UInt8) : Value := c.value (UInt32.ofNat (leNat bs))

/-- one element of each array the loop fills -/
structure Entry where
  headers : List UInt8
  times : Value
  xAccMUX : Value
  yAccMUX : Value
  zAccMUX : Value
  xRotMUX : Value
  yRotMUX : Value
  zRotMUX : Value
  xAccDXL : Value
  yAccDXL : Value
  zAccDXL : Value
  pressure : Value
  temperature : Value
  lat : Value
  lng : Value
  gpsAlt : Value
  numSat : Value
  raven : UInt8
deriving DecidableEq, Repr

/-- the body of the loop, once `offset` is set -/
def decode (data : List UInt8) (offset : ℕ) : Option Entry := do
  let h0 ← index data offset
  let h1 ← index data (offset + 1)
  let h2 ← index data (offset + 2)
  let times ← slice data (offset + 4) (offset + 7)
  let xAccMUX ← slice data (offset + 8) (offset + 11)
  let yAccMUX ← slice data (offset + 12) (offset + 15)
  let zAccMUX ← slice data (offset + 16) (offset + 19)
  let xRotMUX ← slice data (offset + 20) (offset + 23)
  let yRotMUX ← slice data (offset + 24) (offset + 27)
  let zRotMUX ← slice data (offset + 28) (offset + 31)
  let xAccDXL ← slice data (offset + 32) (offset + 35)
  let yAccDXL ← slice data (offset + 36) (offset + 39)
  let zAccDXL ← slice data (offset + 40) (offset + 43)
  let pressure ← slice data (offset + 44) (offset + 47)
  let temperature ← slice data (offset + 48) (offset + 51)
  let lat ← slice data (offset + 52) (offset + 55)
  let lng ← slice data (offset + 56) (offset + 59)
  let gpsAlt ← slice data (offset + 60) (offset + 63)
  let numSat ← slice data (offset + 64) (offset + 67)
  let raven ← index data (offset + 68)
  return {
    headers := [h0, h1, h2]
    times := typecast .uint32 times
    xAccMUX := typecast .single xAccMUX
    yAccMUX := typecast .single yAccMUX
    zAccMUX := typecast .single zAccMUX
    xRotMUX := typecast .single xRotMUX
    yRotMUX := typecast .single yRotMUX
    zRotMUX := typecast .single zRotMUX
    xAccDXL := typecast .single xAccDXL
    yAccDXL := typecast .single yAccDXL
    zAccDXL := typecast .single zAccDXL
    pressure := typecast .single pressure
    temperature := typecast .single temperature
    lat := typecast .single lat
    lng := typecast .single lng
    gpsAlt := typecast .single gpsAlt
    numSat := typecast .uint32 numSat
    raven }

/-- entry i of parse.m: `offset = match(i)` -/
def parseEntry (data : List UInt8) (mtch : List ℕ) (i : ℕ) : Option Entry := do
  let offset ← index mtch i
  decode data offset

/-- entry i of old_parse_for_old_data.m -/
def oldParseEntry (data : List UInt8) (i : ℕ) : Option Entry := decode data ((i - 1) * 70 + 1)

/-! ## Packets -/

theorem typecast_word (c : Class) (w : UInt32) : typecast c (leBytes 4 w.toNat) = c.value w := by
  rw [typecast, leNat_leBytes 4 w.toNat (by simpa using w.toNat_lt), UInt32.ofNat_toNat]

theorem slice_word (before after : List UInt8) (ws : List UInt32) (raven : UInt8) (k : ℕ) (hk : k < ws.length) :
    slice (before ++ encode ws raven ++ after) (before.length + 1 + (4 + 4 * k)) (before.length + 1 + (7 + 4 * k)) =
      some (leBytes 4 ws[k].toNat) := by
  have hsplit : wordBytes ws = wordBytes (ws.take k) ++ leBytes 4 ws[k].toNat ++ wordBytes (ws.drop (k + 1)) := by
    rw [List.append_assoc, ← wordBytes_cons, ← List.drop_eq_getElem_cons hk, ← wordBytes_append, List.take_append_drop]
  have hdata : before ++ encode ws raven ++ after =
      (before ++ (tag ++ wordBytes (ws.take k))) ++ leBytes 4 ws[k].toNat ++
        (wordBytes (ws.drop (k + 1)) ++ [raven, xorAll (wordBytes ws ++ [raven])] ++ after) := by
    rw [encode, hsplit]
    simp only [List.append_assoc]
  have hlen : (before ++ (tag ++ wordBytes (ws.take k))).length = before.length + (4 + 4 * k) := by
    rw [List.length_append, List.length_append, wordBytes_length, List.length_take, Nat.min_eq_left hk.le]
    rfl
  rw [hdata]
  refine slice_mid _ _ _ ?_ ?_ ?_
  · rw [hlen]
    omega
  · rw [hlen, length_leBytes]
    omega
  · exact List.ne_nil_of_length_eq_add_one (length_leBytes 4 _)

/-- the bytes of a packet that are not in a word -/
theorem index_packet (before after : List UInt8) (ws : List UInt32) (raven : UInt8) (hws : ws.length = 16) :
    index (before ++ encode ws raven ++ after) (before.length + 1) = some chN ∧
      index (before ++ encode ws raven ++ after) (before.length + 1 + 1) = some chU ∧
      index (before ++ encode ws raven ++ after) (before.length + 1 + 2) = some chX ∧
      index (before ++ encode ws raven ++ after) (before.length + 1 + 68) = some raven := by
  have hdata : before ++ encode ws raven ++ after = before ++ chN :: chU :: chX :: chSpace ::
      (wordBytes ws ++ raven :: xorAll (wordBytes ws ++ [raven]) :: after) := by
    simp [encode, tag]
  rw [hdata]
  generalize xorAll (wordBytes ws ++ [raven]) :: after = post
  refine ⟨index_mid before _ chN rfl, ?_, ?_, ?_⟩
  · rw [List.append_cons before]
    exact index_mid _ _ chU (by simp)
  · rw [List.append_cons before, List.append_cons (before ++ [chN])]
    exact index_mid _ _ chX (by simp)
  · rw [List.append_cons before, List.append_cons (before ++ [chN]), List.append_cons (before ++ [chN] ++ [chU]),
      List.append_cons (before ++ [chN] ++ [chU] ++ [chX]), ← List.append_assoc]
    apply index_mid
    simp [hws]

/-- **What is decoded** from a packet of 16 words, wherever it stands in the log -/
theorem decode_encode (before after : List UInt8) (w0 w1 w2 w3 w4 w5 w6 w7 w8 w9 w10 w11 w12 w13 w14 w15 : UInt32)
    (raven : UInt8) :
    decode (before ++ encode [w0, w1, w2, w3, w4, w5, w6, w7, w8, w9, w10, w11, w12, w13, w14, w15] raven ++ after)
        (before.length + 1) =
      some ⟨[chN, chU, chX], .uint32 w0, .single w1, .single w2, .single w3, .single w4, .single w5, .single w6,
        .single w7, .single w8, .single w9, .single w10, .single w11, .single w12, .single w13, .single w14,
        .uint32 w15, raven⟩ := by
  have hword := slice_word before after [w0, w1, w2, w3, w4, w5, w6, w7, w8, w9, w10, w11, w12, w13, w14, w15] raven
  rcases index_packet before after _ raven (by rfl : [w0, w1, w2, w3, w4, w5, w6, w7, w8, w9, w10, w11, w12, w13, w14,
    w15].length = 16) with ⟨hN, hU, hX, hraven⟩
  generalize before ++ encode _ raven ++ after = data at hN hU hX hraven hword ⊢
  generalize before.length + 1 = o at hN hU hX hraven hword ⊢
  have h0 : slice data (o + 4) (o + 7) = some (leBytes 4 w0.toNat) := hword 0 (by simp)
  have h1 : slice data (o + 8) (o + 11) = some (leBytes 4 w1.toNat) := hword 1 (by simp)
  have h2 : slice data (o + 12) (o + 15) = some (leBytes 4 w2.toNat) := hword 2 (by simp)
  have h3 : slice data (o + 16) (o + 19) = some (leBytes 4 w3.toNat) := hword 3 (by simp)
  have h4 : slice data (o + 20) (o + 23) = some (leBytes 4 w4.toNat) := hword 4 (by simp)
  have h5 : slice data (o + 24) (o + 27) = some (leBytes 4 w5.toNat) := hword 5 (by simp)
  have h6 : slice data (o + 28) (o + 31) = some (leBytes 4 w6.toNat) := hword 6 (by simp)
  have h7 : slice data (o + 32) (o + 35) = some (leBytes 4 w7.toNat) := hword 7 (by simp)
  have h8 : slice data (o + 36) (o + 39) = some (leBytes 4 w8.toNat) := hword 8 (by simp)
  have h9 : slice data (o + 40) (o + 43) = some (leBytes 4 w9.toNat) := hword 9 (by simp)
  have h10 : slice data (o + 44) (o + 47) = some (leBytes 4 w10.toNat) := hword 10 (by simp)
  have h11 : slice data (o + 48) (o + 51) = some (leBytes 4 w11.toNat) := hword 11 (by simp)
  have h12 : slice data (o + 52) (o + 55) = some (leBytes 4 w12.toNat) := hword 12 (by simp)
  have h13 : slice data (o + 56) (o + 59) = some (leBytes 4 w13.toNat) := hword 13 (by simp)
  have h14 : slice data (o + 60) (o + 63) = some (leBytes 4 w14.toNat) := hword 14 (by simp)
  have h15 : slice data (o + 64) (o + 67) = some (leBytes 4 w15.toNat) := hword 15 (by simp)
  simp only [decode, hN, hU, hX, hraven, h0, h1, h2, h3, h4, h5, h6, h7, h8, h9, h10, h11, h12, h13, h14, h15,
    Option.bind_eq_bind, Option.bind_some, typecast_word]
  rfl

/-! ## The packet of a pass -/

/-- what a packing pass packs, at the types it packs it with -/
def packedEntry (single : ℚ → UInt32) (maxAcc : ℚ) (r : Readings) (raven : UInt8) : Entry :=
  let (ax, k) := adxl.getAcceleration r.analogRead 0 .x
  let (ay, k) := adxl.getAcceleration r.analogRead k .y
  let (az, k) := adxl.getAcceleration r.analogRead k .z
  let (yAcc, _) := adxl.getAcceleration r.analogRead k .y
  { headers := [chN, chU, chX]
    times := .uint32 r.millis
    xAccMUX := .single (r.imuAcceleration .x)
    yAccMUX := .single (r.imuAcceleration .y)
    zAccMUX := .single (r.imuAcceleration .z)
    xRotMUX := .single (r.imuOrientation .x)
    yRotMUX := .single (r.imuOrientation .y)
    zRotMUX := .single (r.imuOrientation .z)
    xAccDXL := .single (single ax)
    yAccDXL := .single (single ay)
    zAccDXL := .single (single az)
    pressure := .single r.pressure
    temperature := .single r.temp
    lat := .single r.latitude
    lng := .single r.longitude
    gpsAlt := .single r.altitude
    numSat := .single (single (if |yAcc| > |maxAcc| then |yAcc| else maxAcc))
    raven }

/-- the packet buffer at the end of a pass -/
def passPacket (single : ℚ → UInt32) (p : Packer) (maxAcc : ℚ) (r : Readings) (raven : UInt8) : List UInt8 :=
  ((packSensors single p maxAcc r).1.packTail raven).packetBuffer

/-- every field comes back, except that the last single comes back as a uint32 -/
theorem decode_pass (single : ℚ → UInt32) (p : Packer) (maxAcc : ℚ) (r : Readings) (raven : UInt8)
    (hlen : p.packetBuffer.length = packetSize) (htag : p.packetBuffer.take 4 = tag) (before after : List UInt8) :
    ∃ bits, (packedEntry single maxAcc r raven).numSat = .single bits ∧
      decode (before ++ passPacket single p maxAcc r raven ++ after) (before.length + 1) =
        some { packedEntry single maxAcc r raven with numSat := .uint32 bits } := by
  have hpkt : passPacket single p maxAcc r raven = encode (fieldWords single maxAcc r) raven :=
    packTail_filled (packSensors_filled single p maxAcc r hlen htag) raven
  rw [hpkt]
  exact ⟨_, rfl, decode_encode before after _ _ _ _ _ _ _ _ _ _ _ _ _ _ _ _ raven⟩

/-- **No packet is decoded to what was packed.** Whatever a run did before, whatever a pass then reads and samples, and
wherever its packet stands in the log: neither parse.m at the position of the tag nor the fixed stride returns it. -/
theorem not_decoded (single : ℚ → UInt32) (as : List Act) (r : Readings) (raven : UInt8) (before after : List UInt8) :
    let s := run (step single) init as
    let data := before ++ passPacket single s.pk s.maxAcc r raven ++ after
    (∀ mtch i, index mtch i = some (before.length + 1) →
        parseEntry data mtch i ≠ some (packedEntry single s.maxAcc r raven)) ∧
      ∀ i, before.length = (i - 1) * 70 → oldParseEntry data i ≠ some (packedEntry single s.maxAcc r raven) := by
  intro s data
  have hs : Packets s := run_packets single as
  have hdec : decode data (before.length + 1) ≠ some (packedEntry single s.maxAcc r raven) := by
    rcases decode_pass single s.pk s.maxAcc r raven hs.size hs.head before after with ⟨bits, hbits, hdec⟩
    intro h
    have hnum := congrArg Entry.numSat (Option.some.inj (hdec.symm.trans h))
    rw [hbits] at hnum
    cases hnum
  refine ⟨?_, ?_⟩
  · intro mtch i hi
    rw [parseEntry, hi]
    exact hdec
  · intro i hi
    rw [oldParseEntry, ← hi]
    exact hdec

/-- the first pass on the pad -/
def padPass : List UInt8 := passPacket padSingle init.pk 0 (padReadings 1 allHigh) 0

theorem not_decoded_pad :
    parseEntry (padPass ++ padPass) [1, 71] 1 ≠ some (packedEntry padSingle 0 (padReadings 1 allHigh) 0) :=
  (not_decoded padSingle [] (padReadings 1 allHigh) 0 [] padPass).1 [1, 71] 1 rfl

/-- 200.0 is packed, 1128792064 comes back -/
theorem maxAcc_misread :
    (packedEntry padSingle 0 (padReadings 1 allHigh) 0).numSat = .single 0x43480000 ∧
      (parseEntry (padPass ++ padPass) [1, 71] 1).map Entry.numSat = some (.uint32 1128792064) ∧
      parseEntry (padPass ++ padPass) [1, 71] 1 ≠ some (packedEntry padSingle 0 (padReadings 1 allHigh) 0) ∧
      oldParseEntry (padPass ++ padPass) 1 ≠ some (packedEntry padSingle 0 (padReadings 1 allHigh) 0) := by
  decide +kernel

end NuStars.Parser
