/-
The packing block of the flight computer's `loop()` (avionics.ino, sensors.cpp): `pack`, the fields in the order they
are packed, and the packet that results.

`Packer` is the data `pack` works on: `packetBuffer`, the global index `bufferLocation`, the running `checksum` and the
union `fusion` as its four bytes (sizeof(long) = sizeof(float) = 4, little endian). `packSensors` is the block from
`bufferLocation = tagLength` to the last sensor field; `packTail` packs the raven byte and then the checksum.

Readings. The IMU, altimeter and GPS deliver singles, given by their 32-bit patterns. The accelerations of the ADXL and
`maxAcc` are exact rationals, and `single : ℚ → UInt32` is the pattern the compiler stores for such a value; it is
arbitrary. `analogRead k p` is what the k-th `analogRead` of the pass returns if it reads pin p, so two reads of one pin
may differ.

- `packBytes_spec`: `pack` overwrites the next bytes and adds them to the checksum;
- `packSensors_spec`, `packTail_spec`: the buffer between the fields and the raven byte, and at the end of the pass;
- `encode_checksum`: byte 69 of a finished packet is the XOR of bytes 4..68.
-/
import NuStars.Core.LittleEndian
import NuStars.Packet

namespace NuStars.Avionics

open NuStars.LittleEndian

/-! ## Sensors -/

/-- X_AXIS, Y_AXIS, Z_AXIS -/
inductive Axis where
  | x
  | y
  | z
deriving DecidableEq, Repr

inductive AnalogPin where
  | A0
  | A1
  | A2
  | A3
  | A4
  | A5
deriving DecidableEq, Repr

/-- the Raven detection pins -/
inductive RavenPin where
  | R0A
  | R0B
  | R1A
  | R1B
deriving DecidableEq, Repr

inductive Level where
  | LOW
  | HIGH
deriving DecidableEq, Repr

/-- what one pass of `loop()` reads -/
structure Readings where
  millis : UInt32
  imuAcceleration : Axis → UInt32
  imuOrientation : Axis → UInt32
  analogRead : ℕ → AnalogPin → ℕ
  pressure : UInt32
  temp : UInt32
  latitude : UInt32
  longitude : UInt32
  altitude : UInt32
  digitalRead : RavenPin → Level

structure ADXL where
  xPin : AnalogPin
  yPin : AnalogPin
  zPin : AnalogPin

/-- `adxl = new ADXL(A1, A2, A3)` -/
def adxl : ADXL := ⟨.A1, .A2, .A3⟩

/-- the pins `switch (axis)` reads: its cases have no `break`, so each runs on into the next -/
def ADXL.switch (a : ADXL) : Axis → List AnalogPin
  | .x => [a.xPin, a.yPin, a.zPin]
  | .y => [a.yPin, a.zPin]
  | .z => [a.zPin]

/-- the value of `ADXL::getAcceleration` when k analog reads came before it in the pass, and the count after it -/
def ADXL.getAcceleration (a : ADXL) (analogRead : ℕ → AnalogPin → ℕ) (k : ℕ) (axis : Axis) : ℚ × ℕ :=
  let r := (a.switch axis).foldl (fun s p => (analogRead s.2 p, s.2 + 1)) (0, k)
  ((r.1 : ℚ) * 400 / 1023 - 200, r.2)

/-! ## pack -/

structure Packer where
  packetBuffer : List UInt8
  bufferLocation : ℕ
  checksum : UInt8
  /-- the bytes of the union -/
  fusion : List UInt8
deriving DecidableEq, Repr

/-- the body of the loop of `pack`: `buff[index++] = fuz.b[i]; checksum ^= fuz.b[i]` -/
def Packer.put (s : Packer) (b : UInt8) : Packer :=
  { s with
    packetBuffer := s.packetBuffer.set s.bufferLocation b
    bufferLocation := s.bufferLocation + 1
    checksum := s.checksum ^^^ b }

/-- the loop of `pack` -/
def packBytes (s : Packer) : List UInt8 → Packer
  | [] => s
  | b :: bs => packBytes (s.put b) bs

/-- `pack(fusion, packetBuffer, bufferLocation, size)` -/
def Packer.pack (s : Packer) (size : ℕ) : Packer := packBytes s (s.fusion.take size)

/-- `fusion.l = w` or `fusion.f = w`, then `pack` of its four bytes -/
def Packer.packWord (s : Packer) (w : UInt32) : Packer := { s with fusion := leBytes 4 w.toNat }.pack 4

/-- `fusion.b[0] = b`, then `pack` of that byte -/
def Packer.packByte (s : Packer) (b : UInt8) : Packer := { s with fusion := s.fusion.set 0 b }.pack 1

/-- the packing block up to the last sensor field, with the new `maxAcc` -/
def packSensors (single : ℚ → UInt32) (s : Packer) (maxAcc : ℚ) (r : Readings) : Packer × ℚ :=
  let s := { s with bufferLocation := tag.length, checksum := 0 }
  let s := s.packWord r.millis
  let s := s.packWord (r.imuAcceleration .x)
  let s := s.packWord (r.imuAcceleration .y)
  let s := s.packWord (r.imuAcceleration .z)
  let s := s.packWord (r.imuOrientation .x)
  let s := s.packWord (r.imuOrientation .y)
  let s := s.packWord (r.imuOrientation .z)
  let (ax, k) := adxl.getAcceleration r.analogRead 0 .x
  let s := s.packWord (single ax)
  let (ay, k) := adxl.getAcceleration r.analogRead k .y
  let s := s.packWord (single ay)
  let (az, k) := adxl.getAcceleration r.analogRead k .z
  let s := s.packWord (single az)
  let s := s.packWord r.pressure
  let s := s.packWord r.temp
  let (yAcc, _) := adxl.getAcceleration r.analogRead k .y
  let maxAcc := if |yAcc| > |maxAcc| then |yAcc| else maxAcc
  let s := s.packWord r.latitude
  let s := s.packWord r.longitude
  let s := s.packWord r.altitude
  let s := s.packWord (single maxAcc)
  (s, maxAcc)

/-- the raven byte, then the checksum through the same function -/
def Packer.packTail (s : Packer) (raven : UInt8) : Packer :=
  let s := s.packByte raven
  s.packByte s.checksum

/-! ## The packet -/

/-- the 16 words of a packet in packing order: the time, then 15 singles -/
def fieldWords (single : ℚ → UInt32) (maxAcc : ℚ) (r : Readings) : List UInt32 :=
  let (ax, k) := adxl.getAcceleration r.analogRead 0 .x
  let (ay, k) := adxl.getAcceleration r.analogRead k .y
  let (az, k) := adxl.getAcceleration r.analogRead k .z
  let (yAcc, _) := adxl.getAcceleration r.analogRead k .y
  [r.millis, r.imuAcceleration .x, r.imuAcceleration .y, r.imuAcceleration .z, r.imuOrientation .x,
    r.imuOrientation .y, r.imuOrientation .z, single ax, single ay, single az, r.pressure, r.temp, r.latitude,
    r.longitude, r.altitude, single (if |yAcc| > |maxAcc| then |yAcc| else maxAcc)]

/-- bytes 4..67: the words in packing order -/
def wordBytes (ws : List UInt32) : List UInt8 := ws.flatMap fun w => leBytes 4 w.toNat

/-- a whole packet: the tag, the words, the raven byte and the XOR of all bytes between the tag and it -/
def encode (ws : List UInt32) (raven : UInt8) : List UInt8 :=
  tag ++ wordBytes ws ++ [raven, xorAll (wordBytes ws ++ [raven])]

@[simp] theorem wordBytes_length (ws : List UInt32) : (wordBytes ws).length = 4 * ws.length := by
  simp [wordBytes, Nat.mul_comm]

theorem wordBytes_cons (w : UInt32) (ws : List UInt32) : wordBytes (w :: ws) = leBytes 4 w.toNat ++ wordBytes ws := by
  simp [wordBytes]

theorem wordBytes_append (ws ws' : List UInt32) : wordBytes (ws ++ ws') = wordBytes ws ++ wordBytes ws' := by
  simp [wordBytes]

@[simp] theorem fieldWords_length (single : ℚ → UInt32) (maxAcc : ℚ) (r : Readings) :
    (fieldWords single maxAcc r).length = 16 := rfl

theorem packBytes_spec (s : Packer) (bs before old after : List UInt8) (hbuf : s.packetBuffer = before ++ old ++ after)
    (hloc : s.bufferLocation = before.length) (hlen : old.length = bs.length) :
    packBytes s bs = { s with
      packetBuffer := before ++ bs ++ after
      bufferLocation := before.length + bs.length
      checksum := s.checksum ^^^ xorAll bs } := by
  induction bs generalizing s before old with
  | nil =>
    have hold : old = [] := List.length_eq_zero_iff.1 hlen
    subst hold
    rw [List.append_nil] at hbuf
    simp [packBytes, ← hbuf, ← hloc]
  | cons b bs ih =>
    obtain ⟨o, old, rfl⟩ : ∃ o old', old = o :: old' := by
      cases old with
      | nil => simp at hlen
      | cons o old => exact ⟨o, old, rfl⟩
    have hset : s.packetBuffer.set s.bufferLocation b = before ++ [b] ++ old ++ after := by
      rw [hbuf, hloc]
      simp
    rw [packBytes, ih (s.put b) (before ++ [b]) old hset]
    · simp [Packer.put, UInt8.xor_assoc, Nat.add_assoc, Nat.add_comm 1]
    · simp [Packer.put, hloc]
    · simpa using hlen

theorem packWord_spec (s : Packer) (w : UInt32) (before old after : List UInt8)
    (hbuf : s.packetBuffer = before ++ old ++ after) (hloc : s.bufferLocation = before.length) (hlen : old.length = 4) :
    s.packWord w = {
      packetBuffer := before ++ leBytes 4 w.toNat ++ after
      bufferLocation := before.length + 4
      checksum := s.checksum ^^^ xorAll (leBytes 4 w.toNat)
      fusion := leBytes 4 w.toNat } := by
  have htake : (leBytes 4 w.toNat).take 4 = leBytes 4 w.toNat := List.take_of_length_le (by simp)
  have hspec := packBytes_spec { s with fusion := leBytes 4 w.toNat } (leBytes 4 w.toNat) before old after hbuf hloc
    (by simp [hlen])
  show packBytes _ ((leBytes 4 w.toNat).take 4) = _
  rw [htake, hspec]
  simp

/-- packing words one after another -/
theorem foldl_packWord (ws : List UInt32) (s : Packer) (before old after : List UInt8)
    (hbuf : s.packetBuffer = before ++ old ++ after) (hloc : s.bufferLocation = before.length)
    (hlen : old.length = 4 * ws.length) :
    (ws.foldl Packer.packWord s).packetBuffer = before ++ wordBytes ws ++ after ∧
      (ws.foldl Packer.packWord s).bufferLocation = before.length + 4 * ws.length ∧
      (ws.foldl Packer.packWord s).checksum = s.checksum ^^^ xorAll (wordBytes ws) ∧
      (ws ≠ [] → (ws.foldl Packer.packWord s).fusion.length = 4) := by
  induction ws generalizing s before old with
  | nil =>
    have hold : old = [] := List.length_eq_zero_iff.1 hlen
    subst hold
    simp [hbuf, hloc, wordBytes]
  | cons w ws ih =>
    rw [List.length_cons] at hlen
    have hsplit : s.packetBuffer = before ++ old.take 4 ++ (old.drop 4 ++ after) := by
      rw [List.append_assoc before, ← List.append_assoc (old.take 4), List.take_append_drop, ← List.append_assoc, hbuf]
    have hw := packWord_spec s w before (old.take 4) (old.drop 4 ++ after) hsplit hloc
      (by rw [List.length_take]; omega)
    have ih' := ih (s.packWord w) (before ++ leBytes 4 w.toNat) (old.drop 4) (by rw [hw]; simp) (by rw [hw]; simp)
      (by rw [List.length_drop]; omega)
    rcases ih' with ⟨h1, h2, h3, h4⟩
    rw [List.foldl_cons]
    refine ⟨?_, ?_, ?_, ?_⟩
    · rw [h1, wordBytes_cons]
      simp
    · rw [h2, List.length_append, length_leBytes, List.length_cons]
      omega
    · rw [h3, hw, wordBytes_cons]
      simp [UInt8.xor_assoc]
    · intro _
      by_cases hws : ws = []
      · simp [hws, hw]
      · exact h4 hws

theorem packSensors_eq (single : ℚ → UInt32) (s : Packer) (maxAcc : ℚ) (r : Readings) :
    (packSensors single s maxAcc r).1 =
      (fieldWords single maxAcc r).foldl Packer.packWord { s with bufferLocation := tag.length, checksum := 0 } := rfl

/-- the new `maxAcc`: the fourth ADXL call of the pass against the old one -/
theorem packSensors_max (single : ℚ → UInt32) (s : Packer) (maxAcc : ℚ) (r : Readings) :
    (packSensors single s maxAcc r).2 =
      let (_, k) := adxl.getAcceleration r.analogRead 0 .x
      let (_, k) := adxl.getAcceleration r.analogRead k .y
      let (_, k) := adxl.getAcceleration r.analogRead k .z
      let (yAcc, _) := adxl.getAcceleration r.analogRead k .y
      if |yAcc| > |maxAcc| then |yAcc| else maxAcc := rfl

-- the proofs about runs go through the lemmas below, never through the sixteen fields
attribute [irreducible] packSensors

/-- **The buffer after the sensor fields**: the tag, the new words, and the two old bytes at 68 and 69 -/
theorem packSensors_spec (single : ℚ → UInt32) (s : Packer) (maxAcc : ℚ) (r : Readings)
    (hlen : s.packetBuffer.length = packetSize) (htag : s.packetBuffer.take 4 = tag) :
    (packSensors single s maxAcc r).1.packetBuffer =
        tag ++ wordBytes (fieldWords single maxAcc r) ++ s.packetBuffer.drop 68 ∧
      (packSensors single s maxAcc r).1.bufferLocation = 68 ∧
      (packSensors single s maxAcc r).1.checksum = xorAll (wordBytes (fieldWords single maxAcc r)) ∧
      (packSensors single s maxAcc r).1.fusion.length = 4 := by
  simp only [packetSize] at hlen
  have hsplit : s.packetBuffer = tag ++ (s.packetBuffer.drop 4).take 64 ++ s.packetBuffer.drop 68 := by
    rw [List.append_assoc, ← htag, show s.packetBuffer.drop 68 = (s.packetBuffer.drop 4).drop 64 by
      rw [List.drop_drop], List.take_append_drop, List.take_append_drop]
  obtain ⟨h1, h2, h3, h4⟩ := foldl_packWord (fieldWords single maxAcc r)
    { s with bufferLocation := tag.length, checksum := 0 } tag ((s.packetBuffer.drop 4).take 64)
    (s.packetBuffer.drop 68) hsplit rfl (by simp; omega)
  rw [packSensors_eq]
  refine ⟨h1, h2, ?_, h4 (by simp [fieldWords])⟩
  rw [h3, UInt8.zero_xor]

theorem packByte_spec (s : Packer) (b : UInt8) (before after : List UInt8) (o : UInt8)
    (hbuf : s.packetBuffer = before ++ o :: after) (hloc : s.bufferLocation = before.length)
    (hfus : 0 < s.fusion.length) :
    (s.packByte b).packetBuffer = before ++ b :: after ∧ (s.packByte b).bufferLocation = before.length + 1 ∧
      (s.packByte b).checksum = s.checksum ^^^ b ∧ (s.packByte b).fusion.length = s.fusion.length := by
  obtain ⟨f, fs, hf⟩ : ∃ f fs, s.fusion = f :: fs := by
    cases hs : s.fusion with
    | nil => simp [hs] at hfus
    | cons f fs => exact ⟨f, fs, rfl⟩
  have hp : s.packByte b = packBytes { s with fusion := s.fusion.set 0 b } [b] := by
    simp [Packer.packByte, Packer.pack, hf]
  have hspec := packBytes_spec { s with fusion := s.fusion.set 0 b } [b] before [o] after (by rw [hbuf]; simp) hloc
    (by simp)
  rw [hp, hspec]
  refine ⟨by simp, by simp, by simp, by simp⟩

theorem packTail_eq (s : Packer) (raven : UInt8) :
    s.packTail raven = (s.packByte raven).packByte (s.packByte raven).checksum := rfl

/-- **The buffer at the end of a pass**: a whole packet -/
theorem packTail_spec (s : Packer) (ws : List UInt32) (raven : UInt8) (o o' : UInt8)
    (hbuf : s.packetBuffer = tag ++ wordBytes ws ++ [o, o']) (hloc : s.bufferLocation = (tag ++ wordBytes ws).length)
    (hsum : s.checksum = xorAll (wordBytes ws)) (hfus : 0 < s.fusion.length) :
    (s.packTail raven).packetBuffer = encode ws raven ∧
      (s.packTail raven).bufferLocation = (tag ++ wordBytes ws).length + 2 ∧ (s.packTail raven).checksum = 0 := by
  obtain ⟨h1, h2, h3, h4⟩ := packByte_spec s raven (tag ++ wordBytes ws) [o'] o hbuf hloc hfus
  obtain ⟨h5, h6, h7, -⟩ := packByte_spec (s.packByte raven) (s.packByte raven).checksum
    (tag ++ wordBytes ws ++ [raven]) [] o' (by rw [h1]; simp) (by rw [h2]; simp only [List.length_append]; rfl)
    (by rw [h4]; exact hfus)
  refine ⟨?_, ?_, ?_⟩
  · rw [packTail_eq, h5, h3, hsum]
    simp [encode]
  · rw [packTail_eq, h6, List.length_append]
    rfl
  · rw [packTail_eq, h7, UInt8.xor_self]

/-- the packer when all sensor fields are in: bytes 68 and 69 are still the old ones -/
structure Filled (p : Packer) (ws : List UInt32) : Prop where
  count : ws.length = 16
  buffer : ∃ o o', p.packetBuffer = tag ++ wordBytes ws ++ [o, o']
  location : p.bufferLocation = 68
  sum : p.checksum = xorAll (wordBytes ws)
  union : 0 < p.fusion.length

theorem packSensors_filled (single : ℚ → UInt32) (s : Packer) (maxAcc : ℚ) (r : Readings)
    (hlen : s.packetBuffer.length = packetSize) (htag : s.packetBuffer.take 4 = tag) :
    Filled (packSensors single s maxAcc r).1 (fieldWords single maxAcc r) := by
  rcases packSensors_spec single s maxAcc r hlen htag with ⟨hbuf, hloc, hsum, hfus⟩
  have hold : (s.packetBuffer.drop 68).length = 2 := by rw [List.length_drop, hlen]; rfl
  rcases List.length_eq_two.1 hold with ⟨o, o', ho⟩
  rw [ho] at hbuf
  exact ⟨rfl, ⟨o, o', hbuf⟩, hloc, hsum, by rw [hfus]; decide⟩

theorem packTail_filled {p : Packer} {ws : List UInt32} (h : Filled p ws) (raven : UInt8) :
    (p.packTail raven).packetBuffer = encode ws raven := by
  rcases h.buffer with ⟨o, o', hbuf⟩
  have hloc : p.bufferLocation = (tag ++ wordBytes ws).length := by
    rw [h.location, List.length_append, wordBytes_length, h.count]
    rfl
  exact (packTail_spec p ws raven o o' hbuf hloc h.sum h.union).1

/-! ## Whole packets -/

theorem encode_length (ws : List UInt32) (raven : UInt8) (hws : ws.length = 16) : (encode ws raven).length = 70 := by
  simp [encode, tag, hws]

/-- byte 69 is the XOR of bytes 4..68 -/
def ChecksumOk (p : List UInt8) : Prop := p[69]? = some (xorAll ((p.drop 4).take 65))

instance (p : List UInt8) : Decidable (ChecksumOk p) := by unfold ChecksumOk; infer_instance

theorem encode_checksum (ws : List UInt32) (raven : UInt8) (hws : ws.length = 16) : ChecksumOk (encode ws raven) := by
  have hbody : ((encode ws raven).drop 4).take 65 = wordBytes ws ++ [raven] := by
    have h : encode ws raven = tag ++ ((wordBytes ws ++ [raven]) ++ [xorAll (wordBytes ws ++ [raven])]) := by
      simp [encode]
    rw [h, List.drop_left' (by rfl : tag.length = 4), List.take_left' (by simp [hws])]
  have hlast : encode ws raven = (tag ++ wordBytes ws ++ [raven]) ++ [xorAll (wordBytes ws ++ [raven])] := by
    simp [encode]
  rw [ChecksumOk, hbody, hlast, List.getElem?_append_right (by simp [tag, hws])]
  simp [tag, hws]

end NuStars.Avionics
