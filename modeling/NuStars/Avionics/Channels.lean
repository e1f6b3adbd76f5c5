/-
The three ADXL channels in the packet, and which pin each of them carries (sensors.cpp, avionics.ino).

`switch (axis)` in `ADXL::getAcceleration` has no `break`: the reads of the X and the Y pin are overwritten by the read
of the Z pin that follows them in the same call. A pass makes four calls, eight analog reads: X pin, Y pin, Z pin; Y
pin, Z pin; Z pin; and, for `maxAcc`, Y pin, Z pin.

Two passes start in one state and read the same everywhere but on the pin of axis a (`AgreeBut`). What one wants is
`Isolated a`: the packets differ at most in a's own field, in the checksum byte and, for the Y pin, in `maxAcc`; and a's
field is the scaled reading of its pin.

- `packets_differ`: two packets, byte by byte, in terms of their words;
- `isolated_iff`: when a channel is isolated;
- `leak_z`: the Z pin shows in the X field.
-/
import NuStars.Avionics.Pass
import NuStars.Core.Blocks

namespace NuStars.Avionics

open NuStars.Blocks NuStars.LittleEndian NuStars.Run

/-! ## Bytes and words -/

theorem leBytes_word {v w : UInt32} (h : leBytes 4 v.toNat = leBytes 4 w.toNat) : v = w := by
  have hv := leNat_leBytes 4 v.toNat (by simpa using v.toNat_lt)
  rw [h, leNat_leBytes 4 w.toNat (by simpa using w.toNat_lt)] at hv
  exact (UInt32.toNat_inj.1 hv).symm

theorem wordBytes_get (ws : List UInt32) (j b : ℕ) (hb : b < 4) :
    (wordBytes ws)[4 * j + b]? = ws[j]?.bind fun w => (leBytes 4 w.toNat)[b]? := by
  have hblocks : ∀ bs ∈ ws.map fun w => leBytes 4 w.toNat, bs.length = 4 := by
    intro bs hbs
    obtain ⟨w, -, rfl⟩ := List.mem_map.1 hbs
    exact length_leBytes 4 _
  rw [wordBytes, List.flatMap_def, get_blocks hblocks j b hb, List.getElem?_map, Option.bind_map]
  rfl

/-- byte b of word j of a packet -/
theorem encode_get (ws : List UInt32) (raven : UInt8) (hws : ws.length = 16) (j b : ℕ) (hj : j < 16) (hb : b < 4) :
    (encode ws raven)[4 + (4 * j + b)]? = ws[j]?.bind fun w => (leBytes 4 w.toNat)[b]? := by
  have hlen : (tag ++ wordBytes ws).length = 68 := by simp [tag, hws]
  rw [encode, List.getElem?_append_left (by omega), List.getElem?_append_right (by simp [tag]),
    ← wordBytes_get ws j b hb]
  simp [tag]

/-- the word at offset 4 + 4 j of a packet -/
theorem encode_word (ws : List UInt32) (raven : UInt8) (hws : ws.length = 16) (j : ℕ) (hj : j < ws.length) :
    ((encode ws raven).drop (4 + 4 * j)).take 4 = leBytes 4 ws[j].toNat := by
  apply List.ext_getElem?
  intro b
  rcases Nat.lt_or_ge b 4 with hb | hb
  · rw [List.getElem?_take_of_lt hb, List.getElem?_drop, Nat.add_assoc, encode_get ws raven hws j b (by omega) hb,
      List.getElem?_eq_getElem hj]
    rfl
  · rw [List.getElem?_eq_none (by simp; omega), List.getElem?_eq_none (by simp; omega)]

/-- byte i of a packet lies in the word j -/
def InWord (j i : ℕ) : Prop := 4 + 4 * j ≤ i ∧ i < 8 + 4 * j

/-- outside the words and the checksum byte packets with one raven byte agree -/
theorem encode_outside (ws ws' : List UInt32) (raven : UInt8) (hws : ws.length = 16) (hws' : ws'.length = 16) {i : ℕ}
    (hi : i < 4 ∨ 68 ≤ i) (h69 : i ≠ 69) : (encode ws raven)[i]? = (encode ws' raven)[i]? := by
  have hraven : ∀ vs : List UInt32, vs.length = 16 → (encode vs raven)[68]? = some raven := by
    intro vs hvs
    rw [encode, List.getElem?_append_right (by simp [tag, hvs])]
    simp [tag, hvs]
  rcases hi with hlt | hge
  · rw [← List.getElem?_take_of_lt hlt, encode_take, ← encode_take ws' raven, List.getElem?_take_of_lt hlt]
  · rcases Nat.lt_or_ge i 70 with hlt | hge'
    · obtain rfl : i = 68 := by omega
      rw [hraven ws hws, hraven ws' hws']
    · rw [List.getElem?_eq_none (by rw [encode_length ws raven hws]; exact hge'),
        List.getElem?_eq_none (by rw [encode_length ws' raven hws']; exact hge')]

/-- packets whose bytes of word j agree carry the same word there -/
theorem encode_word_inj (ws ws' : List UInt32) (raven : UInt8) (hws : ws.length = 16) (hws' : ws'.length = 16) {j : ℕ}
    (hj : j < 16) (h : ∀ b < 4, (encode ws raven)[4 + (4 * j + b)]? = (encode ws' raven)[4 + (4 * j + b)]?) :
    ws[j]? = ws'[j]? := by
  have hbytes : leBytes 4 ws[j].toNat = leBytes 4 ws'[j].toNat := by
    apply List.ext_getElem?
    intro b
    rcases Nat.lt_or_ge b 4 with hb | hb
    · have hbyte := h b hb
      rwa [encode_get ws raven hws j b hj hb, encode_get ws' raven hws' j b hj hb, List.getElem?_eq_getElem (by omega),
        List.getElem?_eq_getElem (by omega)] at hbyte
    · rw [List.getElem?_eq_none (by simpa using hb), List.getElem?_eq_none (by simpa using hb)]
  rw [List.getElem?_eq_getElem (by omega), List.getElem?_eq_getElem (by omega), leBytes_word hbytes]

/-- **Where two packets differ.** With the same raven byte, two packets differ at most in the words listed in J and in
the checksum byte exactly when all their other words agree. -/
theorem packets_differ (J : List ℕ) (ws ws' : List UInt32) (raven : UInt8) (hws : ws.length = 16)
    (hws' : ws'.length = 16) :
    (∀ i, (encode ws raven)[i]? ≠ (encode ws' raven)[i]? → i = 69 ∨ ∃ j ∈ J, InWord j i) ↔
      ∀ j, j ∉ J → ws[j]? = ws'[j]? := by
  refine ⟨?_, ?_⟩
  · intro h j hj
    rcases Nat.lt_or_ge j 16 with hlt | hge
    · apply encode_word_inj ws ws' raven hws hws' hlt
      intro b hb
      by_contra hne
      rcases h _ hne with hi | ⟨j', hj', hlo, hhi⟩
      · omega
      · obtain rfl : j' = j := by omega
        exact hj hj'
    · rw [List.getElem?_eq_none (by omega), List.getElem?_eq_none (by omega)]
  · intro h i hne
    by_cases h69 : i = 69
    · exact Or.inl h69
    · by_cases hout : i < 4 ∨ 68 ≤ i
      · exact absurd (encode_outside ws ws' raven hws hws' hout h69) hne
      · by_cases hj : (i - 4) / 4 ∈ J
        · exact Or.inr ⟨_, hj, by omega, by omega⟩
        · refine absurd ?_ hne
          have hsplit : i = 4 + (4 * ((i - 4) / 4) + (i - 4) % 4) := by omega
          rw [hsplit, encode_get ws raven hws _ _ (by omega) (by omega),
            encode_get ws' raven hws' _ _ (by omega) (by omega), h _ hj]

/-! ## The readings of a pass -/

/-- `(float)(rawData) * 400.0 / 1023.0 - 200` -/
def scaled (raw : ℕ) : ℚ := (raw : ℚ) * 400 / 1023 - 200

/-- the update of `maxAcc` -/
def newMax (maxAcc yAcc : ℚ) : ℚ := if |yAcc| > |maxAcc| then |yAcc| else maxAcc

def ADXL.pin (a : ADXL) : Axis → AnalogPin
  | .x => a.xPin
  | .y => a.yPin
  | .z => a.zPin

/-- the number of the read, within a pass, that `case` a makes of its own pin -/
def ownRead : Axis → ℕ
  | .x => 0
  | .y => 3
  | .z => 5

/-- the number of the read whose value the field of a carries: the last read of its call -/
def lastRead : Axis → ℕ
  | .x => 2
  | .y => 4
  | .z => 5

/-- **What a pass packs** for the ADXL: three readings of the Z pin, and the maximum with a fourth -/
theorem fieldWords_eq (single : ℚ → UInt32) (maxAcc : ℚ) (r : Readings) :
    fieldWords single maxAcc r =
      [r.millis, r.imuAcceleration .x, r.imuAcceleration .y, r.imuAcceleration .z, r.imuOrientation .x,
        r.imuOrientation .y, r.imuOrientation .z, single (scaled (r.analogRead 2 .A3)),
        single (scaled (r.analogRead 4 .A3)), single (scaled (r.analogRead 5 .A3)), r.pressure, r.temp, r.latitude,
        r.longitude, r.altitude, single (newMax maxAcc (scaled (r.analogRead 7 .A3)))] := rfl

/-- the two passes read the same, but for what they read on the pin p -/
structure AgreeBut (p : AnalogPin) (r r' : Readings) : Prop where
  others : r' = { r with analogRead := r'.analogRead }
  pins : ∀ k q, q ≠ p → r'.analogRead k q = r.analogRead k q

theorem AgreeBut.ravenByte_eq {p : AnalogPin} {r r' : Readings} (h : AgreeBut p r r') : ravenByte r' = ravenByte r := by
  rw [h.others]
  rfl

/-! ## Isolation -/

/-- the number of a's own word in the packet -/
def ownWord : Axis → ℕ
  | .x => 7
  | .y => 8
  | .z => 9

/-- the words that may depend on the pin of a: its own field and, for the Y pin, `maxAcc` -/
def mayDiffer (a : Axis) : List ℕ := if a = .y then [ownWord a, 15] else [ownWord a]

/-- the field of a in the packet is the scaled reading of a's own pin -/
def CarriesOwn (single : ℚ → UInt32) (a : Axis) (r : Readings) (packet : List UInt8) : Prop :=
  (packet.drop (4 + 4 * ownWord a)).take 4 = leBytes 4 (single (scaled (r.analogRead (ownRead a) (adxl.pin a)))).toNat

structure Isolated (single : ℚ → UInt32) (a : Axis) (r r' : Readings) (packet packet' : List UInt8) : Prop where
  differ : ∀ i, packet[i]? ≠ packet'[i]? → i = 69 ∨ ∃ j ∈ mayDiffer a, InWord j i
  own : CarriesOwn single a r packet
  own' : CarriesOwn single a r' packet'

/-- in the call for a, the Z pin reads what the pin of a reads -/
def SameAsZ (single : ℚ → UInt32) (a : Axis) (r : Readings) : Prop :=
  single (scaled (r.analogRead (lastRead a) adxl.zPin)) = single (scaled (r.analogRead (ownRead a) (adxl.pin a)))

/-- on the other three occasions of a pass, the Z pin reads the same in both passes, as far as it shows -/
def SameZ (single : ℚ → UInt32) (maxAcc : ℚ) (r r' : Readings) : Prop :=
  single (scaled (r.analogRead 2 adxl.zPin)) = single (scaled (r'.analogRead 2 adxl.zPin)) ∧
    single (scaled (r.analogRead 4 adxl.zPin)) = single (scaled (r'.analogRead 4 adxl.zPin)) ∧
      single (newMax maxAcc (scaled (r.analogRead 7 adxl.zPin))) =
        single (newMax maxAcc (scaled (r'.analogRead 7 adxl.zPin)))

def Unmixed (single : ℚ → UInt32) (maxAcc : ℚ) (r r' : Readings) : Axis → Prop
  | .z => SameZ single maxAcc r r'
  | a => SameAsZ single a r ∧ SameAsZ single a r'

theorem ownWord_lt (a : Axis) : ownWord a < 16 := by cases a <;> decide

theorem fieldWords_own (single : ℚ → UInt32) (maxAcc : ℚ) (r : Readings) (a : Axis)
    (h : ownWord a < (fieldWords single maxAcc r).length) :
    (fieldWords single maxAcc r)[ownWord a] = single (scaled (r.analogRead (lastRead a) adxl.zPin)) := by
  cases a <;> rfl

theorem carriesOwn_iff (single : ℚ → UInt32) (maxAcc : ℚ) (a : Axis) (r : Readings) (raven : UInt8) :
    CarriesOwn single a r (encode (fieldWords single maxAcc r) raven) ↔ SameAsZ single a r := by
  have hj : ownWord a < (fieldWords single maxAcc r).length := ownWord_lt a
  rw [CarriesOwn, encode_word _ raven (fieldWords_length single maxAcc r) _ hj, fieldWords_own, SameAsZ]
  refine ⟨leBytes_word, ?_⟩
  intro h
  rw [h]

/-- the words that the Z pin does not enter agree -/
theorem words_agree {p : AnalogPin} {r r' : Readings} (h : AgreeBut p r r') (single : ℚ → UInt32) (maxAcc : ℚ) {j : ℕ}
    (hj : j ∉ [7, 8, 9, 15]) : (fieldWords single maxAcc r)[j]? = (fieldWords single maxAcc r')[j]? := by
  rw [h.others]
  rcases Nat.lt_or_ge j 16 with hlt | hge
  · interval_cases j <;> first | rfl | simp at hj
  · rw [List.getElem?_eq_none (by simpa using hge), List.getElem?_eq_none (by simpa using hge)]

/-- of two passes that agree but on the X or the Y pin the packets are the same -/
theorem fieldWords_same {a : Axis} {r r' : Readings} (h : AgreeBut (adxl.pin a) r r') (ha : a ≠ .z)
    (single : ℚ → UInt32) (maxAcc : ℚ) : fieldWords single maxAcc r' = fieldWords single maxAcc r := by
  have hz : ∀ k, r'.analogRead k .A3 = r.analogRead k .A3 := by
    intro k
    apply h.pins
    cases a with
    | x => decide
    | y => decide
    | z => exact absurd rfl ha
  rw [fieldWords_eq single maxAcc r', hz, hz, hz, hz, h.others]
  rfl

theorem isolated_z {r r' : Readings} (h : AgreeBut (adxl.pin .z) r r') (single : ℚ → UInt32) (maxAcc : ℚ) :
    (∀ j, j ∉ mayDiffer .z → (fieldWords single maxAcc r)[j]? = (fieldWords single maxAcc r')[j]?) ↔
      SameZ single maxAcc r r' := by
  refine ⟨?_, ?_⟩
  · intro hall
    have h7 := hall 7 (by decide)
    have h8 := hall 8 (by decide)
    have h15 := hall 15 (by decide)
    exact ⟨Option.some.inj h7, Option.some.inj h8, Option.some.inj h15⟩
  · rintro ⟨h7, h8, h15⟩ j hj
    by_cases hother : j ∈ [7, 8, 9, 15]
    · simp only [List.mem_cons, List.not_mem_nil, or_false] at hother
      rcases hother with rfl | rfl | rfl | rfl
      · exact congrArg some h7
      · exact congrArg some h8
      · exact absurd (by decide) hj
      · exact congrArg some h15
    · exact words_agree h single maxAcc hother

/-- **When a channel is isolated.** Two unlocked iterations start in one state of a run; what they read agrees but on
the pin of the axis a. The channel of a is isolated in their packets exactly when
- for the X and the Y pin: in both passes the Z pin, read last in the call for a, gives the float the own pin gives;
- for the Z pin: what the Z pin reads in the calls for X, Y and `maxAcc` gives the same floats in both passes. -/
theorem isolated_iff (single : ℚ → UInt32) (as : List Act) (a : Axis) (r r' : Readings) (rest rest' : List Act)
    (hit : Iteration single (run (step single) init as) r rest)
    (hit' : Iteration single (run (step single) init as) r' rest')
    (hlock : (run (step single) init as).radioLock = false) (hagree : AgreeBut (adxl.pin a) r r') :
    Isolated single a r r' (run (step single) init (as ++ .loop r :: rest)).pk.packetBuffer
        (run (step single) init (as ++ .loop r' :: rest')).pk.packetBuffer ↔
      Unmixed single (run (step single) init as).maxAcc r r' a := by
  have hp : Packets (run (step single) init as) := run_packets single as
  rw [run_append, run_append]
  generalize run (step single) init as = s at hit hit' hlock hp ⊢
  have hpacket : (run (step single) s (.loop r :: rest)).pk.packetBuffer =
      encode (fieldWords single s.maxAcc r) (ravenByte r) := by
    rw [(iteration_packs single hit hlock).1, (packPass_packet single s.maxAcc r hp.size hp.head).1]
  have hpacket' : (run (step single) s (.loop r' :: rest')).pk.packetBuffer =
      encode (fieldWords single s.maxAcc r') (ravenByte r) := by
    rw [(iteration_packs single hit' hlock).1, (packPass_packet single s.maxAcc r' hp.size hp.head).1,
      hagree.ravenByte_eq]
  rw [hpacket, hpacket']
  have hdiffer := packets_differ (mayDiffer a) (fieldWords single s.maxAcc r) (fieldWords single s.maxAcc r')
    (ravenByte r) (fieldWords_length _ _ _) (fieldWords_length _ _ _)
  have hown := carriesOwn_iff single s.maxAcc a r (ravenByte r)
  have hown' := carriesOwn_iff single s.maxAcc a r' (ravenByte r)
  have hiso : Isolated single a r r' (encode (fieldWords single s.maxAcc r) (ravenByte r))
      (encode (fieldWords single s.maxAcc r') (ravenByte r)) ↔
      (∀ j, j ∉ mayDiffer a → (fieldWords single s.maxAcc r)[j]? = (fieldWords single s.maxAcc r')[j]?) ∧
        SameAsZ single a r ∧ SameAsZ single a r' := by
    rw [← hdiffer, ← hown, ← hown']
    exact ⟨fun h => ⟨h.differ, h.own, h.own'⟩, fun h => ⟨h.1, h.2.1, h.2.2⟩⟩
  rw [hiso]
  by_cases ha : a = .z
  · subst ha
    rw [isolated_z hagree single s.maxAcc]
    exact ⟨fun h => h.1, fun h => ⟨h, rfl, rfl⟩⟩
  · have hsame := fieldWords_same hagree ha single s.maxAcc
    have hunmixed : Unmixed single s.maxAcc r r' a ↔ SameAsZ single a r ∧ SameAsZ single a r' := by
      cases a with
      | x => exact Iff.rfl
      | y => exact Iff.rfl
      | z => exact absurd rfl ha
    rw [hunmixed]
    refine ⟨fun h => h.2, ?_⟩
    intro h
    exact ⟨fun j _ => by rw [hsame], h⟩

/-- readings on the pad, with the Z pin at its lower or its upper end -/
def zReadings (raw : ℕ) : Readings :=
  { padReadings 1 allHigh with analogRead := fun _ p => if p = .A3 then raw else 0 }

/-- the Z pin goes to its upper end for the one read that `case Z_AXIS` makes in its own call -/
def zOwnReadings : Readings :=
  { padReadings 1 allHigh with analogRead := fun k p => if p = .A3 ∧ k = ownRead .z then 1023 else 0 }

theorem zReadings_agree (raw raw' : ℕ) : AgreeBut (adxl.pin .z) (zReadings raw) (zReadings raw') := by
  refine ⟨rfl, ?_⟩
  intro k q hq
  have hq' : q ≠ .A3 := hq
  simp [zReadings, hq']

theorem zOwnReadings_agree : AgreeBut (adxl.pin .z) (zReadings 0) zOwnReadings := by
  refine ⟨rfl, ?_⟩
  intro k q hq
  have hq' : q ≠ .A3 := hq
  simp [zReadings, zOwnReadings, hq']

theorem zReadings_iteration (raw : ℕ) (hraw : raw = 0 ∨ raw = 1023) :
    Iteration padSingle (run (step padSingle) init []) (zReadings raw) [.loop (zReadings raw)] := by
  rcases hraw with rfl | rfl
  · refine ⟨rfl, ?_, by decide +kernel⟩
    rw [along_cons]
    exact ⟨by decide +kernel, along_nil _ _ _⟩
  · refine ⟨rfl, ?_, by decide +kernel⟩
    rw [along_cons]
    exact ⟨by decide +kernel, along_nil _ _ _⟩

theorem zOwnReadings_iteration :
    Iteration padSingle (run (step padSingle) init []) zOwnReadings [.loop zOwnReadings] := by
  refine ⟨rfl, ?_, by decide +kernel⟩
  rw [along_cons]
  exact ⟨by decide +kernel, along_nil _ _ _⟩

/-- Against a first pass with the Z pin at 0: with the Z pin at 1023 throughout the channel is not isolated, and with
the Z pin at 1023 in its own read alone it is. -/
theorem isolated_iff_pins :
    (¬ Isolated padSingle .z (zReadings 0) (zReadings 1023)
        (run (step padSingle) init [.loop (zReadings 0), .loop (zReadings 0)]).pk.packetBuffer
        (run (step padSingle) init [.loop (zReadings 1023), .loop (zReadings 1023)]).pk.packetBuffer) ∧
      Isolated padSingle .z (zReadings 0) zOwnReadings
        (run (step padSingle) init [.loop (zReadings 0), .loop (zReadings 0)]).pk.packetBuffer
        (run (step padSingle) init [.loop zOwnReadings, .loop zOwnReadings]).pk.packetBuffer := by
  have hzero := zReadings_iteration 0 (Or.inl rfl)
  refine ⟨?_, ?_⟩
  · intro hiso
    have hunmixed := (isolated_iff padSingle [] .z _ _ _ _ hzero (zReadings_iteration 1023 (Or.inr rfl)) rfl
      (zReadings_agree 0 1023)).1 hiso
    exact absurd hunmixed.1 (by decide +kernel)
  · exact (isolated_iff padSingle [] .z _ _ _ _ hzero zOwnReadings_iteration rfl zOwnReadings_agree).2 ⟨rfl, rfl, rfl⟩

/-- **The Z pin leaks into the X field**: it reads 0 in one first pass and 1023 in the other, and byte 35 differs. -/
theorem leak_z :
    ¬ ∀ (single : ℚ → UInt32) (as : List Act) (a : Axis) (r r' : Readings) (rest rest' : List Act),
      Iteration single (run (step single) init as) r rest → Iteration single (run (step single) init as) r' rest' →
      (run (step single) init as).radioLock = false → AgreeBut (adxl.pin a) r r' →
      Isolated single a r r' (run (step single) init (as ++ .loop r :: rest)).pk.packetBuffer
        (run (step single) init (as ++ .loop r' :: rest')).pk.packetBuffer := by
  intro h
  have hiso := h padSingle [] .z (zReadings 0) (zReadings 1023) _ _ (zReadings_iteration 0 (Or.inl rfl))
    (zReadings_iteration 1023 (Or.inr rfl)) rfl (zReadings_agree 0 1023)
  have hne : (run (step padSingle) init ([] ++ [.loop (zReadings 0), .loop (zReadings 0)])).pk.packetBuffer[35]? ≠
      (run (step padSingle) init ([] ++ [.loop (zReadings 1023), .loop (zReadings 1023)])).pk.packetBuffer[35]? := by
    decide +kernel
  rcases hiso.differ 35 hne with h69 | ⟨j, hj, hlo, hhi⟩
  · cases h69
  · have hj9 : j = 9 := by simpa [mayDiffer, ownWord] using hj
    omega

end NuStars.Avionics
