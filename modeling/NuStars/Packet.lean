/-
The packet format shared by the flight computer (avionics.ino) and the ground receiver (grounduino.ino): 70 bytes, the
tag "NUx ", 65 bytes of fields, and the XOR of those 65 bytes. Both programs define PACKET_SIZE as 70.

- `xorAll_set`: changing one byte of a list changes its XOR by the difference of the two bytes;
- `Packet.altered_invalid`: a packet whose checksum is right has a wrong one after any single byte behind the tag is
  changed. One of the 65 field bytes changes the XOR; the last byte changes what it is compared with.
-/
import Mathlib.Tactic

namespace NuStars

/-- `#define PACKET_SIZE 70` -/
def packetSize : ℕ := 70

/-- 'N', 'U', 'x', ' ' -/
def chN : UInt8 := 0x4E
def chU : UInt8 := 0x55
def chX : UInt8 := 0x78
def chSpace : UInt8 := 0x20

/-- `char *tag = "NUx "` -/
def tag : List UInt8 := [chN, chU, chX, chSpace]

/-- the three bytes of the tag by which it is recognised -/
def tagBytes : List UInt8 := [chN, chU, chX]

/-! ## The checksum -/

/-- the running `checksum ^= x`, started at 0 -/
def xorAll (l : List UInt8) : UInt8 := l.foldl (· ^^^ ·) 0

@[simp] theorem xorAll_nil : xorAll [] = 0 := rfl

theorem foldl_xor (c : UInt8) (l : List UInt8) : l.foldl (· ^^^ ·) c = c ^^^ xorAll l := by
  calc l.foldl (· ^^^ ·) c = l.foldl (· ^^^ ·) (c ^^^ 0) := by rw [UInt8.xor_zero]
    _ = c ^^^ xorAll l := List.foldl_assoc

@[simp] theorem xorAll_cons (b : UInt8) (l : List UInt8) : xorAll (b :: l) = b ^^^ xorAll l := by
  rw [xorAll, List.foldl_cons, foldl_xor, UInt8.zero_xor]

@[simp] theorem xorAll_append (l l' : List UInt8) : xorAll (l ++ l') = xorAll l ^^^ xorAll l' := by
  rw [xorAll, List.foldl_append, foldl_xor]
  rfl

theorem xorAll_set (l : List UInt8) (i : ℕ) (hi : i < l.length) (b : UInt8) :
    xorAll (l.set i b) = xorAll l ^^^ (l[i] ^^^ b) := by
  induction l generalizing i with
  | nil => simp at hi
  | cons c l ih =>
    cases i with
    | zero =>
      simp only [List.set_cons_zero, xorAll_cons, List.getElem_cons_zero]
      rw [UInt8.xor_comm b, UInt8.xor_comm c (xorAll l), UInt8.xor_assoc, ← UInt8.xor_assoc c c b, UInt8.xor_self,
        UInt8.zero_xor]
    | succ i =>
      simp only [List.set_cons_succ, xorAll_cons, List.getElem_cons_succ]
      rw [ih i (by simpa using hi), UInt8.xor_assoc]

/-! ## Packets -/

/-- a 70-byte packet that begins with "NUx"; its other 67 bytes are arbitrary -/
structure Packet where
  bytes : List UInt8
  size : bytes.length = packetSize
  tagged : bytes.take 3 = [chN, chU, chX]

/-- bytes 4..68 -/
def Packet.body (p : Packet) : List UInt8 := (p.bytes.drop 4).take 65

/-- byte 69 -/
def Packet.sum (p : Packet) : UInt8 := p.bytes.get ⟨69, by rw [p.size]; decide⟩

def Packet.Valid (p : Packet) : Prop := xorAll p.body = p.sum

instance (p : Packet) : Decidable p.Valid := by unfold Packet.Valid; infer_instance

/-- what the ground receiver writes for a packet -/
def Packet.frame (p : Packet) : List UInt8 := tag ++ p.body

/-- the packet with byte i behind the tag replaced -/
def Packet.alter (p : Packet) (i : ℕ) (hi : 4 ≤ i) (b : UInt8) : Packet where
  bytes := p.bytes.set i b
  size := by rw [List.length_set, p.size]
  tagged := by rw [List.take_set_of_le (by omega), p.tagged]

theorem Packet.body_length (p : Packet) : p.body.length = 65 := by
  have := p.size
  simp [Packet.body, packetSize] at this ⊢; omega

/-- a packet is its tag, one byte, its body and its checksum byte -/
theorem Packet.split (p : Packet) : ∃ y, p.bytes = chN :: chU :: chX :: y :: (p.body ++ [p.sum]) := by
  have hs : p.bytes.length = 70 := p.size
  have h3 : 3 < p.bytes.length := by omega
  refine ⟨p.bytes[3], ?_⟩
  have h4 : p.bytes.take 4 = [chN, chU, chX, p.bytes[3]] := by
    rw [List.take_succ_eq_append_getElem h3, p.tagged]
    rfl
  have h69 : (p.bytes.drop 4).drop 65 = [p.sum] := by
    rw [List.drop_drop, List.drop_eq_getElem_cons (by omega), List.drop_eq_nil_of_le (by omega)]
    rfl
  calc p.bytes = p.bytes.take 4 ++ p.bytes.drop 4 := (List.take_append_drop 4 _).symm
    _ = p.bytes.take 4 ++ (p.body ++ (p.bytes.drop 4).drop 65) := by
      rw [Packet.body, List.take_append_drop 65 (p.bytes.drop 4)]
    _ = _ := by rw [h4, h69]; rfl

/-- **One altered byte behind the tag spoils a valid packet.** -/
theorem Packet.altered_invalid (p : Packet) (hp : p.Valid) (i : ℕ) (hi : 4 ≤ i) (hi' : i < p.bytes.length) (b : UInt8)
    (hb : b ≠ p.bytes[i]) : ¬ (p.alter i hi b).Valid := by
  have hs : p.bytes.length = 70 := p.size
  unfold Packet.Valid at hp ⊢
  rcases Nat.lt_or_ge i 69 with hlt | hge
  · have hbody : (p.alter i hi b).body = p.body.set (i - 4) b := by
      simp only [Packet.body, Packet.alter, List.drop_set]
      rw [if_neg (by omega), ← List.take_set]
    have hsum : (p.alter i hi b).sum = p.sum := by
      simp only [Packet.sum, Packet.alter, List.get_eq_getElem]
      rw [List.getElem_set_ne (by omega)]
    have hj : i - 4 < p.body.length := by rw [p.body_length]; omega
    have hget : p.body[i - 4] = p.bytes[i] := by
      simp only [Packet.body, List.getElem_take, List.getElem_drop]
      congr 1; omega
    rw [hbody, hsum, xorAll_set _ _ hj, hget, hp]
    intro h
    have h0 : p.sum ^^^ (p.bytes[i] ^^^ b) = p.sum ^^^ 0 := by rw [h, UInt8.xor_zero]
    exact hb (UInt8.xor_eq_zero_iff.1 ((UInt8.xor_right_inj _).1 h0)).symm
  · obtain rfl : i = 69 := by omega
    have hbody : (p.alter 69 hi b).body = p.body := by
      simp only [Packet.body, Packet.alter, List.drop_set]
      rw [if_neg (by omega), List.take_set_of_le (by omega)]
    have hsum : (p.alter 69 hi b).sum = b := by simp [Packet.sum, Packet.alter]
    rw [hbody, hsum, hp]
    exact fun h => hb h.symm

end NuStars
