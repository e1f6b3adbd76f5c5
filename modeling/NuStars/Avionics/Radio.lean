/-
Torn packets: what `writeRadio` copies out of `packetBuffer` (avionics.ino).

`radioLock` keeps `loop()` from starting a pass during a transmission, but nothing keeps `writeRadio` from starting a
transmission during a pass. A pass has no switch point except the `delay(20)` of a sweep loop, which lies between the
sensor fields and the raven byte.

- `no_torn_packet`: if no transmission starts there, every copy is one whole packet;
- `torn_packet`: a B pin goes LOW, and the packet sent during the sweep has the new fields and the old checksum.
-/
import NuStars.Avionics.Flight

namespace NuStars.Avionics

open NuStars.Run

/-- `writeRadio` finds `radioLock` clear while `loop()` is suspended in a sweep loop -/
def CopiesInSweep (s : St) : Act → Prop
  | .writeRadio => s.radioAt = .enter ∧ s.radioLock = false ∧ sweeping s.loopAt = true
  | _ => False

/-- the bytes of `packetBuffer` at rest -/
def WholeIn (s : St) (p : List UInt8) : Prop := p = initialBuffer ∨ p ∈ s.packed

structure Whole (s : St) : Prop where
  atRest : sweeping s.loopAt = false → WholeIn s s.pk.packetBuffer
  sent : ∀ b ∈ s.sent, WholeIn s b

theorem finishPass_whole {s : St} (h : ∀ b ∈ s.sent, WholeIn s b) (raven : UInt8) : Whole (finishPass s raven) := by
  have hpacked : (finishPass s raven).packed = s.packed ++ [(finishPass s raven).pk.packetBuffer] := rfl
  refine ⟨fun _ => Or.inr ?_, ?_⟩
  · rw [hpacked]
    exact List.mem_append_right _ List.mem_cons_self
  · intro b hb
    rcases h b hb with hinit | hmem
    · exact Or.inl hinit
    · apply Or.inr
      rw [hpacked]
      exact List.mem_append_left _ hmem

theorem step_whole (single : ℚ → UInt32) (s : St) (a : Act) (h : Whole s) (ha : ¬ CopiesInSweep s a) :
    Whole (step single s a) := by
  have hm := step_moves single s a
  generalize step single s a = t at hm ⊢
  cases hm with
  | locked r htop hlock => exact ⟨fun _ => h.atRest (by rw [htop]; rfl), h.sent⟩
  | pass r htop hlock hbr => exact finishPass_whole (s := packFields single s r) h.sent _
  | sweepStart r htop hlock hbr => exact ⟨nofun, h.sent⟩
  | sweepSkip r htop hlock hbr => exact finishPass_whole (s := setDeployed (packFields single s r)) h.sent _
  | sweepOn r d i raven hat hcond => exact ⟨nofun, h.sent⟩
  | sweepEnd r d i raven hat hcond => exact finishPass_whole (s := setDeployed s) h.sent _
  | again r hat => exact ⟨fun _ => h.atRest (by rw [hat]; rfl), h.sent⟩
  | flashOn opened past f hno => exact ⟨h.atRest, h.sent⟩
  | flush opened past hat hsig => exact ⟨h.atRest, h.sent⟩
  | send hat hlock =>
    have hsw : sweeping s.loopAt = false := by
      by_cases hsw : sweeping s.loopAt = true
      · exact absurd ⟨hat, hlock, hsw⟩ ha
      · simpa using hsw
    refine ⟨h.atRest, ?_⟩
    intro b hb
    have hb : b ∈ s.sent ++ [s.pk.packetBuffer] := hb
    rw [List.mem_append, List.mem_singleton] at hb
    rcases hb with hb | rfl
    · exact h.sent b hb
    · exact h.atRest hsw
  | unlock b hat => exact ⟨h.atRest, h.sent⟩
  | radioOn p hno => exact ⟨h.atRest, h.sent⟩

/-- **No torn packet** is sent in a run in which no transmission starts during a sweep. -/
theorem no_torn_packet (single : ℚ → UInt32) (as : List Act)
    (h : Along (step single) (fun s a => ¬ CopiesInSweep s a) init as) (b : List UInt8)
    (hb : b ∈ (run (step single) init as).sent) :
    (b = initialBuffer ∨ b ∈ (run (step single) init as).packed) ∧ ChecksumOk b := by
  have hinit : Whole init := ⟨fun _ => Or.inl rfl, nofun⟩
  have hwhole : Whole (run (step single) init as) := run_inv_along (step_whole single) init as h hinit
  have hb := hwhole.sent b hb
  refine ⟨hb, ?_⟩
  rcases hb with rfl | hmem
  · decide +kernel
  · rcases (run_packets single as).packed b hmem with ⟨ws, raven, hws, rfl⟩
    exact encode_checksum ws raven hws

/-- one pass, then its packet is sent -/
def passThenSend : List Act := [.loop (padReadings 1 allHigh), .writeRadio]

def padPacket : List UInt8 := encode (fieldWords padSingle 0 (padReadings 1 allHigh)) 0

theorem no_torn_packet_pass :
    (padPacket = initialBuffer ∨ padPacket ∈ (run (step padSingle) init passThenSend).packed) ∧
      ChecksumOk padPacket := by
  refine no_torn_packet padSingle passThenSend ?_ padPacket (by decide +kernel)
  rw [passThenSend, along_cons, along_cons]
  refine ⟨nofun, ?_, along_nil _ _ _⟩
  intro h
  exact absurd h.2.2 (by decide +kernel)

/-- a B pin goes LOW in the first pass, and `writeRadio` comes on during the sweep -/
theorem torn_packet :
    ¬ ∀ b ∈ (run (step padSingle) init [.loop (padReadings 1 (onlyLow .R0B)), .writeRadio]).sent,
      (b = initialBuffer ∨ b ∈ (run (step padSingle) init [.loop (padReadings 1 (onlyLow .R0B)), .writeRadio]).packed) ∧
        ChecksumOk b := by
  decide +kernel

end NuStars.Avionics
