/-
What parse.m makes of the log of the ground station, in terms of the passes of the flight computer.

A copy whose checksum is right reads as a whole packet: the fields of the last pass started, and the raven byte of that
pass, or of the pass before if the copy was taken in the sweep. `Copy.entry` is the entry decoded from it, with the last
single read as a uint32.

- `decode_valid`: what a copy with a right checksum decodes to;
- `telemetry_entries`: the entries of the log on Serial, in every reachable state of the whole system.
-/
import NuStars.Parser.Records
import NuStars.Telemetry.Link

namespace NuStars.Telemetry

open NuStars.Avionics NuStars.Parser NuStars.Run

/-! ## Copies -/

/-- the words of the last pass -/
def lastWords (single : ℚ → UInt32) (ps : List Pass) : List UInt32 :=
  (ps.getLast?.map fun p => fieldWords single p.maxAcc p.readings).getD (List.replicate 16 0)

/-- the raven byte of the last pass -/
def lastRavenByte (ps : List Pass) : UInt8 := (ps.getLast?.map fun p => ravenByte p.readings).getD 0

/-- byte 68 of a copy -/
def ravenOf (ps : List Pass) (c : Copy) : UInt8 :=
  if c.inSweep then lastRavenByte (ps.take c.count).dropLast else lastRavenByte (ps.take c.count)

theorem lastPacket_encode (single : ℚ → UInt32) (ps : List Pass) :
    lastPacket single ps = encode (lastWords single ps) (lastRavenByte ps) := by
  rcases List.eq_nil_or_concat ps with rfl | ⟨ps, p, rfl⟩
  · show initialBuffer = encode (List.replicate 16 0) 0
    decide +kernel
  · rw [List.concat_eq_append, lastPacket_snoc]
    simp [lastWords, lastRavenByte, Pass.packet]

theorem lastWords_length (single : ℚ → UInt32) (ps : List Pass) : (lastWords single ps).length = 16 := by
  rcases List.eq_nil_or_concat ps with rfl | ⟨ps, p, rfl⟩
  · rfl
  · rw [List.concat_eq_append]
    simp [lastWords]

theorem lastFields_words (single : ℚ → UInt32) (ps : List Pass) :
    lastFields single ps = wordBytes (lastWords single ps) := by
  rcases List.eq_nil_or_concat ps with rfl | ⟨ps, p, rfl⟩
  · show List.replicate 64 0 = wordBytes (List.replicate 16 0)
    decide +kernel
  · rw [List.concat_eq_append, lastFields_snoc]
    simp [lastWords, Pass.fields]

theorem halfPacked_encode {single : ℚ → UInt32} {ps : List Pass}
    (h : xorAll (lastFields single ps) = xorAll (lastFields single ps.dropLast)) :
    halfPacked single ps = encode (lastWords single ps) (lastRavenByte ps.dropLast) := by
  rcases List.eq_nil_or_concat ps with rfl | ⟨ps, p, rfl⟩
  · exact lastPacket_encode single []
  · have hlen : (tag ++ wordBytes (lastWords single ps)).length = 68 := by
      rw [List.length_append, wordBytes_length, lastWords_length]
      rfl
    rw [List.concat_eq_append] at h ⊢
    rw [List.dropLast_concat, lastFields_words, lastFields_words] at h
    rw [List.dropLast_concat, halfPacked_snoc, lastPacket_encode, encode, List.drop_left' hlen, encode, xorAll_append,
      xorAll_append, h]
    simp [lastWords, Pass.fields]

/-- a copy with a right checksum -/
theorem valid_encode {single : ℚ → UInt32} {ps : List Pass} {c : Copy} (h : (c.packet single ps).Valid) :
    c.bytes single ps = encode (lastWords single (ps.take c.count)) (ravenOf ps c) := by
  have hsum := (c.valid single ps).1 h
  unfold Copy.bytes ravenOf
  split_ifs with hsw
  · exact halfPacked_encode (hsum hsw)
  · exact lastPacket_encode single _

/-! ## Entries -/

/-- the entry of the buffer `setup` leaves -/
def initialEntry : Entry :=
  ⟨[chN, chU, chX], .uint32 0, .single 0, .single 0, .single 0, .single 0, .single 0, .single 0, .single 0, .single 0,
    .single 0, .single 0, .single 0, .single 0, .single 0, .single 0, .uint32 0, 0⟩

/-- what a copy decodes to -/
def entryOf (single : ℚ → UInt32) (ps : List Pass) (c : Copy) : Entry :=
  match (ps.take c.count).getLast? with
  | none => initialEntry
  | some p => misread (packedEntry single p.maxAcc p.readings (ravenOf ps c))

theorem decode_valid {single : ℚ → UInt32} {ps : List Pass} {c : Copy} (h : (c.packet single ps).Valid) :
    decode (c.bytes single ps) 1 = some (entryOf single ps c) := by
  rw [valid_encode h, entryOf, lastWords]
  rcases List.eq_nil_or_concat (ps.take c.count) with hps | ⟨qs, p, hps⟩
  · have hraven : ravenOf ps c = 0 := by simp [ravenOf, lastRavenByte, hps]
    rw [hraven, hps]
    show decode (encode (List.replicate 16 0) 0) 1 = some initialEntry
    decide +kernel
  · rw [hps, List.concat_eq_append, List.getLast?_concat, ← List.append_nil (encode _ _)]
    exact decode_words single p.maxAcc p.readings _ []

/-- the frame of a packet decodes as the packet: the checksum byte is not read -/
theorem decode_frame_body (p : Packet) (hhead : p.bytes.take 4 = tag) :
    decode (Ground.frame p.body) 1 = decode p.bytes 1 := by
  have hsize : p.bytes.length = 70 := p.size
  have htake : p.bytes.take 69 = Ground.frame p.body := by
    have hsplit : p.bytes = p.bytes.take 4 ++ p.bytes.drop 4 := (List.take_append_drop 4 _).symm
    rw [Ground.frame, Packet.body, ← hhead, hsplit, List.take_append, List.length_take]
    simp [hsize]
  have hwindow : decode p.bytes 1 = decode ((p.bytes.drop (1 - 1)).take 69) 1 := decode_window le_rfl (by omega)
  rw [hwindow, Nat.sub_self, List.drop_zero, htake]

/-- **What parse.m makes of the telemetry.** In every reachable state of the whole system, the log on Serial holds the
copies with a right checksum up to the last but one message, in the order of their passes. If there is something on
Serial and none of these copies has the tag in its body, the script returns one entry for each of them but the last:
what the last pass started by then packed, with its last single read as a uint32, and with the raven byte of the pass
before when the copy was taken in a sweep. -/
theorem telemetry_entries (single : ℚ → UInt32) (mem : UInt8 → UInt8) (buf : List UInt8) (as : List Act) (s : Link)
    (h : Trace (Step single) (start mem buf) as s) (hsome : s.station.ground.serial ≠ []) :
    ∃ fs, s.flight = run (Avionics.step single) Avionics.init fs ∧
      let ps := startedPasses single Avionics.init fs
      ∃ cs : List Copy, cs.Sublist (copies single Avionics.init fs) ∧ s.station.pushed = cs.map (Copy.bytes single ps) ∧
        let logged := cs.dropLast.filter fun c => (c.packet single ps).Valid
        logged.Pairwise (fun b c => b.count ≤ c.count) ∧
          s.station.ground.serial = (logged.map fun c => (c.packet single ps).frame).flatten ∧
          ((∀ c ∈ logged, ¬ tagBytes <:+: (c.packet single ps).body) →
            parse s.station.ground.serial = some (logged.dropLast.map (entryOf single ps))) := by
  obtain ⟨fs, cs, hlog⟩ := (run_linked h).logged
  refine ⟨fs, hlog.flight, ?_⟩
  intro ps
  refine ⟨cs, hlog.sub, hlog.pushed, ?_⟩
  intro logged
  have hserial : s.station.ground.serial = (logged.map fun c => (c.packet single ps).frame).flatten := by
    rw [hlog.serial, List.filter_map, List.map_map]
    rfl
  have hne : logged ≠ [] := by
    intro hnil
    rw [hserial, hnil] at hsome
    exact hsome rfl
  refine ⟨?_, hserial, ?_⟩
  · have horder := (run_copied single fs).order
    exact horder.sublist (List.filter_sublist.trans ((List.dropLast_sublist cs).trans hlog.sub))
  · intro hno
    have hframes : logged.map (fun c => (c.packet single ps).frame) =
        (logged.map fun c => (c.packet single ps).body).map Ground.frame := by
      rw [List.map_map]
      rfl
    rw [hserial, hframes]
    apply parse_entries hne
    · intro c _
      exact (c.packet single ps).body_length.ge
    · exact hno
    · intro c hc
      have hvalid : (c.packet single ps).Valid := of_decide_eq_true (List.mem_filter.1 hc).2
      rw [decode_frame_body (c.packet single ps) (c.bytes_head single ps)]
      exact decode_valid hvalid

/-- four packets on the pad, the second lost: two frames on Serial, and one entry -/
theorem telemetry_entries_pad :
    ∃ (s : Link) (ps : List Pass) (logged : List Copy),
      Trace (Step padSingle) (start (fun _ => 0) []) fourSent s ∧ logged.length = 2 ∧
        s.station.ground.serial = (logged.map fun c => (c.packet padSingle ps).frame).flatten ∧
        parse s.station.ground.serial = some (logged.dropLast.map (entryOf padSingle ps)) := by
  obtain ⟨s, hs, -, -, hlen, hclean⟩ := fourSent_trace
  have hsome : s.station.ground.serial ≠ [] := List.ne_nil_of_length_pos (by rw [hlen]; decide)
  obtain ⟨fs, -, cs, -, hpushed, -, hserial, hparse⟩ :=
    telemetry_entries padSingle (fun _ => 0) [] fourSent s hs hsome
  refine ⟨s, _, _, hs, ?_, hserial, hparse ?_⟩
  · rw [hserial, Blocks.length_blocks (n := 69), List.length_map] at hlen
    · omega
    · intro f hf
      obtain ⟨c, -, rfl⟩ := List.mem_map.1 hf
      rw [Packet.frame, List.length_append, Packet.body_length]
      rfl
  · intro c hc hin
    have hmem : c ∈ cs := List.dropLast_subset cs (List.mem_filter.1 hc).1
    apply hclean (c.bytes padSingle (startedPasses padSingle Avionics.init fs))
    · rw [hpushed]
      exact List.mem_map_of_mem hmem
    · exact List.mem_of_mem_take (hin.subset (by simp [tagBytes]))

end NuStars.Telemetry
