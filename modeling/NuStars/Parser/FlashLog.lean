/-
What parse.m makes of the log file on the flash chip ("COMMENT OUT THIS LINE WHEN ANALYZING FLASH DATA"), for runs in
which every flush copies inside the buffers.

The file is the packets of the flushes that could open it, each batch followed by a stray zero byte
(Avionics/FlashFile.lean). The stray byte stands behind a whole packet, so an entry does not read it, and it completes
no tag. The script therefore reads the packets across the gaps, which a fixed stride of 70 bytes does not
(old_parse_for_old_data.m). On an empty file the script ends with an error.

- `flash_records`: the file as a log of records;
- `flash_entries`: one entry for every packet in the file but the last one.
-/
import NuStars.Avionics.FlashFile
import NuStars.Parser.Records

namespace NuStars.Parser

open NuStars.Avionics NuStars.Run

/-! ## Records -/

/-- the passes of a batch, each with what follows its packet in the file -/
def followed : List Pass → List (Pass × List UInt8)
  | [] => []
  | [p] => [(p, [0])]
  | p :: q :: ps => (p, []) :: followed (q :: ps)

/-- the passes whose packets the file holds, each with what follows its packet -/
def savedRecords (ps : List Pass) (os : List Bool) : List (Pass × List UInt8) := (saved ps os).flatMap followed

/-- the passes whose packets the file holds -/
def savedPasses (ps : List Pass) (os : List Bool) : List Pass := (saved ps os).flatten

/-- the bytes behind the tag of a packet, and what follows it -/
def recordBody (single : ℚ → UInt32) (r : Pass × List UInt8) : List UInt8 := (r.1.packet single).drop 4 ++ r.2

/-- what the script makes of the packet of a pass -/
def passEntry (single : ℚ → UInt32) (p : Pass) : Entry :=
  misread (packedEntry single p.maxAcc p.readings (ravenByte p.readings))

theorem frame_recordBody (single : ℚ → UInt32) (r : Pass × List UInt8) :
    Ground.frame (recordBody single r) = r.1.packet single ++ r.2 := by
  simp [Ground.frame, recordBody, Pass.packet, encode, tag]

theorem recordBody_length (single : ℚ → UInt32) (r : Pass × List UInt8) : 65 ≤ (recordBody single r).length := by
  rw [recordBody, List.length_append, List.length_drop, packet_length]
  exact Nat.le_add_right_of_le (by decide)

theorem followed_map_fst (ps : List Pass) : (followed ps).map Prod.fst = ps := by
  fun_induction followed ps with
  | case1 => rfl
  | case2 p => rfl
  | case3 p q ps ih => rw [List.map_cons, ih]

theorem followed_bytes (single : ℚ → UInt32) {ps : List Pass} (hne : ps ≠ []) :
    ((followed ps).map fun r => Ground.frame (recordBody single r)).flatten =
      (ps.map (Pass.packet single)).flatten ++ [0] := by
  fun_induction followed ps with
  | case1 => exact absurd rfl hne
  | case2 p => simp [frame_recordBody]
  | case3 p q ps ih =>
    rw [List.map_cons, List.flatten_cons, ih (List.cons_ne_nil q ps), frame_recordBody, List.append_nil,
      ← List.append_assoc]
    rfl

/-- behind a packet comes the stray byte of its flush, or nothing -/
theorem followed_gap {ps : List Pass} {r : Pass × List UInt8} (h : r ∈ followed ps) : r.2 = [] ∨ r.2 = [0] := by
  fun_induction followed ps with
  | case1 => cases h
  | case2 p =>
    obtain rfl := List.mem_singleton.1 h
    exact Or.inr rfl
  | case3 p q ps ih =>
    rcases List.mem_cons.1 h with rfl | h
    · exact Or.inl rfl
    · exact ih h

theorem savedRecords_map_fst (ps : List Pass) (os : List Bool) :
    (savedRecords ps os).map Prod.fst = savedPasses ps os := by
  simp only [savedRecords, savedPasses, List.map_flatMap, followed_map_fst, List.flatMap_id']

theorem flash_records (single : ℚ → UInt32) (as : List Act) (hfits : Along (step single) CopyFits init as) :
    (run (step single) init as).file =
      ((savedRecords (finishedPasses single as) (outcomes single init as)).map fun r =>
        Ground.frame (recordBody single r)).flatten := by
  have hwhole := saved_whole ((Nat.le_add_right _ _).trans_eq (run_passes single as hfits))
  rw [run_logBytes single as hfits, logBytes, savedRecords, List.map_flatMap, List.flatMap_def, List.flatten_flatten,
    List.map_map]
  refine congrArg List.flatten (List.map_congr_left ?_)
  intro b hb
  have hne : b ≠ [] := List.ne_nil_of_length_eq_add_one (hwhole b hb).1
  exact (followed_bytes single hne).symm

/-! ## Entries -/

/-- a zero byte behind a packet completes no tag -/
theorem infix_zero (l : List UInt8) : tagBytes <:+: l ++ [0] ↔ tagBytes <:+: l := by
  refine ⟨?_, ?_⟩
  · intro h
    obtain ⟨p, hp⟩ := (infix_iff_occurs _).1 h
    have hlt := hp.lt
    rw [List.length_append, List.length_singleton] at hlt
    have hlast : p + 2 < l.length := by
      by_contra hge
      have hend : p + 2 = l.length := Nat.le_antisymm (Nat.le_of_lt_succ hlt) (not_lt.1 hge)
      have hx := hp.2.2
      rw [hend, List.getElem?_append_right le_rfl, Nat.sub_self] at hx
      exact absurd (Option.some.inj hx) (by decide)
    have hleft : ∀ i, i < l.length → (l ++ [0])[i]? = l[i]? := fun i hi => List.getElem?_append_left hi
    rw [Occurs, hleft p (by omega), hleft (p + 1) (by omega), hleft (p + 2) hlast] at hp
    exact (infix_iff_occurs l).2 ⟨p, hp⟩
  · intro h
    exact h.trans (List.prefix_append l [0]).isInfix

theorem decode_recordBody (single : ℚ → UInt32) (r : Pass × List UInt8) :
    decode (Ground.frame (recordBody single r)) 1 = some (passEntry single r.1) := by
  rw [frame_recordBody]
  exact decode_words single r.1.maxAcc r.1.readings (ravenByte r.1.readings) r.2

/-- **The flash log reads back.** Take any run in which the copies of the flushes fit into the buffers, with any opens
failing, after which something is in the file. If no packet in the file contains "NUx" behind its tag, the script
returns one entry for each packet in the file but the last, in order: what its pass packed, with the last single read as
a uint32. The stray bytes between the batches do not matter. -/
theorem flash_entries (single : ℚ → UInt32) (as : List Act) (hfits : Along (step single) CopyFits init as)
    (hfile : (run (step single) init as).file ≠ [])
    (hno : ∀ p ∈ savedPasses (finishedPasses single as) (outcomes single init as),
      ¬ tagBytes <:+: (p.packet single).drop 4) :
    parse (run (step single) init as).file =
      some ((savedPasses (finishedPasses single as) (outcomes single init as)).dropLast.map (passEntry single)) := by
  have hrecords := flash_records single as hfits
  have hgap : ∀ r ∈ savedRecords (finishedPasses single as) (outcomes single init as), r.2 = [] ∨ r.2 = [0] := by
    intro r hr
    obtain ⟨b, -, hrb⟩ := List.mem_flatMap.1 hr
    exact followed_gap hrb
  rw [← savedRecords_map_fst] at hno ⊢
  generalize savedRecords (finishedPasses single as) (outcomes single init as) = rs at hrecords hgap hno ⊢
  have hne : rs ≠ [] := by
    rintro rfl
    exact hfile hrecords
  have hclean : ∀ r ∈ rs, ¬ tagBytes <:+: recordBody single r := by
    intro r hr
    have hpacket := hno r.1 (List.mem_map_of_mem hr)
    rw [recordBody]
    rcases hgap r hr with hnone | hzero
    · rwa [hnone, List.append_nil]
    · rwa [hzero, infix_zero]
  have hdec : ∀ r ∈ rs, decode (Ground.frame (recordBody single r)) 1 = some ((passEntry single ∘ Prod.fst) r) :=
    fun r _ => decode_recordBody single r
  have hfile' : (run (step single) init as).file = ((rs.map (recordBody single)).map Ground.frame).flatten := by
    rw [List.map_map]
    exact hrecords
  rw [hfile', parse_entries hne (fun r _ => recordBody_length single r) hclean hdec, ← List.map_dropLast,
    List.map_map]

/-- the first flush on the pad -/
theorem flash_entries_pad :
    (finishedPasses padSingle (passesThenFlush 28)).length = 28 ∧
      parse (run (step padSingle) init (passesThenFlush 28)).file =
        some ((finishedPasses padSingle (passesThenFlush 28)).dropLast.map (passEntry padSingle)) := by
  obtain ⟨hfits, houts⟩ := passesThenFlush_fits padSingle
  have hcount := passesThenFlush_passes padSingle
  have hsaved : savedPasses (finishedPasses padSingle (passesThenFlush 28))
      (outcomes padSingle init (passesThenFlush 28)) = finishedPasses padSingle (passesThenFlush 28) := by
    rw [houts, savedPasses, saved, saved, if_pos rfl, List.append_nil, List.flatten_singleton,
      List.take_of_length_le hcount.le]
  have hfile : (run (step padSingle) init (passesThenFlush 28)).file ≠ [] := by
    rw [run_logBytes padSingle _ hfits, ← List.length_pos_iff, houts,
      logBytes_length padSingle (by rw [hcount]; decide)]
    decide
  have hpad : ∀ p ∈ finishedPasses padSingle (passesThenFlush 28), p.readings = padReadings 1 allHigh := by
    intro p hp
    have hstarted : p ∈ startedPasses padSingle init (passesThenFlush 28) := by
      rw [finishedPasses] at hp
      split_ifs at hp
      · exact List.dropLast_subset _ hp
      · exact hp
    simpa [passesThenFlush, iteration, flashTurn] using mem_startedPasses hstarted
  have hno : ∀ p ∈ finishedPasses padSingle (passesThenFlush 28), ¬ tagBytes <:+: (p.packet padSingle).drop 4 := by
    intro p hp
    rw [Pass.packet, hpad p hp]
    exact pad_clean p.maxAcc
  rw [← hsaved] at hno
  have hparse := flash_entries padSingle (passesThenFlush 28) hfits hfile hno
  rw [hsaved] at hparse
  exact ⟨hcount, hparse⟩

end NuStars.Parser
