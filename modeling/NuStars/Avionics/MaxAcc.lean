/-
`maxAcc` over a run of the flight computer (avionics.ino).

A pass calls `adxl->getAcceleration(Y_AXIS)` twice: for the field `yAccDXL`, and again behind the BMP fields for
`maxAcc`. The sensor gets "the values just in time as they are one at a time", so the two calls may return different
values (`Report.yAccDXL`, `Report.yAcc`), and it is the second one that `maxAcc` follows.

`reports` lists what the passes of a run compute, one entry a pass.

- `maxAcc_running`: `maxAcc` never falls, bounds every sample taken for it so far, and is what the packets carry;
- `maxAcc_below_field`: a packet whose `maxAcc` is below its own `yAccDXL`.
-/
import NuStars.Avionics.Channels

namespace NuStars.Avionics

open NuStars.LittleEndian NuStars.Run

/-! ## Reports -/

structure Report where
  /-- the acceleration packed as the Y field of the ADXL -/
  yAccDXL : ℚ
  /-- `double yAcc` -/
  yAcc : ℚ
  maxAcc : ℚ
deriving DecidableEq, Repr

/-- what a pass computes from the old `maxAcc` and its readings -/
def report (maxAcc : ℚ) (r : Readings) : Report :=
  let (_, k) := adxl.getAcceleration r.analogRead 0 .x
  let (ay, k) := adxl.getAcceleration r.analogRead k .y
  let (_, k) := adxl.getAcceleration r.analogRead k .z
  let (yAcc, _) := adxl.getAcceleration r.analogRead k .y
  ⟨ay, yAcc, if |yAcc| > |maxAcc| then |yAcc| else maxAcc⟩

/-- the report of a step that starts a pass -/
def passReport (s : St) : Act → Option Report
  | .loop r => if s.loopAt = .top ∧ s.radioLock = false then some (report s.maxAcc r) else none
  | _ => none

/-- the reports of a run, oldest first -/
def reports (single : ℚ → UInt32) (s : St) (as : List Act) : List Report := observed (step single) passReport s as

theorem packSensors_report (single : ℚ → UInt32) (p : Packer) (maxAcc : ℚ) (r : Readings) :
    (packSensors single p maxAcc r).2 = (report maxAcc r).maxAcc := packSensors_max single p maxAcc r

/-- the words of a packet carry the two values -/
def Carries (single : ℚ → UInt32) (ws : List UInt32) (q : Report) : Prop :=
  ws[8]? = some (single q.yAccDXL) ∧ ws[15]? = some (single q.maxAcc)

theorem fieldWords_carries (single : ℚ → UInt32) (maxAcc : ℚ) (r : Readings) :
    Carries single (fieldWords single maxAcc r) (report maxAcc r) := ⟨rfl, rfl⟩

/-! ## The maximum -/

/-- the reports qs, and `maxAcc` after them -/
structure Maxima (qs : List Report) (maxAcc : ℚ) : Prop where
  nonneg : 0 ≤ maxAcc
  below : ∀ q ∈ qs, q.maxAcc ≤ maxAcc
  sampled : ∀ q ∈ qs, |q.yAcc| ≤ q.maxAcc
  order : qs.Pairwise (fun p q => p.maxAcc ≤ q.maxAcc)

theorem report_max {maxAcc : ℚ} (h : 0 ≤ maxAcc) (r : Readings) :
    maxAcc ≤ (report maxAcc r).maxAcc ∧ |(report maxAcc r).yAcc| ≤ (report maxAcc r).maxAcc := by
  have hmax : (report maxAcc r).maxAcc =
      if |(report maxAcc r).yAcc| > |maxAcc| then |(report maxAcc r).yAcc| else maxAcc := rfl
  rw [hmax, abs_of_nonneg h]
  split_ifs with hgt
  · exact ⟨hgt.le, le_rfl⟩
  · exact ⟨le_rfl, not_lt.1 hgt⟩

theorem Maxima.report {qs : List Report} {maxAcc : ℚ} (h : Maxima qs maxAcc) (r : Readings) :
    Maxima (qs ++ [Avionics.report maxAcc r]) (Avionics.report maxAcc r).maxAcc := by
  obtain ⟨hle, hsample⟩ := report_max h.nonneg r
  refine ⟨h.nonneg.trans hle, ?_, ?_, ?_⟩
  · intro q hq
    rcases List.mem_append.1 hq with hq | hq
    · exact (h.below q hq).trans hle
    · rw [List.mem_singleton.1 hq]
  · intro q hq
    rcases List.mem_append.1 hq with hq | hq
    · exact h.sampled q hq
    · rw [List.mem_singleton.1 hq]
      exact hsample
  · refine List.pairwise_append.2 ⟨h.order, List.pairwise_singleton _ _, ?_⟩
    intro p hp q hq
    rw [List.mem_singleton.1 hq]
    exact (h.below p hp).trans hle

/-! ## The packets -/

/-- the packet p carries the two values of q -/
def Shows (single : ℚ → UInt32) (p : List UInt8) (q : Report) : Prop :=
  ∃ ws raven, ws.length = 16 ∧ Carries single ws q ∧ p = encode ws raven

theorem Shows.bytes {single : ℚ → UInt32} {p : List UInt8} {q : Report} (h : Shows single p q) :
    (p.drop 36).take 4 = leBytes 4 (single q.yAccDXL).toNat ∧
      (p.drop 64).take 4 = leBytes 4 (single q.maxAcc).toNat := by
  obtain ⟨ws, raven, hws, ⟨h8, h15⟩, rfl⟩ := h
  have e8 := encode_word ws raven hws 8 (by omega)
  have e15 := encode_word ws raven hws 15 (by omega)
  rw [List.getElem?_eq_getElem (by omega), Option.some.injEq] at h8 h15
  rw [h8] at e8
  rw [h15] at e15
  exact ⟨e8, e15⟩

/-- the reports qs against the packets packed: all of them, but for the one of the sweep that is under way -/
inductive Packed (single : ℚ → UInt32) (s : St) : List Report → Prop where
  | all {qs : List Report} (hout : sweeping s.loopAt = false) (hshow : List.Forall₂ (Shows single) s.packed qs) :
      Packed single s qs
  | pending {qs : List Report} (q : Report) (ws : List UInt32) (hin : sweeping s.loopAt = true)
      (hshow : List.Forall₂ (Shows single) s.packed qs) (hfill : Filled s.pk ws) (hws : Carries single ws q) :
      Packed single s (qs ++ [q])

theorem Packed.of_eq {single : ℚ → UInt32} {s t : St} {qs : List Report} (h : Packed single s qs)
    (hat : sweeping t.loopAt = sweeping s.loopAt) (hpk : t.pk = s.pk) (hpacked : t.packed = s.packed) :
    Packed single t qs := by
  cases h with
  | all hout hshow => exact .all (hat.trans hout) (by rw [hpacked]; exact hshow)
  | pending q ws hin hshow hfill hws =>
    exact .pending q ws (hat.trans hin) (by rw [hpacked]; exact hshow) (by rw [hpk]; exact hfill) hws

theorem Packed.out {single : ℚ → UInt32} {s : St} {qs : List Report} (h : Packed single s qs)
    (hout : sweeping s.loopAt = false) : List.Forall₂ (Shows single) s.packed qs := by
  cases h with
  | all _ hshow => exact hshow
  | pending q ws hin _ _ _ =>
    rw [hout] at hin
    cases hin

theorem forall₂_snoc {α β : Type*} {R : α → β → Prop} {as : List α} {bs : List β} {a : α} {b : β}
    (h : List.Forall₂ R as bs) (hab : R a b) : List.Forall₂ R (as ++ [a]) (bs ++ [b]) :=
  List.rel_append h (.cons hab .nil)

/-- the end of a pass packs the report of its fields -/
theorem finishPass_shows {single : ℚ → UInt32} {s : St} {qs : List Report} {q : Report} {ws : List UInt32}
    (hshow : List.Forall₂ (Shows single) s.packed qs) (hfill : Filled s.pk ws) (hws : Carries single ws q)
    (raven : UInt8) : Packed single (finishPass s raven) (qs ++ [q]) := by
  refine .all rfl (forall₂_snoc hshow ⟨ws, raven, hfill.count, hws, ?_⟩)
  exact packTail_filled hfill raven

/-! ## Runs -/

structure Reported (single : ℚ → UInt32) (qs : List Report) (s : St) : Prop where
  maxima : Maxima qs s.maxAcc
  packed : Packed single s qs

theorem init_reported (single : ℚ → UInt32) : Reported single [] init :=
  ⟨⟨le_rfl, nofun, nofun, .nil⟩, .all rfl .nil⟩

theorem passReport_inside {s : St} {r : Readings} (h : s.loopAt ≠ .top) : passReport s (.loop r) = none := by
  rw [passReport, if_neg]
  rintro ⟨htop, -⟩
  exact h htop

theorem passReport_locked {s : St} {r : Readings} (h : s.radioLock = true) : passReport s (.loop r) = none := by
  rw [passReport, if_neg]
  rintro ⟨-, hlock⟩
  rw [h] at hlock
  cases hlock

/-- a step that starts and ends no pass -/
theorem Reported.idle {single : ℚ → UInt32} {qs : List Report} {s t : St} {a : Act} (h : Reported single qs s)
    (hno : passReport s a = none) (hmax : t.maxAcc = s.maxAcc) (hat : sweeping t.loopAt = sweeping s.loopAt)
    (hpk : t.pk = s.pk) (hpacked : t.packed = s.packed) : Reported single (qs ++ (passReport s a).toList) t := by
  rw [hno, Option.toList_none, List.append_nil]
  exact ⟨by rw [hmax]; exact h.maxima, h.packed.of_eq hat hpk hpacked⟩

theorem step_reported (single : ℚ → UInt32) {qs : List Report} (s : St) (a : Act) (hp : Packets s)
    (h : Reported single qs s) : Reported single (qs ++ (passReport s a).toList) (step single s a) := by
  have hfill : ∀ r, Filled (packFields single s r).pk (fieldWords single s.maxAcc r) := fun r =>
    packSensors_filled single s.pk s.maxAcc r hp.size hp.head
  have hnew : ∀ r, s.loopAt = .top → s.radioLock = false →
      passReport s (.loop r) = some (report s.maxAcc r) ∧
        Maxima (qs ++ [report s.maxAcc r]) (packSensors single s.pk s.maxAcc r).2 := by
    intro r htop hlock
    refine ⟨by rw [passReport, if_pos ⟨htop, hlock⟩], ?_⟩
    rw [packSensors_report]
    exact h.maxima.report r
  have hm := step_moves single s a
  generalize step single s a = t at hm ⊢
  cases hm with
  | locked r htop hlock => exact h.idle (passReport_locked hlock) rfl (by rw [htop]; rfl) rfl rfl
  | pass r htop hlock hbr =>
    obtain ⟨hrep, hmax⟩ := hnew r htop hlock
    rw [hrep, Option.toList_some]
    have hshow := h.packed.out (by rw [htop]; rfl)
    exact ⟨hmax, finishPass_shows (s := packFields single s r) hshow (hfill r) (fieldWords_carries single _ r) _⟩
  | sweepStart r htop hlock hbr =>
    obtain ⟨hrep, hmax⟩ := hnew r htop hlock
    rw [hrep, Option.toList_some]
    have hshow := h.packed.out (by rw [htop]; rfl)
    exact ⟨hmax, .pending _ _ rfl hshow (hfill r) (fieldWords_carries single _ r)⟩
  | sweepSkip r htop hlock hbr =>
    obtain ⟨hrep, hmax⟩ := hnew r htop hlock
    rw [hrep, Option.toList_some]
    have hshow := h.packed.out (by rw [htop]; rfl)
    exact ⟨hmax, finishPass_shows (s := setDeployed (packFields single s r)) hshow (hfill r)
      (fieldWords_carries single _ r) _⟩
  | sweepOn r d i raven hat hcond =>
    exact h.idle (passReport_inside (by rw [hat]; nofun)) rfl (by rw [hat]; rfl) rfl rfl
  | sweepEnd r d i raven hat hcond =>
    rw [passReport_inside (by rw [hat]; nofun), Option.toList_none, List.append_nil]
    refine ⟨h.maxima, ?_⟩
    cases h.packed with
    | all hout _ =>
      rw [hat] at hout
      cases hout
    | pending q ws _ hshow hfill' hws => exact finishPass_shows (s := setDeployed s) hshow hfill' hws _
  | again r hat => exact h.idle (passReport_inside (by rw [hat]; nofun)) rfl (by rw [hat]; rfl) rfl rfl
  | flashOn opened past f hno => exact h.idle rfl rfl rfl rfl rfl
  | flush opened past hat hsig => exact h.idle rfl rfl rfl rfl rfl
  | send hat hlock => exact h.idle rfl rfl rfl rfl rfl
  | unlock b hat => exact h.idle rfl rfl rfl rfl rfl
  | radioOn p hno => exact h.idle rfl rfl rfl rfl rfl

theorem run_reported (single : ℚ → UInt32) (as : List Act) :
    Reported single (reports single init as) (run (step single) init as) :=
  (run_observed (I := fun qs s => Packets s ∧ Reported single qs s)
    (fun _ s a h => ⟨step_packets single s a h.1, step_reported single s a h.1 h.2⟩) init as
    ⟨init_packets, init_reported single⟩).2

/-- **`maxAcc` is the running maximum of the samples taken for it.** Over every run: it never falls from one packet to a
later one, and in each packet it is at least the absolute value of the Y acceleration sampled for it in that pass and in
every earlier one. Outside the sweep loops the packets packed so far carry these values, each report one packet. -/
theorem maxAcc_running (single : ℚ → UInt32) (as : List Act) :
    let qs := reports single init as
    let s := run (step single) init as
    qs.Pairwise (fun p q => p.maxAcc ≤ q.maxAcc ∧ |p.yAcc| ≤ q.maxAcc) ∧ (∀ q ∈ qs, |q.yAcc| ≤ q.maxAcc) ∧
      (sweeping s.loopAt = false → List.Forall₂ (fun p q => (p.drop 36).take 4 = leBytes 4 (single q.yAccDXL).toNat ∧
        (p.drop 64).take 4 = leBytes 4 (single q.maxAcc).toNat) s.packed qs) := by
  intro qs s
  have h : Reported single qs s := run_reported single as
  refine ⟨?_, h.maxima.sampled, ?_⟩
  · apply h.maxima.order.imp_of_mem
    intro p q hp _ hle
    exact ⟨hle, (h.maxima.sampled p hp).trans hle⟩
  · intro hout
    exact (h.packed.out hout).imp fun p q hshow => hshow.bytes

/-- all analog reads of a pass at the upper end, but the last one in the middle -/
def lateReadings : Readings :=
  { padReadings 1 allHigh with analogRead := fun k _ => if k = 7 then 512 else 1023 }

/-- **`maxAcc` below the field it stands with**: the first packet reports 200 for Y and less for `maxAcc`. -/
theorem maxAcc_below_field :
    ¬ ∀ (single : ℚ → UInt32) (as : List Act),
      (reports single init as).Pairwise (fun p q => p.maxAcc ≤ q.maxAcc ∧ |p.yAccDXL| ≤ q.maxAcc) ∧
        ∀ q ∈ reports single init as, |q.yAccDXL| ≤ q.maxAcc := by
  intro h
  have hq := (h padSingle [.loop lateReadings]).2 (report 0 lateReadings)
    (by simp [reports, observed, passReport, init])
  revert hq
  decide +kernel

end NuStars.Avionics
