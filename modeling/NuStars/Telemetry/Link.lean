/-
The radio link as a whole: the flight computer and its driver, the air, and the ground station.

`Step` interleaves the steps of the three tasks of the flight computer, the pieces of the station's `loop()`, and the
interrupts of both modems. The flight computer's `transmit` waits until the last packet is out, and then puts its copy
on the air. Packets on the air stay in order; one may be lost at any time, or reach the station's modem, which hears it
if it is listening. There is no other sender, and what is damaged on the way is reported as a CRC error (`noise`).

- `run_linked`: every reachable state is made of a run of the flight computer and one of the station whose packets are
  copies of the flight computer's, in order;
- `telemetry`: what the station writes to Serial, and that its `loop()` always goes on.
-/
import NuStars.Avionics.Copies
import NuStars.Ground.Framing
import NuStars.Radio.Station

namespace NuStars.Telemetry

open NuStars.Avionics NuStars.Radio NuStars.Run

/-! ## Model -/

structure Link where
  flight : Avionics.St
  /-- the driver of the flight computer -/
  rf95 : RF95
  /-- the packets sent and neither lost nor heard, oldest first -/
  air : List Payload
  station : Station.St

/-- both programs after `setup()` -/
def start (mem : UInt8 → UInt8) (buf : List UInt8) : Link :=
  ⟨Avionics.init, RF95.init, [], Station.setup mem buf⟩

inductive Act where
  | flight (a : Avionics.Act)
  /-- an interrupt of the flight computer's modem -/
  | txInterrupt (irqFlags : UInt8) (p : Payload)
  | lost
  | heard (irqFlags : UInt8)
  /-- an interrupt of the station's modem that brings no packet -/
  | noise (irqFlags : UInt8) (p : Payload)
  | station (past : ℕ → UInt8)

inductive Step (single : ℚ → UInt32) (s : Link) : Act → Link → Prop where
  | flight (a : Avionics.Act) (hno : ∀ b, a = .writeRadio → s.flight.radioAt ≠ .transmit b) :
      Step single s (.flight a) { s with flight := Avionics.step single s.flight a }
  /-- in `waitPacketSent` -/
  | wait (b : List UInt8) (hat : s.flight.radioAt = .transmit b) (htx : s.rf95.mode = .tx) :
      Step single s (.flight .writeRadio) s
  | transmit (b : List UInt8) (p : Payload) (d : RF95) (hat : s.flight.radioAt = .transmit b)
      (htx : s.rf95.mode ≠ .tx) (hsend : s.rf95.send b = some (p, d)) :
      Step single s (.flight .writeRadio)
        { s with flight := Avionics.step single s.flight .writeRadio, rf95 := d, air := s.air ++ [p] }
  /-- `send` refuses a message that is too long -/
  | tooLong (b : List UInt8) (hat : s.flight.radioAt = .transmit b) (hsend : s.rf95.send b = none) :
      Step single s (.flight .writeRadio) { s with flight := Avionics.step single s.flight .writeRadio }
  | txInterrupt (irqFlags : UInt8) (p : Payload) :
      Step single s (.txInterrupt irqFlags p) { s with rf95 := s.rf95.handleInterrupt irqFlags p }
  | lost (p : Payload) (rest : List Payload) (hair : s.air = p :: rest) : Step single s .lost { s with air := rest }
  | heard (irqFlags : UInt8) (p : Payload) (rest : List Payload) (hair : s.air = p :: rest)
      (hrec : received irqFlags = true) :
      Step single s (.heard irqFlags) { s with air := rest, station := s.station.interrupt irqFlags p }
  | noise (irqFlags : UInt8) (p : Payload) (hno : received irqFlags = false) :
      Step single s (.noise irqFlags p) { s with station := s.station.interrupt irqFlags p }
  | station (past : ℕ → UInt8) (t : Station.St) (hst : Station.Step s.station (.loop past) t) :
      Step single s (.station past) { s with station := t }

/-- a step, if the rest of the station's `loop()` returns within the fuel -/
def advance (single : ℚ → UInt32) (fuel : ℕ) (s : Link) : Act → Option Link
  | .flight (.loop r) => some { s with flight := Avionics.step single s.flight (.loop r) }
  | .flight (.writeFlash opened past) =>
    some { s with flight := Avionics.step single s.flight (.writeFlash opened past) }
  | .flight .writeRadio =>
    match s.flight.radioAt with
    | .transmit b =>
      match s.rf95.send b with
      | none => some { s with flight := Avionics.step single s.flight .writeRadio }
      | some (p, d) =>
        if s.rf95.mode = .tx then some s
        else some { s with flight := Avionics.step single s.flight .writeRadio, rf95 := d, air := s.air ++ [p] }
    | _ => some { s with flight := Avionics.step single s.flight .writeRadio }
  | .txInterrupt irqFlags p => some { s with rf95 := s.rf95.handleInterrupt irqFlags p }
  | .lost =>
    match s.air with
    | [] => none
    | _ :: rest => some { s with air := rest }
  | .heard irqFlags =>
    match s.air with
    | [] => none
    | p :: rest =>
      if received irqFlags then some { s with air := rest, station := s.station.interrupt irqFlags p } else none
  | .noise irqFlags p =>
    if received irqFlags then none else some { s with station := s.station.interrupt irqFlags p }
  | .station past => (Station.advance fuel s.station (.loop past)).map fun t => { s with station := t }

theorem advance_writeRadio {single : ℚ → UInt32} {fuel : ℕ} {s t : Link}
    (h : advance single fuel s (.flight .writeRadio) = some t) : Step single s (.flight .writeRadio) t := by
  rw [advance] at h
  cases hat : s.flight.radioAt with
  | transmit b =>
    rw [hat] at h
    cases hsend : s.rf95.send b with
    | none =>
      simp only [hsend] at h
      obtain rfl := Option.some.inj h
      exact .tooLong b hat hsend
    | some pd =>
      simp only [hsend] at h
      split_ifs at h with htx
      · obtain rfl := Option.some.inj h
        exact .wait b hat htx
      · obtain rfl := Option.some.inj h
        exact .transmit b pd.1 pd.2 hat htx hsend
  | enter =>
    rw [hat] at h
    obtain rfl := Option.some.inj h
    exact .flight .writeRadio (by rw [hat]; nofun)
  | delayed =>
    rw [hat] at h
    obtain rfl := Option.some.inj h
    exact .flight .writeRadio (by rw [hat]; nofun)

theorem advance_step {single : ℚ → UInt32} {fuel : ℕ} {s : Link} {a : Act} {t : Link}
    (h : advance single fuel s a = some t) : Step single s a t := by
  cases a with
  | flight a =>
    cases a with
    | loop r =>
      obtain rfl := Option.some.inj h
      exact .flight (.loop r) nofun
    | writeFlash opened past =>
      obtain rfl := Option.some.inj h
      exact .flight (.writeFlash opened past) nofun
    | writeRadio => exact advance_writeRadio h
  | txInterrupt irqFlags p =>
    obtain rfl := Option.some.inj h
    exact .txInterrupt irqFlags p
  | lost =>
    rw [advance] at h
    cases hair : s.air with
    | nil =>
      rw [hair] at h
      cases h
    | cons p rest =>
      rw [hair] at h
      obtain rfl := Option.some.inj h
      exact .lost p rest hair
  | heard irqFlags =>
    rw [advance] at h
    cases hair : s.air with
    | nil =>
      rw [hair] at h
      cases h
    | cons p rest =>
      rw [hair] at h
      dsimp only at h
      split_ifs at h with hrec
      obtain rfl := Option.some.inj h
      exact .heard irqFlags p rest hair hrec
  | noise irqFlags p =>
    rw [advance] at h
    split_ifs at h with hrec
    obtain rfl := Option.some.inj h
    exact .noise irqFlags p (Bool.eq_false_iff.2 hrec)
  | station past =>
    obtain ⟨t', ht', rfl⟩ := Option.map_eq_some_iff.1 h
    exact .station past t' (Station.advance_step ht')

/-! ## The sender -/

/-- the header of a broadcast -/
def header : List UInt8 := [broadcastAddress, broadcastAddress, 0, 0]

/-- the copies that have been put on the air: all but the one whose `transmit` is waiting -/
def transmitted (s : Avionics.St) : List (List UInt8) :=
  match s.radioAt with
  | .transmit _ => s.sent.dropLast
  | _ => s.sent

/-- the copy that waits is the last one taken -/
def LastCopied (s : Avionics.St) : Prop := ∀ b, s.radioAt = .transmit b → ∃ bs, s.sent = bs ++ [b]

theorem transmitted_sublist (s : Avionics.St) : (transmitted s).Sublist s.sent := by
  unfold transmitted
  split
  · exact List.dropLast_sublist _
  · exact List.Sublist.refl _

theorem step_transmitted (single : ℚ → UInt32) (s : Avionics.St) (a : Avionics.Act)
    (hno : ∀ b, a = .writeRadio → s.radioAt ≠ .transmit b) (h : LastCopied s) :
    transmitted (Avionics.step single s a) = transmitted s ∧ LastCopied (Avionics.step single s a) := by
  cases a with
  | writeRadio =>
    cases hat : s.radioAt with
    | transmit b => exact absurd hat (hno b rfl)
    | delayed =>
      have hstep : Avionics.step single s .writeRadio = { s with radioAt := .enter } := by
        simp [Avionics.step, writeRadio, hat]
      rw [hstep, transmitted, transmitted, hat]
      refine ⟨rfl, ?_⟩
      intro b hb
      cases hb
    | enter =>
      by_cases hlock : s.radioLock = true
      · have hstep : Avionics.step single s .writeRadio = s := by simp [Avionics.step, writeRadio, hat, hlock]
        rw [hstep]
        exact ⟨rfl, h⟩
      · have hstep : Avionics.step single s .writeRadio = send s := by simp [Avionics.step, writeRadio, hat, hlock]
        rw [hstep, transmitted, transmitted, hat]
        refine ⟨List.dropLast_concat, ?_⟩
        intro b hb
        injection hb with hb
        exact ⟨s.sent, by rw [← hb]; rfl⟩
  | loop r =>
    have hm := step_moves single s (.loop r)
    generalize Avionics.step single s (.loop r) = t at hm ⊢
    cases hm
    all_goals exact ⟨rfl, h⟩
  | writeFlash opened past =>
    have hm := step_moves single s (.writeFlash opened past)
    generalize Avionics.step single s (.writeFlash opened past) = t at hm ⊢
    cases hm
    all_goals exact ⟨rfl, h⟩

/-- the end of a transmission -/
theorem unlock_transmitted (single : ℚ → UInt32) (s : Avionics.St) {b : List UInt8} (hat : s.radioAt = .transmit b)
    (h : LastCopied s) : transmitted (Avionics.step single s .writeRadio) = transmitted s ++ [b] ∧
      LastCopied (Avionics.step single s .writeRadio) := by
  have hstep : Avionics.step single s .writeRadio = { s with radioLock := false, radioAt := .delayed } := by
    simp [Avionics.step, writeRadio, hat]
  obtain ⟨bs, hbs⟩ := h b hat
  rw [hstep, transmitted, transmitted, hat]
  refine ⟨?_, ?_⟩
  · show s.sent = s.sent.dropLast ++ [b]
    rw [hbs, List.dropLast_concat]
  · intro b' hb
    cases hb

/-! ## Both ends -/

/-- what reaches the modem of the station is a copy behind a broadcast header -/
structure Linked (single : ℚ → UInt32) (mem : UInt8 → UInt8) (buf : List UInt8) (s : Link) : Prop where
  flight : ∃ fs, s.flight = run (Avionics.step single) Avionics.init fs
  last : LastCopied s.flight
  headers : s.rf95.txHeaders = header
  station : ∃ as, Trace Station.Step (Station.setup mem buf) as s.station ∧
    (Station.receptions as ++ s.air.map Payload.bytes).Sublist ((transmitted s.flight).map (header ++ ·))

theorem start_linked (single : ℚ → UInt32) (mem : UInt8 → UInt8) (buf : List UInt8) :
    Linked single mem buf (start mem buf) :=
  ⟨⟨[], rfl⟩, nofun, rfl, [], .nil _, .slnil⟩

theorem run_step {single : ℚ → UInt32} {s : Avionics.St} (h : ∃ fs, s = run (Avionics.step single) Avionics.init fs)
    (a : Avionics.Act) : ∃ fs, Avionics.step single s a = run (Avionics.step single) Avionics.init fs := by
  obtain ⟨fs, rfl⟩ := h
  exact ⟨fs ++ [a], (run_snoc _ _ _ _).symm⟩

theorem station_snoc {mem : UInt8 → UInt8} {buf : List UInt8} {as : List Station.Act} {s t : Station.St}
    {a : Station.Act} (h : Trace Station.Step (Station.setup mem buf) as s) (hst : Station.Step s a t) :
    Trace Station.Step (Station.setup mem buf) (as ++ [a]) t :=
  trace_append.2 ⟨s, h, .cons hst (.nil t)⟩

theorem step_linked {single : ℚ → UInt32} {mem : UInt8 → UInt8} {buf : List UInt8} {s t : Link} {a : Act}
    (h : Linked single mem buf s) (hs : Step single s a t) : Linked single mem buf t := by
  obtain ⟨as, htrace, hsub⟩ := h.station
  cases hs with
  | flight a hno =>
    obtain ⟨hsame, hlast⟩ := step_transmitted single s.flight a hno h.last
    refine ⟨run_step h.flight a, hlast, h.headers, as, htrace, ?_⟩
    rw [hsame]
    exact hsub
  | wait b hat htx => exact h
  | transmit b p d hat htx hsend =>
    obtain ⟨hnew, hlast⟩ := unlock_transmitted single s.flight hat h.last
    have hp : p.bytes = header ++ b ∧ d.txHeaders = header := by
      unfold RF95.send at hsend
      split_ifs at hsend with hlen
      obtain ⟨rfl, rfl⟩ := Prod.mk.inj (Option.some.inj hsend)
      exact ⟨by rw [← h.headers], h.headers⟩
    refine ⟨run_step h.flight .writeRadio, hlast, hp.2, as, htrace, ?_⟩
    rw [hnew, List.map_append, List.map_append, ← List.append_assoc, List.map_singleton, List.map_singleton, hp.1]
    exact hsub.append (List.Sublist.refl _)
  | tooLong b hat hsend =>
    obtain ⟨hnew, hlast⟩ := unlock_transmitted single s.flight hat h.last
    refine ⟨run_step h.flight .writeRadio, hlast, h.headers, as, htrace, ?_⟩
    rw [hnew, List.map_append]
    exact hsub.trans (List.sublist_append_left _ _)
  | txInterrupt irqFlags p =>
    exact ⟨h.flight, h.last, (handleInterrupt_txHeaders _ _ _).trans h.headers, as, htrace, hsub⟩
  | lost p rest hair =>
    refine ⟨h.flight, h.last, h.headers, as, htrace, ?_⟩
    rw [hair, List.map_cons] at hsub
    exact ((List.Sublist.refl _).append (List.sublist_cons_self _ _)).trans hsub
  | heard irqFlags p rest hair hrec =>
    refine ⟨h.flight, h.last, h.headers, _, station_snoc htrace (.interrupt irqFlags p), ?_⟩
    have hrep : Station.reception (.interrupt irqFlags p) = some p.bytes := if_pos hrec
    rw [hair, List.map_cons] at hsub
    rw [Station.receptions_snoc, hrep, Option.toList_some, List.append_assoc]
    exact hsub
  | noise irqFlags p hno =>
    refine ⟨h.flight, h.last, h.headers, _, station_snoc htrace (.interrupt irqFlags p), ?_⟩
    have hrep : Station.reception (.interrupt irqFlags p) = none := if_neg (by rw [hno]; nofun)
    rw [Station.receptions_snoc, hrep, Option.toList_none, List.append_nil]
    exact hsub
  | station past t hst =>
    refine ⟨h.flight, h.last, h.headers, _, station_snoc htrace hst, ?_⟩
    rw [Station.receptions_snoc]
    simpa [Station.reception] using hsub

theorem run_linked {single : ℚ → UInt32} {mem : UInt8 → UInt8} {buf : List UInt8} {as : List Act} {s : Link}
    (h : Trace (Step single) (start mem buf) as s) : Linked single mem buf s :=
  trace_inv (I := Linked single mem buf) (fun _ _ _ hs hst => step_linked hs hst) h (start_linked single mem buf)

/-! ## The log on the ground -/

/-- the receiver on whole packets, one a message -/
theorem ground_packets (mem : UInt8 → UInt8) {ps : List Packet} {pre post : List (List UInt8)}
    (h : ps.map Packet.bytes = pre ++ post) :
    ∃ g, Trace Ground.Returns (Ground.setup mem) pre g ∧ g.underrun = false ∧ g.accepted = pre.flatten ∧
      g.serial = (((ps.take (pre.length - 1)).filter (·.Valid)).map Packet.frame).flatten := by
  have hsize : ∀ m ∈ pre ++ post, m.length = 70 := by
    rw [← h]
    exact Ground.stream_blocks ps
  have hlen : pre.flatten.length = 70 * pre.length :=
    Blocks.length_blocks fun m hm => hsize m (List.mem_append_left _ hm)
  have hcut : (pre ++ post).flatten = Ground.stream ps := by rw [← h, Ground.stream]
  obtain ⟨g, hg, hunder, hacc, -, hserial⟩ :=
    Ground.framed_run mem ps (pre ++ post) hcut (fun m hm => (hsize m hm).le) pre post rfl
  refine ⟨g, hg, hunder, hacc, ?_⟩
  rw [hserial, Ground.written, hlen, Nat.mul_div_cancel_left _ (by decide)]

theorem header_proper (b : List UInt8) : Proper RF95.init (header ++ b) := by
  refine ⟨?_, rfl⟩
  rw [List.length_append]
  exact Nat.le_add_right _ _

/-- the messages of the station are copies of the flight computer's, in order -/
theorem Linked.messages {single : ℚ → UInt32} {mem : UInt8 → UInt8} {buf : List UInt8} {s : Link}
    (h : Linked single mem buf s) : (s.station.pushed ++ s.station.inHand).Sublist s.flight.sent := by
  obtain ⟨as, htrace, hsub⟩ := h.station
  have hrec : (Station.receptions as).Sublist ((transmitted s.flight).map (header ++ ·)) :=
    (List.sublist_append_left _ _).trans hsub
  have hproper : ∀ bytes ∈ Station.receptions as, Proper RF95.init bytes := by
    intro bytes hb
    obtain ⟨b, -, rfl⟩ := List.mem_map.1 (hrec.subset hb)
    exact header_proper b
  obtain ⟨qs, hqs⟩ := Station.run_carries (Q := Proper RF95.init) (fun _ hp => hp) htrace
    fun pre a post e u _ bytes hover => hproper bytes (Station.mem_receptions e hover.1)
  have hdrop : ((transmitted s.flight).map (header ++ ·)).map (fun r => r.drop headerLen) = transmitted s.flight := by
    rw [List.map_map]
    exact List.map_id' _
  have hmap := (hqs.sub_left.trans hrec).map fun r => r.drop headerLen
  rw [hdrop] at hmap
  rw [hqs.messages]
  exact hmap.trans (transmitted_sublist s.flight)

theorem ground_det {mem : UInt8 → UInt8} {ms : List (List UInt8)} {g g' : Ground.St}
    (h : Trace Ground.Returns (Ground.setup mem) ms g) (h' : Trace Ground.Returns (Ground.setup mem) ms g') : g = g' :=
  trace_det (R := Ground.Returns) (fun _ _ _ _ h1 h2 => Ground.loop_det h1 h2) h h'

/-- `loop()` of the station goes on if the rest of it returns on the message in hand -/
theorem station_goes_on {s : Station.St} (h : ∀ m, s.inHand = [m] → ∃ g, Ground.Returns s.ground m g)
    (past : ℕ → UInt8) : ∃ t, Station.Step s (.loop past) t := by
  cases hat : s.loopAt with
  | poll => exact ⟨_, .poll past hat⟩
  | recv => exact ⟨_, .recv past hat⟩
  | copy => exact ⟨_, .copy past hat⟩
  | clear len => exact ⟨_, .clear past len hat⟩
  | push len =>
    obtain ⟨g, hg⟩ := h (s.message len) (by unfold Station.St.inHand; rw [hat])
    exact ⟨_, .push past len g hat hg⟩

/-- the station's log after a run `fs` of the flight computer, `cs` being the copies pushed -/
structure Logged (single : ℚ → UInt32) (fs : List Avionics.Act) (cs : List Copy) (s : Link) : Prop where
  flight : s.flight = run (Avionics.step single) Avionics.init fs
  sub : cs.Sublist (copies single Avionics.init fs)
  pushed : s.station.pushed = cs.map (Copy.bytes single (startedPasses single Avionics.init fs))
  accepted : s.station.ground.accepted = s.station.pushed.flatten
  underrun : s.station.ground.underrun = false
  serial : s.station.ground.serial =
    (((cs.dropLast.map (Copy.packet single (startedPasses single Avionics.init fs))).filter (·.Valid)).map
      Packet.frame).flatten
  goesOn : ∀ past, ∃ t, Station.Step s.station (.loop past) t

theorem Linked.logged {single : ℚ → UInt32} {mem : UInt8 → UInt8} {buf : List UInt8} {s : Link}
    (h : Linked single mem buf s) : ∃ fs cs, Logged single fs cs s := by
  obtain ⟨fs, hfs⟩ := h.flight
  obtain ⟨as, htrace, -⟩ := h.station
  set ps := startedPasses single Avionics.init fs with hps
  have hsent : s.flight.sent = (copies single Avionics.init fs).map (Copy.bytes single ps) := by
    rw [hfs]
    exact (run_copied single fs).sent
  have hsub := h.messages
  rw [hsent] at hsub
  obtain ⟨cs, hcs, hmsgs⟩ := List.sublist_map_iff.1 hsub
  have hpackets : (cs.map (Copy.packet single ps)).map Packet.bytes = s.station.pushed ++ s.station.inHand := by
    rw [hmsgs, List.map_map]
    rfl
  have hpushed : s.station.pushed = (cs.take s.station.pushed.length).map (Copy.bytes single ps) := by
    rw [List.map_take, ← hmsgs, List.take_left' rfl]
  have hrun := Station.run_ground htrace
  obtain ⟨g, hg, hunder, hacc, hserial⟩ := ground_packets mem hpackets
  obtain rfl : g = s.station.ground := ground_det hg hrun
  refine ⟨fs, cs.take s.station.pushed.length, hfs, (List.take_sublist _ _).trans hcs, hpushed, hacc, hunder, ?_, ?_⟩
  · have hlast : (cs.take s.station.pushed.length).dropLast = cs.take (s.station.pushed.length - 1) := by
      have hlen := congrArg List.length hpushed
      rw [List.length_map] at hlen
      rw [List.dropLast_eq_take, List.take_take, ← hlen, Nat.min_eq_left (Nat.sub_le _ _)]
    rw [hserial, hlast, List.map_take]
  · apply station_goes_on
    intro m hm
    rw [hm] at hpackets
    obtain ⟨g', hg', -⟩ := ground_packets mem (hpackets.trans (List.append_nil _).symm)
    obtain ⟨u, hu, hlast⟩ := trace_append.1 hg'
    obtain rfl := ground_det hu hrun
    cases hlast with
    | cons hret _ => exact ⟨_, hret⟩

/-- **The telemetry link.** In every reachable state of the whole system, whatever is sampled, however the tasks, the
interrupts and the station are interleaved, and whatever is lost on the way: the messages the station pushed are copies
the flight computer took, in order and each at most once; none was refused and nothing stale was read; what is on Serial
is the frames of those with a right checksum, up to the last but one message; and `loop()` of the station can go on. -/
theorem telemetry (single : ℚ → UInt32) (mem : UInt8 → UInt8) (buf : List UInt8) (as : List Act) (s : Link)
    (h : Trace (Step single) (start mem buf) as s) :
    ∃ fs, s.flight = run (Avionics.step single) Avionics.init fs ∧
      ∃ cs : List Copy, cs.Sublist (copies single Avionics.init fs) ∧
        s.station.pushed = cs.map (Copy.bytes single (startedPasses single Avionics.init fs)) ∧
        s.station.ground.accepted = s.station.pushed.flatten ∧ s.station.ground.underrun = false ∧
        s.station.ground.serial =
          (((cs.dropLast.map (Copy.packet single (startedPasses single Avionics.init fs))).filter (·.Valid)).map
            Packet.frame).flatten ∧
        ∀ past, ∃ t, Station.Step s.station (.loop past) t := by
  obtain ⟨fs, cs, hlog⟩ := (run_linked h).logged
  exact ⟨fs, hlog.flight, cs, hlog.sub, hlog.pushed, hlog.accepted, hlog.underrun, hlog.serial, hlog.goesOn⟩

/-! ## Four packets on the pad -/

def emptyPayload : Payload := ⟨[], by decide⟩

/-- the station reads and pushes the packet its modem hears -/
def heardAndPushed : List Act := [.heard rxDone] ++ List.replicate 5 (.station fun _ => 0)

/-- a pass at time m, its copy sent while the station polls, and what becomes of the packet -/
def sentAt (m : UInt32) (fate : List Act) : List Act :=
  [.flight (.loop (padReadings m allHigh)), .flight (.loop (padReadings m allHigh)), .flight .writeRadio,
    .station fun _ => 0, .flight .writeRadio] ++ fate ++ [.txInterrupt txDone emptyPayload, .flight .writeRadio]

/-- four packets, of which the second is lost -/
def fourSent : List Act :=
  sentAt 1 heardAndPushed ++ sentAt 2 [.lost] ++ sentAt 3 heardAndPushed ++ sentAt 4 heardAndPushed

theorem fourSent_trace :
    ∃ s, Trace (Step padSingle) (start (fun _ => 0) []) fourSent s ∧ s.flight.sent.length = 4 ∧
      s.station.pushed.length = 3 ∧ s.station.ground.serial.length = 138 ∧
      ∀ m ∈ s.station.pushed, chN ∉ m.drop 4 := by
  have hrun : ((fourSent.foldlM (advance padSingle 200) (start (fun _ => 0) [])).map fun s =>
      (s.flight.sent.length, s.station.pushed.length, s.station.ground.serial.length,
        decide (∀ m ∈ s.station.pushed, chN ∉ m.drop 4))) = some (4, 3, 138, true) := by
    decide +kernel
  obtain ⟨s, hs, hseen⟩ := Option.map_eq_some_iff.1 hrun
  simp only [Prod.mk.injEq, decide_eq_true_eq] at hseen
  obtain ⟨hsent, hpushed, hserial, hclean⟩ := hseen
  exact ⟨s, trace_of_steps (R := Step padSingle) (fun _ _ _ => advance_step) hs, hsent, hpushed, hserial, hclean⟩

/-- four copies taken, three of them pushed, and two frames on Serial -/
theorem telemetry_pad :
    ∃ (s : Link) (fs : List Avionics.Act) (cs : List Copy), Trace (Step padSingle) (start (fun _ => 0) []) fourSent s ∧
      s.flight = run (Avionics.step padSingle) Avionics.init fs ∧ s.flight.sent.length = 4 ∧ cs.length = 3 ∧
      cs.Sublist (copies padSingle Avionics.init fs) ∧
      s.station.pushed = cs.map (Copy.bytes padSingle (startedPasses padSingle Avionics.init fs)) ∧
      s.station.ground.serial.length = 138 ∧
      s.station.ground.serial =
        (((cs.dropLast.map (Copy.packet padSingle (startedPasses padSingle Avionics.init fs))).filter (·.Valid)).map
          Packet.frame).flatten := by
  obtain ⟨s, hs, hsent, hcount, hlen, -⟩ := fourSent_trace
  obtain ⟨fs, hfs, cs, hcs, hpushed, -, -, hserial, -⟩ := telemetry padSingle (fun _ => 0) [] fourSent s hs
  refine ⟨s, fs, cs, hs, hfs, hsent, ?_, hcs, hpushed, hlen, hserial⟩
  rw [← hcount, hpushed, List.length_map]

end NuStars.Telemetry
