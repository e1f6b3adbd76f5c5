/-
The LoRa driver both boards use (RH_RF95.cpp, RHGenericDriver.cpp of RadioHead).

`handleInterrupt` runs at any time; everything else is called by the programs. A packet on the air is the four header
bytes To, From, Id and Flags, and then the data. The driver has one receive buffer, `_buf`, which the interrupt handler
overwrites with every packet it gets while the mode is Rx, whether or not the last one has been read.

`recv` is given in its three parts, since an interrupt may come between them: `available`, `copyOut` (its atomic block)
and `clearRxBuf`. `send` is given from behind `waitPacketSent`. `_cad_timeout` is 0 in both programs, so `waitCAD`
returns at once. `copyOut` may read behind `_buf`; the bytes there are a parameter (`past`).

- `interrupt_moves`: what an interrupt can do;
- `copyOut_spec`: what `recv` copies for a packet of any length, the bytes behind its header or, when there is no whole
  header, 252 bytes and more that are no packet's data.
-/
import Mathlib.Tactic

namespace NuStars.Radio

/-! ## Model -/

/-- `RHMode` -/
inductive RHMode where
  | initialising
  | sleep
  | idle
  | tx
  | rx
  | cad
deriving DecidableEq, Repr

/-- `RH_RF95_HEADER_LEN` -/
def headerLen : ℕ := 4

/-- `RH_RF95_MAX_PAYLOAD_LEN` -/
def maxPayloadLen : ℕ := 255

/-- `RH_RF95_MAX_MESSAGE_LEN` -/
def maxMessageLen : ℕ := maxPayloadLen - headerLen

/-- `RH_BROADCAST_ADDRESS` -/
def broadcastAddress : UInt8 := 0xFF

/-- RH_RF95_RX_TIMEOUT, PAYLOAD_CRC_ERROR, RX_DONE, TX_DONE, CAD_DONE and CAD_DETECTED -/
def rxTimeout : UInt8 := 0x80
def payloadCrcError : UInt8 := 0x20
def rxDone : UInt8 := 0x40
def txDone : UInt8 := 0x08
def cadDone : UInt8 := 0x04
def cadDetected : UInt8 := 0x01

/-- a packet in the FIFO of the modem, its headers included; RX_NB_BYTES is its length -/
structure Payload where
  bytes : List UInt8
  le : bytes.length ≤ maxPayloadLen
deriving DecidableEq, Repr

structure RF95 where
  mode : RHMode
  thisAddress : UInt8
  promiscuous : Bool
  txHeaderTo : UInt8
  txHeaderFrom : UInt8
  txHeaderId : UInt8
  txHeaderFlags : UInt8
  rxHeaderTo : UInt8
  rxHeaderFrom : UInt8
  rxHeaderId : UInt8
  rxHeaderFlags : UInt8
  rxBad : UInt16
  rxGood : UInt16
  txGood : UInt16
  cad : Bool
  bufLen : UInt8
  buf : List UInt8
  rxBufValid : Bool
  size : buf.length = maxPayloadLen
deriving DecidableEq, Repr

/-- a global object after its constructor and `init()` -/
def RF95.init : RF95 where
  mode := .idle
  thisAddress := broadcastAddress
  promiscuous := false
  txHeaderTo := broadcastAddress
  txHeaderFrom := broadcastAddress
  txHeaderId := 0
  txHeaderFlags := 0
  rxHeaderTo := 0
  rxHeaderFrom := 0
  rxHeaderId := 0
  rxHeaderFlags := 0
  rxBad := 0
  rxGood := 0
  txGood := 0
  cad := false
  bufLen := 0
  buf := List.replicate maxPayloadLen 0
  rxBufValid := false
  size := List.length_replicate

/-- the common part of the functions below: the mode is set unless it is the current one -/
def RF95.setMode (d : RF95) (m : RHMode) : RF95 := { d with mode := m }

def RF95.setModeIdle (d : RF95) : RF95 := d.setMode .idle
def RF95.setModeRx (d : RF95) : RF95 := d.setMode .rx
def RF95.setModeTx (d : RF95) : RF95 := d.setMode .tx

theorem burstRead_size (d : RF95) (p : Payload) :
    (p.bytes ++ d.buf.drop p.bytes.length).length = maxPayloadLen := by
  have hle := p.le
  have hsize := d.size
  rw [List.length_append, List.length_drop, hsize]
  omega

/-- `spiBurstRead(RH_RF95_REG_00_FIFO, _buf, len)` and `_bufLen = len` -/
def RF95.burstRead (d : RF95) (p : Payload) : RF95 :=
  { d with
    buf := p.bytes ++ d.buf.drop p.bytes.length
    bufLen := UInt8.ofNat p.bytes.length
    size := burstRead_size d p }

/-- whether a message with this To header is for us -/
def RF95.addressed (d : RF95) (headerTo : UInt8) : Bool :=
  d.promiscuous || headerTo == d.thisAddress || headerTo == broadcastAddress

/-- "Extract the 4 headers" -/
def RF95.extractHeaders (d : RF95) : RF95 :=
  { d with
    rxHeaderTo := d.buf.getD 0 0
    rxHeaderFrom := d.buf.getD 1 0
    rxHeaderId := d.buf.getD 2 0
    rxHeaderFlags := d.buf.getD 3 0 }

def RF95.validateRxBuf (d : RF95) : RF95 :=
  if d.bufLen < 4 then d
  else if d.extractHeaders.addressed d.extractHeaders.rxHeaderTo then
    { d.extractHeaders with rxGood := d.rxGood + 1, rxBufValid := true }
  else d.extractHeaders

/-- `handleInterrupt` with the interrupt flags and the packet in the FIFO -/
def RF95.handleInterrupt (d : RF95) (irqFlags : UInt8) (p : Payload) : RF95 :=
  if d.mode = .rx ∧ irqFlags &&& (rxTimeout ||| payloadCrcError) ≠ 0 then { d with rxBad := d.rxBad + 1 }
  else if d.mode = .rx ∧ irqFlags &&& rxDone ≠ 0 then
    let d := (d.burstRead p).validateRxBuf
    if d.rxBufValid then d.setModeIdle else d
  else if d.mode = .tx ∧ irqFlags &&& txDone ≠ 0 then { d with txGood := d.txGood + 1 }.setModeIdle
  else if d.mode = .cad ∧ irqFlags &&& cadDone ≠ 0 then
    { d with cad := decide (irqFlags &&& cadDetected ≠ 0) }.setModeIdle
  else d

def RF95.available (d : RF95) : Bool × RF95 :=
  if d.mode = .tx then (false, d) else (d.setModeRx.rxBufValid, d.setModeRx)

/-- the atomic block of `recv`: the new `*len`, and the bytes copied; `_bufLen-RH_RF95_HEADER_LEN` is an int, and
`*len` takes its low byte -/
def RF95.copyOut (d : RF95) (past : ℕ → UInt8) (len : UInt8) : UInt8 × List UInt8 :=
  let len := if (len.toNat : ℤ) > d.bufLen.toNat - headerLen then d.bufLen - 4 else len
  (len, (d.buf.drop headerLen ++ (List.range len.toNat).map past).take len.toNat)

def RF95.clearRxBuf (d : RF95) : RF95 := { d with rxBufValid := false, bufLen := 0 }

/-- the headers `send` writes in front of the data -/
def RF95.txHeaders (d : RF95) : List UInt8 := [d.txHeaderTo, d.txHeaderFrom, d.txHeaderId, d.txHeaderFlags]

theorem send_le (d : RF95) {data : List UInt8} (h : data.length ≤ maxMessageLen) :
    (d.txHeaders ++ data).length ≤ maxPayloadLen := by
  have hlen : d.txHeaders.length = headerLen := rfl
  rw [List.length_append, hlen]
  unfold maxMessageLen headerLen maxPayloadLen at *
  omega

/-- `send`: the packet that goes on the air, and the driver with the transmitter on -/
def RF95.send (d : RF95) (data : List UInt8) : Option (Payload × RF95) :=
  if h : data.length ≤ maxMessageLen then
    some (⟨d.txHeaders ++ data, send_le d h⟩, d.setModeIdle.setModeTx)
  else none

/-! ## Interrupts -/

/-- the flags of a packet that came in without an error -/
def received (irqFlags : UInt8) : Bool :=
  irqFlags &&& (rxTimeout ||| payloadCrcError) = 0 ∧ irqFlags &&& rxDone ≠ 0

/-- the bytes of the packet that was read last -/
def RF95.held (d : RF95) : List UInt8 := d.buf.take d.bufLen.toNat

theorem bufLen_burstRead (d : RF95) (p : Payload) : (d.burstRead p).bufLen.toNat = p.bytes.length := by
  have hle : p.bytes.length < 256 := Nat.lt_succ_of_le p.le
  calc (d.burstRead p).bufLen.toNat = p.bytes.length % 256 := UInt8.toNat_ofNat'
    _ = p.bytes.length := Nat.mod_eq_of_lt hle

theorem burstRead_held (d : RF95) (p : Payload) : (d.burstRead p).held = p.bytes := by
  rw [RF95.held, bufLen_burstRead]
  exact List.take_left' rfl

/-- a packet that `validateRxBuf` accepts: it has its four headers, and is for us -/
def Proper (d : RF95) (bytes : List UInt8) : Prop :=
  headerLen ≤ bytes.length ∧ d.addressed (bytes.getD 0 0) = true

instance (d : RF95) (bytes : List UInt8) : Decidable (Proper d bytes) := by unfold Proper; infer_instance

/-- d' is d but for the counters and the headers of the last message -/
structure SameBuffer (d d' : RF95) : Prop where
  valid : d'.rxBufValid = d.rxBufValid
  held : d'.held = d.held
  len : d'.bufLen = d.bufLen
  mode : d'.mode = d.mode ∨ d'.mode = .idle
  address : d'.addressed = d.addressed

/-- what an interrupt can do -/
inductive Interrupts (d : RF95) (irqFlags : UInt8) (p : Payload) : RF95 → Prop where
  /-- the packet is read into `_buf`, and leaves it valid or not -/
  | read (d' : RF95) (hmode : d.mode = .rx) (hrec : received irqFlags = true) (hheld : d'.held = p.bytes)
      (hvalid : d'.rxBufValid = true ↔ d.rxBufValid = true ∨ Proper d p.bytes)
      (hmode' : d'.mode = if d'.rxBufValid then .idle else .rx) (haddr : d'.addressed = d.addressed) :
      Interrupts d irqFlags p d'
  | other (d' : RF95) (hno : ¬ (d.mode = .rx ∧ received irqFlags = true)) (hsame : SameBuffer d d') :
      Interrupts d irqFlags p d'

theorem validateRxBuf_spec (d : RF95) :
    d.validateRxBuf.held = d.held ∧ d.validateRxBuf.mode = d.mode ∧ d.validateRxBuf.addressed = d.addressed ∧
      (d.validateRxBuf.rxBufValid = true ↔
        d.rxBufValid = true ∨ 4 ≤ d.bufLen.toNat ∧ d.addressed (d.buf.getD 0 0) = true) := by
  have hlt : d.bufLen < 4 ↔ d.bufLen.toNat < 4 := UInt8.lt_iff_toNat_lt
  unfold RF95.validateRxBuf
  by_cases hshort : d.bufLen < 4
  · rw [if_pos hshort]
    have hno : ¬ 4 ≤ d.bufLen.toNat := not_le.2 (hlt.1 hshort)
    exact ⟨rfl, rfl, rfl, by simp [hno]⟩
  · rw [if_neg hshort]
    have hlong : 4 ≤ d.bufLen.toNat := not_lt.1 fun h => hshort (hlt.2 h)
    by_cases haddr : d.addressed (d.buf.getD 0 0) = true
    · have haddr' : d.extractHeaders.addressed d.extractHeaders.rxHeaderTo = true := haddr
      rw [if_pos haddr']
      exact ⟨rfl, rfl, rfl, iff_of_true rfl (Or.inr ⟨hlong, haddr⟩)⟩
    · have haddr' : ¬ d.extractHeaders.addressed d.extractHeaders.rxHeaderTo = true := haddr
      rw [if_neg haddr']
      refine ⟨rfl, rfl, rfl, Or.inl, ?_⟩
      intro h
      rcases h with hvalid | ⟨-, hyes⟩
      · exact hvalid
      · exact absurd hyes haddr

theorem burstRead_proper (d : RF95) (p : Payload) :
    4 ≤ (d.burstRead p).bufLen.toNat ∧ (d.burstRead p).addressed ((d.burstRead p).buf.getD 0 0) = true ↔
      Proper d p.bytes := by
  have hlen : (d.burstRead p).bufLen.toNat = p.bytes.length := bufLen_burstRead d p
  rw [hlen, Proper, headerLen]
  apply and_congr_right
  intro h4
  have hget : (d.burstRead p).buf.getD 0 0 = p.bytes.getD 0 0 := by
    simp only [RF95.burstRead, List.getD_eq_getElem?_getD]
    rw [List.getElem?_append_left (by omega)]
  rw [hget]
  rfl

/-- the branch of a packet that came in without an error -/
theorem interrupt_read (d : RF95) {irqFlags : UInt8} (p : Payload) (hmode : d.mode = .rx)
    (hrec : received irqFlags = true) :
    d.handleInterrupt irqFlags p =
      if (d.burstRead p).validateRxBuf.rxBufValid then (d.burstRead p).validateRxBuf.setModeIdle
      else (d.burstRead p).validateRxBuf := by
  obtain ⟨hok, hdone⟩ := of_decide_eq_true hrec
  rw [RF95.handleInterrupt, if_neg (fun h => h.2 hok), if_pos ⟨hmode, hdone⟩]

/-- **Every interrupt is one of the moves.** -/
theorem interrupt_moves (d : RF95) (irqFlags : UInt8) (p : Payload) :
    Interrupts d irqFlags p (d.handleInterrupt irqFlags p) := by
  by_cases hread : d.mode = .rx ∧ received irqFlags = true
  · obtain ⟨hmode, hrec⟩ := hread
    obtain ⟨hheld, hmode', haddr, hval⟩ := validateRxBuf_spec (d.burstRead p)
    rw [burstRead_proper] at hval
    rw [burstRead_held] at hheld
    rw [interrupt_read d p hmode hrec]
    split_ifs with hvalid
    · refine .read _ hmode hrec hheld ?_ ?_ haddr
      · exact hval
      · exact (if_pos hvalid).symm
    · refine .read _ hmode hrec hheld ?_ ?_ haddr
      · exact hval
      · rw [if_neg hvalid]
        exact hmode'.trans hmode
  · refine .other _ hread ?_
    unfold RF95.handleInterrupt
    split_ifs with hbad hdone htx hcad
    · exact ⟨rfl, rfl, rfl, Or.inl rfl, rfl⟩
    · have hrec : received irqFlags = true := by
        refine decide_eq_true ⟨?_, hdone.2⟩
        by_contra hne
        exact hbad ⟨hdone.1, hne⟩
      exact absurd ⟨hdone.1, hrec⟩ hread
    · exact ⟨rfl, rfl, rfl, Or.inr rfl, rfl⟩
    · exact ⟨rfl, rfl, rfl, Or.inr rfl, rfl⟩
    · exact ⟨rfl, rfl, rfl, Or.inl rfl, rfl⟩

theorem validateRxBuf_txHeaders (d : RF95) : d.validateRxBuf.txHeaders = d.txHeaders := by
  unfold RF95.validateRxBuf
  split_ifs
  all_goals rfl

/-- an interrupt changes nothing in what is sent with the next message -/
theorem handleInterrupt_txHeaders (d : RF95) (irqFlags : UInt8) (p : Payload) :
    (d.handleInterrupt irqFlags p).txHeaders = d.txHeaders := by
  have hread : (d.burstRead p).validateRxBuf.txHeaders = d.txHeaders := validateRxBuf_txHeaders (d.burstRead p)
  unfold RF95.handleInterrupt
  split_ifs
  · rfl
  · show (if (d.burstRead p).validateRxBuf.rxBufValid then (d.burstRead p).validateRxBuf.setModeIdle
      else (d.burstRead p).validateRxBuf).txHeaders = _
    split_ifs
    · exact hread
    · exact hread
  · rfl
  · rfl
  · rfl

/-! ## Messages -/

/-- what `recv` makes of a packet when it is asked for up to 255 bytes: the data behind the headers, or more than a
whole message when the packet is too short to have them -/
def Delivers (bytes m : List UInt8) : Prop :=
  if headerLen ≤ bytes.length then m = bytes.drop headerLen else m.length = 252 + bytes.length

theorem held_length (d : RF95) : d.held.length = d.bufLen.toNat := by
  have hlt : d.bufLen.toNat < 256 := d.bufLen.toNat_lt
  have hsize : d.buf.length = 255 := d.size
  rw [RF95.held, List.length_take, hsize]
  omega

/-- the test of `recv` holds for any packet: a packet has at most 255 bytes -/
theorem copyOut_len (d : RF95) (past : ℕ → UInt8) : (d.copyOut past 255).1 = d.bufLen - 4 := by
  have hlt : d.bufLen.toNat < 256 := d.bufLen.toNat_lt
  apply if_pos
  have h255 : ((255 : UInt8).toNat : ℤ) = 255 := rfl
  unfold headerLen
  rw [h255]
  omega

/-- **What `recv` copies.** -/
theorem copyOut_spec (d : RF95) (past : ℕ → UInt8) :
    (d.copyOut past 255).2.length = (d.copyOut past 255).1.toNat ∧ Delivers d.held (d.copyOut past 255).2 := by
  have hlt : d.bufLen.toNat < 256 := d.bufLen.toNat_lt
  have hsize : d.buf.length = 255 := d.size
  have hcopied : (d.copyOut past 255).2 =
      (d.buf.drop headerLen ++ (List.range (d.bufLen - 4).toNat).map past).take (d.bufLen - 4).toNat := by
    rw [← copyOut_len d past]
    rfl
  have hlen : (d.copyOut past 255).2.length = (d.bufLen - 4).toNat := by
    rw [hcopied, List.length_take, List.length_append, List.length_map, List.length_range]
    exact Nat.min_eq_left (Nat.le_add_left _ _)
  have hsub : (d.bufLen - 4).toNat = (256 - 4 + d.bufLen.toNat) % 256 := UInt8.toNat_sub d.bufLen 4
  refine ⟨by rw [hlen, copyOut_len], ?_⟩
  unfold Delivers
  rw [held_length]
  split_ifs with h4
  · have hn : (d.bufLen - 4).toNat = d.bufLen.toNat - headerLen := by
      unfold headerLen at h4 ⊢
      omega
    have hin : d.bufLen.toNat - headerLen ≤ (d.buf.drop headerLen).length := by
      rw [List.length_drop]
      omega
    rw [hcopied, hn, List.take_append_of_le_length hin, RF95.held, List.drop_take]
  · unfold headerLen at h4
    rw [hlen, hsub]
    omega

end NuStars.Radio
