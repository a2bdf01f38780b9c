import MoonFlare.Binary
import MoonFlare.CString
import MoonFlare.Drains

/-!
# Framing packets of the Magnum network

The framer of a passive tap on the bus: received bytes are buffered, and packets
are cut out of them by their content and by the order in which they follow one
another. The first inverter packet is only a candidate. It is held, with what
follows it, until a second one of the same model and revision comes exactly in
step. What is delivered is kept as a list of the calls of the packet function.
-/

namespace MoonFlare.Magnum

open Drains

/-- `mag_pkt_t`. -/
inductive MagPkt where
  | unknown
  | inverter
  | remote
  | agsA1
  | agsA2
  | bmk81
  | rtr91
  | ptC1
  | ptC2
  | ptC3
  | acldD1
  deriving DecidableEq

/-- A call of the packet function. -/
structure Delivery where
  type : MagPkt
  bytes : Bytes
  time : Double
  deriving DecidableEq

/-- `mag_frame_stats_t`. -/
structure MagFrameStats where
  bytesRead : ℕ
  packets : MagPkt → ℕ
  badPackets : ℕ
  unknownBytes : ℕ
  resyncs : ℕ
  ffBytes : ℕ

/-- `mag_held_t`. -/
structure MagHeld where
  type : MagPkt
  b : Bytes
  deriving DecidableEq

/-- What the framer waits for. -/
inductive MagState where
  | hunt
  | afterInv
  | afterRemote
  deriving DecidableEq

/-- `mag_frame_t`, with the calls of its packet function so far. -/
structure MagFrame where
  buf : Bytes
  state : MagState
  synced : Bool
  haveId : Bool
  invModel : UInt8
  invRevision : UInt8
  probing : Bool
  probeModel : UInt8
  probeRevision : UInt8
  held : List MagHeld
  sinceInv : ℕ
  lastRx : Double
  st : MagFrameStats
  delivered : List Delivery

/-- `MAG_BUF_SIZE`. -/
def magBufSize : ℕ := 4096

/-- `MAG_INV_LEN`. -/
def magInvLen : ℕ := 21

/-- `MAG_REMOTE_LEN`. -/
def magRemoteLen : ℕ := 21

/-- `MAG_IDLE_S`. -/
def magIdleS : Double := Double.ofRat (60 / 1000)

/-- `MAG_PROBE_S`. -/
def magProbeS : Double := Double.one

/-- `MAG_RELEARN_BYTES`. -/
def magRelearnBytes : ℕ := 4096

/-- `MAG_HELD_MAX`. -/
def magHeldMax : ℕ := 4

/-! ## Packets -/

/-- The byte at an offset. -/
def byteAt (p : Bytes) (i : ℕ) : UInt8 := p.getD i 0

/-- `be16s` of the bytes at an offset. -/
def be16s (p : Bytes) (i : ℕ) : ℤ :=
  let v : ℤ := (byteAt p i).toNat * 256 + (byteAt p (i + 1)).toNat
  if v < 2 ^ 15 then v else v - 2 ^ 16

/-- The codes of `k_models`. -/
def magModels : List UInt8 :=
  [0x06, 0x07, 0x08, 0x09, 0x0A, 0x0B, 0x0C, 0x0F, 0x14, 0x15, 0x19, 0x1E, 0x23, 0x24, 0x28, 0x2C,
    0x2D, 0x2F, 0x35, 0x36, 0x37, 0x3B, 0x3F, 0x45, 0x4A, 0x5A, 0x5B, 0x67, 0x68, 0x69, 0x6A, 0x6B,
    0x6F, 0x70, 0x72, 0x73, 0x74, 0x75]

/-- `mag_model_known`. -/
def magModelKnown (model : UInt8) : Bool := magModels.contains model

/-- `mag_stackmode_known`. -/
def magStackmodeKnown (stackmode : UInt8) : Bool := [0x00, 0x01, 0x02, 0x04, 0x08].contains stackmode

/-- `mag_multiplier`. -/
def magMultiplier (model : UInt8) : ℤ := if model ≤ 50 then 1 else if model ≤ 107 then 2 else 4

/-- `mag_reply_len`. -/
def magReplyLen (b : UInt8) : ℕ :=
  if b = 0x91 then 2
  else if b = 0xA1 then 6
  else if b = 0xA2 then 6
  else if b = 0xD1 then 8
  else if b = 0xC2 then 13
  else if b = 0xC3 then 14
  else if b = 0xC1 then 16
  else if b = 0x81 then 18
  else 0

/-- `reply_type`. -/
def replyType (b : UInt8) : MagPkt :=
  if b = 0x91 then .rtr91
  else if b = 0xA1 then .agsA1
  else if b = 0xA2 then .agsA2
  else if b = 0xD1 then .acldD1
  else if b = 0xC2 then .ptC2
  else if b = 0xC3 then .ptC3
  else if b = 0xC1 then .ptC1
  else if b = 0x81 then .bmk81
  else .unknown

/-- `remote_type_ok`. -/
def remoteTypeOk (b : UInt8) : Bool :=
  [0x00, 0x11, 0x80, 0xA0, 0xA1, 0xA2, 0xA3, 0xA4, 0xC0, 0xC1, 0xC2, 0xC3, 0xD0].contains b

/-- `mag_frame_is_inverter`. -/
def magFrameIsInverter (f : MagFrame) (p : Bytes) : Bool :=
  let freq := be16s p 18
  let vdc := be16s p 2
  byteAt p 20 == 0x00 &&
  (if f.haveId then byteAt p 14 == f.invModel && byteAt p 10 == f.invRevision
    else magModelKnown (byteAt p 14) && magStackmodeKnown (byteAt p 15)) &&
  decide (freq = 0 ∨ 400 ≤ freq ∧ freq ≤ 700) &&
  (decide (byteAt p 11 ≤ 150) && decide (byteAt p 12 ≤ 150) && decide (byteAt p 13 ≤ 150)) &&
  decide (0 ≤ vdc ∧ vdc ≤ 120 * magMultiplier (byteAt p 14) * 2)

/-- `reply_ok`: the status and the charge are `int8_t`s. -/
def replyOk (p : Bytes) : Bool :=
  if byteAt p 0 = 0xA1 then decide (byteAt p 1 ≤ 27)
  else if byteAt p 0 = 0x81 then decide (byteAt p 1 ≤ 100)
  else true

/-- `turnaround_byte`. -/
def turnaroundByte (b : UInt8) : Bool :=
  b == 0xFF || b == 0xFE || b == 0xFC || b == 0xF8 || b == 0xF0

/-! ## Delivering -/

/-- `deliver`. -/
def deliver (f : MagFrame) (t : MagPkt) (p : Bytes) : MagFrame :=
  { f with
    st := if t = .unknown then f.st
      else { f.st with packets := Function.update f.st.packets t (f.st.packets t + 1) }
    delivered := f.delivered ++ [⟨t, p, f.lastRx⟩] }

/-- `held_flush`. -/
def heldFlush (f : MagFrame) : MagFrame :=
  { f.held.foldl (fun f h => deliver f h.type h.b) f with held := [] }

/-- Count bytes that are part of no packet. -/
def addUnknown (f : MagFrame) (n : ℕ) : MagFrame :=
  { f with st := { f.st with unknownBytes := f.st.unknownBytes + n } }

/-- Count a packet that failed validation or was cut short. -/
def addBad (f : MagFrame) : MagFrame :=
  { f with st := { f.st with badPackets := f.st.badPackets + 1 } }

/-- `held_drop`. -/
def heldDrop (f : MagFrame) : MagFrame :=
  { f.held.foldl (fun f h => deliver (addUnknown f h.b.length) .unknown h.b) f with
    held := [], probing := false }

/-- `emit`. -/
def emit (f : MagFrame) (t : MagPkt) (p : Bytes) : MagFrame :=
  if f.probing ∧ t ≠ .unknown then
    if f.held.length < magHeldMax ∧ p.length ≤ magInvLen then
      { f with held := f.held ++ [⟨t, p⟩] }
    else deliver (addUnknown (heldDrop f) p.length) .unknown p
  else deliver f t p

/-- `skip`. -/
def skip (f : MagFrame) (n : ℕ) : MagFrame :=
  if n = 0 then f
  else
    let f := if f.probing then heldDrop f else f
    let f := emit (addUnknown f n) .unknown (f.buf.take n)
    if f.synced then { f with st := { f.st with resyncs := f.st.resyncs + 1 }, synced := false }
    else f

/-! ## One round -/

/-- What a round uses: bytes of the buffer, or none with another state. -/
inductive Used where
  | changed
  | bytes (n : ℕ)
  deriving DecidableEq

/-- The first offset at which a whole window passes as an inverter packet. -/
def firstInverter (f : MagFrame) : Option ℕ :=
  (List.range (f.buf.length + 1 - magInvLen)).find? fun i => magFrameIsInverter f (f.buf.drop i)

/-- The candidate at the front of the buffer, when the inverter is not known. -/
def probe (f : MagFrame) : MagFrame :=
  if f.probing ∧ f.synced ∧ byteAt f.buf 14 = f.probeModel ∧ byteAt f.buf 10 = f.probeRevision then
    heldFlush { f with
      probing := false, haveId := true, invModel := byteAt f.buf 14, invRevision := byteAt f.buf 10 }
  else
    let f := if f.probing then heldDrop f else f
    { f with probing := true, probeModel := byteAt f.buf 14, probeRevision := byteAt f.buf 10 }

/-- `hunt`. -/
def hunt (f : MagFrame) : MagFrame × Used :=
  if f.buf.length < magInvLen then (f, .bytes 0)
  else
    match firstInverter f with
    | none =>
      let drop := f.buf.length - (magInvLen - 1)
      (skip f drop, .bytes drop)
    | some i =>
      if 0 < i then (skip f i, .bytes i)
      else
        let f := if f.haveId then f else probe f
        let f := { f with sinceInv := 0, synced := true }
        let f := emit f .inverter (f.buf.take magInvLen)
        ({ f with state := .afterInv }, .bytes magInvLen)

/-- A stray byte in front of the remote's or the next inverter's packet. -/
def strayInFront (f : MagFrame) : Bool :=
  turnaroundByte (byteAt f.buf 0) &&
    (remoteTypeOk (byteAt f.buf magRemoteLen) || magFrameIsInverter f (f.buf.drop 1))

/-- `after_inv`. -/
def afterInv (f : MagFrame) : MagFrame × Used :=
  if f.buf.length < magRemoteLen then (f, .bytes 0)
  else if turnaroundByte (byteAt f.buf 0) ∧ f.buf.length < magRemoteLen + 1 then (f, .bytes 0)
  else if strayInFront f then (f, .bytes 1)
  else if remoteTypeOk (byteAt f.buf 20) ∧
      ¬(byteAt f.buf 20 = 0x00 ∧ magFrameIsInverter f f.buf) then
    let f := emit f .remote (f.buf.take magRemoteLen)
    ({ f with state := .afterRemote }, .bytes magRemoteLen)
  else if magFrameIsInverter f f.buf then ({ f with state := .hunt }, .changed)
  else ({ addBad f with state := .hunt }, .changed)

/-- `after_remote`. -/
def afterRemote (f : MagFrame) : MagFrame × Used :=
  if f.buf.length < 1 then (f, .bytes 0)
  else
    let n := magReplyLen (byteAt f.buf 0)
    if n = 0 then ({ f with state := .hunt }, .changed)
    else if f.buf.length < n then (f, .bytes 0)
    else
      let f := { f with state := .hunt }
      if !replyOk f.buf then (addBad f, .changed)
      else (emit f (replyType (byteAt f.buf 0)) (f.buf.take n), .bytes n)

/-- `consume`. -/
def consume (f : MagFrame) (n : ℕ) : MagFrame := { f with buf := f.buf.drop n }

/-- What the state makes of the buffer. -/
def use (f : MagFrame) : MagFrame × Used :=
  match f.state with
  | .hunt => hunt f
  | .afterInv => afterInv f
  | .afterRemote => afterRemote f

/-- A round of `process`, which returns when nothing is used. -/
def round (f : MagFrame) : Option MagFrame :=
  match use f with
  | (f, .changed) => some f
  | (f, .bytes n) => if n = 0 then none else some (consume f n)

/-- The rounds a framer can still make are bounded by its buffer. -/
def budget (f : MagFrame) : ℕ := 2 * f.buf.length + if f.state = .hunt then 0 else 1

/-- `process`. -/
def process (f : MagFrame) : MagFrame := drain round budget f

/-! ## The calls -/

/-- `mag_frame_init`. -/
def magFrameInit : MagFrame :=
  { buf := [], state := .hunt, synced := false, haveId := false, invModel := 0, invRevision := 0
    probing := false, probeModel := 0, probeRevision := 0, held := [], sinceInv := 0
    lastRx := Double.zero, st := ⟨0, fun _ => 0, 0, 0, 0, 0⟩, delivered := [] }

/-- `mag_frame_reset_stream`. -/
def magFrameResetStream (f : MagFrame) : MagFrame :=
  { f with buf := [], state := .hunt, synced := false, sinceInv := 0, probing := false, held := [] }

/-- The bytes that follow the last inverter packet are too many for the
inverter to be taken as known. -/
def forgets (f : MagFrame) (n : ℕ) : Bool := f.haveId && decide (magRelearnBytes < f.sinceInv + n)

/-- What `mag_frame_feed` notes about new bytes before it buffers them. -/
def noteBytes (f : MagFrame) (data : Bytes) (now : Double) : MagFrame :=
  { f with
    lastRx := now
    st := { f.st with
      bytesRead := f.st.bytesRead + data.length
      ffBytes := f.st.ffBytes + data.count 0xFF }
    sinceInv := f.sinceInv + data.length
    haveId := if forgets f data.length then false else f.haveId }

/-- Bytes join the buffer. -/
def append (f : MagFrame) (data : Bytes) : MagFrame := { f with buf := f.buf ++ data }

/-- The loop of `mag_frame_feed`: as many bytes as there is room for, then the
rest. -/
def feedLoop : ℕ → MagFrame → Bytes → MagFrame
  | 0, f, _ => f
  | fuel + 1, f, data =>
    if data = [] then f
    else
      let room := magBufSize - f.buf.length
      feedLoop fuel (process (append f (data.take room))) (data.drop room)

/-- `mag_frame_feed`. One round may find the buffer full; every other one takes
a byte or more. -/
def magFrameFeed (f : MagFrame) (data : Bytes) (now : Double) : MagFrame :=
  if data = [] then f else feedLoop (data.length + 1) (noteBytes f data now) data

/-- `mag_frame_idle`. -/
def magFrameIdle (f : MagFrame) (now : Double) : MagFrame :=
  let quiet := now.sub f.lastRx
  let f := if f.probing ∧ quiet.ge magProbeS then heldDrop f else f
  if f.buf = [] ∨ quiet.lt magIdleS then f
  else
    let f := if f.state ≠ .hunt then addBad f else f
    let f := emit (addUnknown f f.buf.length) .unknown f.buf
    { f with buf := [], state := .hunt }

/-- An inverter packet of an MS4448PAE. -/
def inverterPacket : Bytes :=
  [0x40, 0, 0x01, 0xE0, 0, 0, 0, 0, 0, 0, 0x34, 25, 25, 25, 0x73, 0, 0, 0, 0x02, 0x58, 0]

end MoonFlare.Magnum
