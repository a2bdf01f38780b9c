import MoonFlare.Arithmetic
import MoonFlare.JkFrames
import MoonFlare.Plugin

/-!
# Register writes of the JK battery

Settings of a battery are written register by register. A request decides which
registers to write, puts the writes into a queue of six and shows the new values
at once; the pump takes one write from the queue every 0.35 s and puts a line for
it into the output of the helper. An action puts its line there directly.
Voltages and times are numbers of any arithmetic: the doubles of the code, with the
voltages that a `float` keeps rounded to one, or exact numbers. Beside the context a
ledger records what became of every write, which the code does not keep.
-/

namespace MoonFlare.JkWrites

open Jk Arithmetic

section Voltages

variable {V : Type} [Arithmetic V]

/-! ## Voltages -/

/-- `round3`. -/
def round3 (v : V) : V :=
  if le (lit 0) v then thousandths (toLong (add (mul v (lit 1000)) (lit (1 / 2))))
  else thousandths (toLong (sub (mul v (lit 1000)) (lit (1 / 2))))

/-- A value held between two bounds. -/
def saturate (low high v : V) : V := if lt v low then low else if lt high v then high else v

/-- `jk_clamp_trigger_v`, from `JK_TRIGGER_MIN_V` to `JK_TRIGGER_MAX_V`. -/
def jkClampTriggerV (volts : V) : V := saturate (lit (3 / 1000)) (lit 1) (round3 volts)

/-- `jk_clamp_start_v`, from `JK_START_MIN_V` to `JK_START_MAX_V`. -/
def jkClampStartV (volts : V) : V := saturate (lit (120 / 100)) (lit (425 / 100)) (round3 volts)

/-- `JK_OVP_MIN_V`. -/
def jkOvpMinV : V := lit (250 / 100)

/-- `JK_OVP_MAX_V`. -/
def jkOvpMaxV : V := lit (420 / 100)

/-- `JK_OVPR_GAP_V`. -/
def jkOvprGapV : V := lit (10 / 100)

/-- `jk_clamp_ovp_v`. -/
def jkClampOvpV (volts : V) : V := saturate jkOvpMinV jkOvpMaxV (round3 volts)

/-- `jk_clamp_ovpr_v`. -/
def jkClampOvprV (volts ovpV : V) : V :=
  let ovpV := jkClampOvpV ovpV
  let cap := round3 (sub ovpV jkOvprGapV)
  let cap := if lt cap (sub jkOvpMinV jkOvprGapV) then sub jkOvpMinV jkOvprGapV else cap
  let v := round3 volts
  let v := if lt cap v then cap else v
  if lt v (lit (240 / 100)) then lit (240 / 100) else v

/-- `jk_volts_to_mv`. -/
def jkVoltsToMv (volts : V) : ℕ :=
  if le (lit 0) volts then (toLong (add (mul volts (lit 1000)) (lit (1 / 2)))).toNat else 0

end Voltages

/-! ## Commands -/

/-- `JK_REG_CELL_OVP`. -/
def jkRegCellOvp : UInt8 := 0x04

/-- `JK_REG_CELL_OVPR`. -/
def jkRegCellOvpr : UInt8 := 0x05

/-- `JK_REG_BALANCE_TRIGGER`. -/
def jkRegBalanceTrigger : UInt8 := 0x06

/-- `JK_REG_CELL_RCV`. -/
def jkRegCellRcv : UInt8 := 0x09

/-- `JK_REG_START_BALANCE_JK02_32S`. -/
def jkRegStartBalance : UInt8 := 0x22

/-- `JK_REG_CHARGE`. -/
def jkRegCharge : UInt8 := 0x1D

/-- `JK_REG_DISCHARGE`. -/
def jkRegDischarge : UInt8 := 0x1E

/-- `JK_REG_BALANCE`. -/
def jkRegBalance : UInt8 := 0x1F

/-- `JK_CMD_CELL_INFO`. -/
def jkCmdCellInfo : UInt8 := 0x96

/-- `JK_CMD_DEVICE_INFO`. -/
def jkCmdDeviceInfo : UInt8 := 0x97

/-- `JK_HEADER_CMD`. -/
def jkHeaderCmd : Bytes := [0xAA, 0x55, 0x90, 0xEB]

/-- `jk_build_command`: a value of at most 13 bytes, or the counter at offset
16. -/
def jkBuildCommand (cmd : UInt8) (value : Bytes) (counter : UInt8) : Bytes :=
  let payload := if value = [] then List.replicate 10 0 ++ [counter, 0, 0]
    else value.take 13 ++ List.replicate (13 - value.length) 0
  let body := jkHeaderCmd ++ [cmd, UInt8.ofNat value.length] ++ payload
  body ++ [jkCrc8 body]

/-- `jk_build_register_cmd`; the command of a switch is that of the value 1 or
0. -/
def jkBuildRegisterCmd (reg : UInt8) (value : ℕ) : Bytes :=
  jkBuildCommand reg [UInt8.ofNat value, UInt8.ofNat (value / 2 ^ 8), UInt8.ofNat (value / 2 ^ 16),
    UInt8.ofNat (value / 2 ^ 24)] 0

/-- A register write. -/
structure Write where
  /-- Its number among all writes decided on, which the code does not keep. -/
  id : ℕ
  /-- It goes through the queue. -/
  paced : Bool
  reg : UInt8
  value : ℕ
  deriving DecidableEq

/-- A line for the helper. -/
inductive Line where
  | connect
  | command (bytes : Bytes)
  | register (w : Write)
  deriving DecidableEq

/-- The two hexadecimal digits of a byte, as `hex_encode` writes them. -/
def hexPair (b : UInt8) : Bytes :=
  let digit (n : ℕ) : UInt8 := UInt8.ofNat (if n < 10 then 48 + n else 87 + n)
  [digit (b.toNat / 16), digit (b.toNat % 16)]

/-- The line of `queue_hex_write`. -/
def writeText (mac : CBuf 32) (cmd : Bytes) : Bytes :=
  (ascii "\x7b\"cmd\":\"write\",\"address\":\"" ++ mac.str.bytes ++ ascii "\",\"hex\":\"" ++
    cmd.flatMap hexPair ++ ascii "\",\"response\":false\x7d").take 191

/-- The text of a line. -/
def lineText (mac : CBuf 32) : Line → Bytes
  | .connect =>
    (ascii "\x7b\"cmd\":\"connect\",\"address\":\"" ++ mac.str.bytes ++ ascii "\"\x7d").take 127
  | .command bytes => writeText mac bytes
  | .register w => writeText mac (jkBuildRegisterCmd w.reg w.value)

/-! ## The context -/

/-- The settings that are shown and written. -/
inductive Field where
  | cellOvp
  | cellOvpr
  | cellRcv
  | trigger
  | start
  deriving DecidableEq

/-- `jk_settings_t`: what a settings frame reports of them, in millivolts. -/
structure Report where
  cellOvp : ℕ
  cellOvpr : ℕ
  cellRcv : ℕ
  trigger : ℕ
  start : ℕ
  deriving DecidableEq

/-- The writes decided on and those put into the output. -/
structure Account where
  decided : List Write
  given : List Write

/-- What became of the writes. The accounts are those since the connection last
dropped. -/
structure Ledger where
  /-- The number of writes decided on so far. -/
  next : ℕ
  /-- The writes that go through the queue. -/
  paced : Account
  /-- The writes of actions. -/
  direct : Account
  /-- The writes thrown away. -/
  discarded : List ℕ
  /-- The write a setting shows the value of, unless it was reported. -/
  shown : Field → Option ℕ
  /-- The last report. -/
  reported : Option Report
  /-- The writes put into the queue since. -/
  queued : List Write

/-- The states of the connection. -/
inductive LinkState where
  | idle
  | connecting
  | handshake
  | stream
  deriving DecidableEq

/-- `jk_ctx_t`: what register writes go through and what they change. -/
structure JkCtx (V : Type) where
  mac : CBuf 32
  pollIntervalS : V
  /-- A descriptor is open. -/
  fd : Bool
  state : LinkState
  handshakeOk : Bool
  nextTry : V
  /-- The lines in the output buffer. -/
  out : List Line
  outOff : ℕ
  /-- The values of a `float`, as the two below. -/
  cellOvpV : V
  cellOvprV : V
  cellRcvV : V
  haveSettings : Bool
  wantSettings : Bool
  balWant : Option Bool
  haveTrigger : Bool
  haveStart : Bool
  needCellReq : Bool
  lastCellReq : V
  lastSettingsReq : V
  /-- The first `wq_n` entries of `wq_reg` and `wq_val`. -/
  wq : List Write
  wqI : ℕ
  wqNext : V
  triggerV : V
  startV : V
  ledger : Ledger

variable {V : Type}

/-- `LINE_CAP`. -/
def lineCap : ℕ := 4096

/-- The size of the queue. -/
def wqCap : ℕ := 6

/-- The bytes lines take in the output buffer. -/
def bytesIn (mac : CBuf 32) (lines : List Line) : ℕ :=
  (lines.map fun l => (lineText mac l).length + 1).sum

/-- `out_len`. -/
def outLen (c : JkCtx V) : ℕ := bytesIn c.mac c.out

/-- There is room for a line. -/
def Room (c : JkCtx V) (line : Line) : Prop := outLen c + (lineText c.mac line).length + 1 < lineCap

instance (c : JkCtx V) (line : Line) : Decidable (Room c line) := by
  unfold Room
  infer_instance

/-- The writes still in the queue. -/
def pending (c : JkCtx V) : List Write := c.wq.drop c.wqI

/-- The lines not all written, of those behind an offset. -/
def unsentFrom (mac : CBuf 32) : ℕ → List Line → List Line
  | _, [] => []
  | off, l :: ls =>
    if (lineText mac l).length + 1 ≤ off then unsentFrom mac (off - ((lineText mac l).length + 1)) ls
    else l :: ls

/-- The write of a line. -/
def Line.write? : Line → Option Write
  | register w => some w
  | _ => none

/-- The writes that the helper has not got. -/
def undelivered (c : JkCtx V) : List Write :=
  pending c ++ (unsentFrom c.mac c.outOff c.out).filterMap Line.write?

/-! ## The ledger -/

/-- A write is decided on. -/
def Ledger.decide (l : Ledger) (w : Write) : Ledger :=
  let l := { l with next := l.next + 1 }
  if w.paced then { l with paced := { l.paced with decided := l.paced.decided ++ [w] } }
  else { l with direct := { l.direct with decided := l.direct.decided ++ [w] } }

/-- A line is put into the output. -/
def Ledger.give (l : Ledger) : Line → Ledger
  | .register w =>
    if w.paced then { l with paced := { l.paced with given := l.paced.given ++ [w] } }
    else { l with direct := { l.direct with given := l.direct.given ++ [w] } }
  | _ => l

/-- Writes are thrown away. -/
def Ledger.discard (l : Ledger) (ws : List Write) : Ledger :=
  { l with discarded := l.discarded ++ ws.map Write.id }

/-- The connection drops: the accounts begin anew, with what stays in the
queue. -/
def Ledger.restart (l : Ledger) (ws : List Write) : Ledger :=
  { l with paced := ⟨ws, []⟩, direct := ⟨[], []⟩ }

/-- A setting shows the value of a write. -/
def Ledger.show (l : Ledger) (f : Field) (id : ℕ) : Ledger :=
  { l with shown := fun g => if g = f then some id else l.shown g }

/-- The settings show what a frame reports. -/
def Ledger.report (l : Ledger) (r : Report) : Ledger :=
  { l with shown := fun _ => none, reported := some r, queued := [] }

/-! ## The output and the queue -/

/-- `queue_str`: a line without room is dropped. -/
def queueStr (c : JkCtx V) (line : Line) : JkCtx V :=
  if Room c line then { c with out := c.out ++ [line], ledger := c.ledger.give line }
  else { c with ledger := c.ledger.discard line.write?.toList }

/-- `send_connect`. -/
def sendConnect (c : JkCtx V) : JkCtx V := queueStr c .connect

variable [Arithmetic V]

/-- `wq_push`: a write without room is dropped. -/
def wqPush (c : JkCtx V) (reg : UInt8) (mv : ℕ) : JkCtx V :=
  let w : Write := ⟨c.ledger.next, true, reg, mv⟩
  let l := c.ledger.decide w
  if wqCap ≤ c.wq.length then { c with ledger := l.discard [w] }
  else
    { c with
      wq := c.wq ++ [w]
      wqNext := if c.wq = [] then lit 0 else c.wqNext
      ledger := { l with queued := l.queued ++ [w] } }

/-! ## Settings and actions -/

/-- `POLL_MIN`. -/
def pollMin : V := lit 1

/-- What `json_find_key` and `json_double` read of a request: the keys it has,
with their numbers. -/
structure Request (V : Type) where
  pollIntervalS : Option V
  cellRcvV : Option V
  cellOvpV : Option V
  cellOvprV : Option V

/-- The overvoltage limit that bounds a requested charge voltage. -/
def rcvBound (c : JkCtx V) (r : Request V) : V :=
  jkClampOvpV (if c.haveSettings then c.cellOvpV else r.cellOvpV.getD (lit (365 / 100)))

/-- A requested charge voltage held between 2.50 V and a limit. -/
def clampRcv (rcv ovp : V) : V :=
  let rcv := if lt rcv (lit (250 / 100)) then lit (250 / 100) else rcv
  if lt (sub ovp (lit (1 / 100))) rcv then sub ovp (lit (1 / 100)) else rcv

/-- The part of `jk_put_settings` for `cell_rcv_v`, of a connected module. -/
def putRcv (c : JkCtx V) (r : Request V) : JkCtx V :=
  match r.cellRcvV with
  | none => c
  | some rcv =>
    let rcv := clampRcv rcv (rcvBound c r)
    let id := c.ledger.next
    let c := wqPush c jkRegCellRcv (jkVoltsToMv rcv)
    { c with cellRcvV := single rcv, haveSettings := true, ledger := c.ledger.show .cellRcv id }

/-- The overvoltage limit that is written. -/
def wantedOvp (c : JkCtx V) (r : Request V) : V :=
  jkClampOvpV <|
    match r.cellOvpV with
    | some ovp => ovp
    | none => if c.haveSettings then c.cellOvpV else lit (365 / 100)

/-- The release voltage that is written. -/
def wantedOvpr (c : JkCtx V) (r : Request V) : V :=
  let ovp := wantedOvp c r
  jkClampOvprV
    (match r.cellOvprV with
    | some ovpr => ovpr
    | none => if c.haveSettings then c.cellOvprV else sub ovp jkOvprGapV) ovp

/-- The charge voltage is not below the overvoltage limit that is written. -/
def rcvTooHigh (c : JkCtx V) (r : Request V) : Bool :=
  c.haveSettings && le (sub (wantedOvp c r) (lit (1 / 1000))) c.cellRcvV

/-- The charge voltage below an overvoltage limit. -/
def rcvBelow (ovp : V) : V :=
  let rcv := sub ovp (lit (5 / 100))
  let rcv := if lt rcv (lit (340 / 100)) then lit (340 / 100) else rcv
  if le ovp rcv then sub ovp (lit (1 / 100)) else rcv

/-- The charge voltage is lowered ahead of the limit. -/
def lowerRcv (c : JkCtx V) (r : Request V) : JkCtx V :=
  if rcvTooHigh c r then
    let rcv := rcvBelow (wantedOvp c r)
    let id := c.ledger.next
    let c := wqPush c jkRegCellRcv (jkVoltsToMv rcv)
    { c with cellRcvV := single rcv, ledger := c.ledger.show .cellRcv id }
  else c

/-- The part of `jk_put_settings` for `cell_ovp_v` and `cell_ovpr_v`, of a
connected module. -/
def putOvp (c : JkCtx V) (r : Request V) : JkCtx V :=
  if r.cellOvpV.isSome || r.cellOvprV.isSome then
    let ovp := wantedOvp c r
    let ovpr := wantedOvpr c r
    let c := lowerRcv c r
    let id := c.ledger.next
    let c := wqPush c jkRegCellOvp (jkVoltsToMv ovp)
    let c := wqPush c jkRegCellOvpr (jkVoltsToMv ovpr)
    { c with
      cellOvpV := single ovp, cellOvprV := single ovpr, haveSettings := true
      ledger := (c.ledger.show .cellOvp id).show .cellOvpr (id + 1) }
  else c

/-- A request names a register. -/
def Request.writes (r : Request V) : Bool :=
  r.cellRcvV.isSome || r.cellOvpV.isSome || r.cellOvprV.isSome

/-- `jk_put_settings`. -/
def jkPutSettings (c : JkCtx V) (r : Request V) : JkCtx V × MfErr × CString :=
  match r.pollIntervalS.filter (le (lit 0)) with
  | some iv =>
    if lt iv pollMin then (c, .inval, CString.lit "poll_interval_s below 1.0")
    else putRegisters { c with pollIntervalS := iv } r
  | none => putRegisters c r
where
  /-- The part for the registers. -/
  putRegisters (c : JkCtx V) (r : Request V) : JkCtx V × MfErr × CString :=
    if r.writes && !c.handshakeOk then (c, .offline, CString.lit "offline")
    else (putOvp (putRcv c r) r, .ok, CString.empty)

/-- The actions, with the number of their `volts` when there is one. -/
inductive Action (V : Type) where
  | refresh
  | setBalanceTrigger (volts : Option V)
  | setStartBalance (volts : Option V)
  | setSwitch (reg : UInt8) (on : Bool)
  | other

/-- The line of a register write that does not go through the queue. -/
def writeRegister (c : JkCtx V) (reg : UInt8) (value : ℕ) : JkCtx V :=
  let w : Write := ⟨c.ledger.next, false, reg, value⟩
  queueStr { c with ledger := c.ledger.decide w } (.register w)

/-- `jk_action`. -/
def jkAction (c : JkCtx V) (a : Action V) : JkCtx V × MfErr × CString :=
  if !c.handshakeOk then (c, .offline, CString.lit "offline")
  else
    match a with
    | .refresh => (queueStr c (.command (jkBuildCommand jkCmdCellInfo [] 0)), .ok, CString.empty)
    | .setBalanceTrigger none => (c, .inval, CString.lit "volts required")
    | .setBalanceTrigger (some volts) =>
      let volts := jkClampTriggerV volts
      let c := { c with
        triggerV := volts, haveTrigger := true, ledger := c.ledger.show .trigger c.ledger.next }
      (writeRegister c jkRegBalanceTrigger (jkVoltsToMv volts), .ok, CString.empty)
    | .setStartBalance none => (c, .inval, CString.lit "volts required")
    | .setStartBalance (some volts) =>
      let volts := jkClampStartV volts
      let c := { c with
        startV := volts, haveStart := true, ledger := c.ledger.show .start c.ledger.next }
      (writeRegister c jkRegStartBalance (jkVoltsToMv volts), .ok, CString.empty)
    | .setSwitch reg on =>
      let c := { c with balWant := if reg = jkRegBalance then some on else c.balWant }
      (writeRegister c reg (if on then 1 else 0), .ok, CString.empty)
    | .other => (c, .unsupported, CString.lit "unsupported")

/-! ## The pump -/

/-- `jk_decode_settings`: the settings that are shown and written. -/
def jkDecodeSettings (data : Bytes) : Option Report :=
  if data.length < jkFrameSize ∨ data.take 4 ≠ jkHeaderRsp ∨ data.getD 4 0 ≠ jkFrameSettings ∨
      jkCrc8 (data.take (jkFrameSize - 1)) ≠ data.getD jkCellCrcOffset 0 then none
  else
    some
      { cellOvp := jkU32 data 18, cellOvpr := jkU32 data 22, cellRcv := jkU32 data 38
        trigger := jkU32 data 26, start := jkU32 data 138 }

/-- What a line of the helper tells. -/
inductive Received where
  | connected
  /-- An error, with whether `ble_drop_msg` takes it for a lost connection. -/
  | error (drops : Bool)
  /-- A frame that a notification completes. -/
  | frame (data : Bytes)
  | other

/-- `mark_dropped`. -/
def markDropped (c : JkCtx V) : JkCtx V :=
  if c.handshakeOk then
    let c := { c with
      handshakeOk := false, needCellReq := true, ledger := c.ledger.restart (pending c) }
    if c.fd then sendConnect c else c
  else c

/-- `sock_close`: the queue and the output are thrown away. -/
def sockClose (c : JkCtx V) (now : V) : JkCtx V :=
  { c with
    fd := false, state := .idle, handshakeOk := false
    out := [], outOff := 0, wq := [], wqI := 0
    nextTry := add now (lit (1 / 2))
    ledger := (c.ledger.discard (undelivered c)).restart [] }

/-- The settings a frame reports are shown. -/
def onSettings (c : JkCtx V) (r : Report) : JkCtx V :=
  { c with
    cellOvpV := singleThousandths r.cellOvp, cellOvprV := singleThousandths r.cellOvpr
    cellRcvV := singleThousandths r.cellRcv
    haveSettings := true, wantSettings := false, balWant := none
    triggerV := singleThousandths r.trigger, startV := singleThousandths r.start
    haveTrigger := true, haveStart := true
    ledger := c.ledger.report r }

/-- `on_line`. -/
def onLine (c : JkCtx V) : Received → JkCtx V
  | .connected => { c with handshakeOk := true, needCellReq := true, state := .stream }
  | .error drops => if drops then markDropped c else c
  | .frame data =>
    if c.handshakeOk ∧ data.getD 4 0 = jkFrameSettings then
      match jkDecodeSettings data with
      | some r => onSettings c r
      | none => c
    else c
  | .other => c

/-- How the helper's lines end in a step. -/
inductive ReadEnd where
  | again
  | failed
  | eof
  deriving DecidableEq

/-- What a `write` does. -/
inductive WriteResult where
  | wrote (n : ℕ)
  | again
  | failed

/-- What `start_connect` comes to. -/
inductive ConnectStart where
  | connected
  | inProgress
  | failed

/-- What the surroundings decide in a step. -/
structure PumpEnv (V : Type) where
  now : V
  connect : ConnectStart
  /-- `poll` says that the socket is writable. -/
  ready : Bool
  /-- The connection has failed. -/
  soError : Bool
  reads : List Received
  readEnd : ReadEnd
  writes : List WriteResult

/-- `start_connect`, and its first line. -/
def startConnect (c : JkCtx V) (e : PumpEnv V) : JkCtx V :=
  match e.connect with
  | .connected => sendConnect { c with fd := true, state := .handshake, handshakeOk := false }
  | .inProgress => { c with fd := true, state := .connecting, handshakeOk := false }
  | .failed => c

/-- The part of the pump that gets a connection. -/
def pumpConnect (c : JkCtx V) (e : PumpEnv V) : JkCtx V × Bool :=
  let waits := c.state = .idle ∧ lt e.now c.nextTry = true
  let c := if c.state = .idle ∧ ¬waits then startConnect c e else c
  if waits ∨ c.state = .idle then (c, false)
  else if c.state = .connecting then
    if !e.ready then (c, false)
    else if e.soError then (sockClose c e.now, false)
    else (sendConnect { c with state := .handshake }, true)
  else (c, true)

/-- `drain_in`: the lines that have come, and how they end. -/
def drainIn (c : JkCtx V) (e : PumpEnv V) : JkCtx V :=
  let c := e.reads.foldl onLine c
  if e.readEnd = .again then c else sockClose c e.now

/-- The next write leaves the queue. -/
def popWrite (c : JkCtx V) (w : Write) (now : V) : JkCtx V :=
  let c := queueStr c (.register w)
  if c.wqI + 1 < c.wq.length then { c with wqI := c.wqI + 1, wqNext := add now (lit (35 / 100)) }
  else { c with wq := [], wqI := 0, wqNext := add now (lit (35 / 100)), wantSettings := true,
                lastSettingsReq := now }

/-- The part of the pump that writes commands. -/
def pumpWrites (c : JkCtx V) (now : V) : JkCtx V :=
  let cellInfo := Line.command (jkBuildCommand jkCmdCellInfo [] 0)
  if !(c.handshakeOk && c.fd) then c
  else
    match pending c with
    | w :: _ => if le c.wqNext now then popWrite c w now else c
    | [] =>
      if c.wq ≠ [] then c
      else if c.needCellReq then
        let c := queueStr (queueStr c (.command (jkBuildCommand jkCmdDeviceInfo [] 0))) cellInfo
        { c with needCellReq := false, lastCellReq := now, lastSettingsReq := now }
      else if (!c.haveSettings || c.wantSettings) &&
          lt (lit (3 / 2)) (sub now c.lastSettingsReq) then
        { queueStr c cellInfo with lastSettingsReq := now }
      else if lt (lit 8) (sub now c.lastCellReq) then { queueStr c cellInfo with lastCellReq := now }
      else c

/-- The loop of `flush_out`, with whether a `write` has failed. -/
def flushLoop (c : JkCtx V) : List WriteResult → JkCtx V × Bool
  | [] => (if c.outOff < outLen c then c else { c with out := [], outOff := 0 }, false)
  | r :: rs =>
    if c.outOff < outLen c then
      match r with
      | .again => (c, false)
      | .failed => (c, true)
      | .wrote n => flushLoop { c with outOff := min (c.outOff + n) (outLen c) } rs
    else ({ c with out := [], outOff := 0 }, false)

/-- `flush_out`. -/
def flushOut (c : JkCtx V) (e : PumpEnv V) : JkCtx V :=
  match flushLoop c e.writes with
  | (c, true) => sockClose c e.now
  | (c, false) => c

/-- `pump`, apart from its result and what it waits for. -/
def pump (c : JkCtx V) (e : PumpEnv V) : JkCtx V :=
  match pumpConnect c e with
  | (c, false) => c
  | (c, true) =>
    let c := if c.fd then drainIn c e else c
    let c := pumpWrites c e.now
    if c.fd then flushOut c e else c

/-- A call or a step of the module's thread. -/
inductive Act (V : Type) where
  | put (r : Request V)
  | action (a : Action V)
  | pump (e : PumpEnv V)

/-- What it does. -/
def step (c : JkCtx V) : Act V → JkCtx V
  | .put r => (jkPutSettings c r).1
  | .action a => (jkAction c a).1
  | .pump e => JkWrites.pump c e

/-- A module opened for a battery, before its first connection. -/
def opened (mac : CBuf 32) (pollIntervalS nextTry : V) : JkCtx V :=
  { mac := mac, pollIntervalS := pollIntervalS, fd := false, state := .idle, handshakeOk := false
    nextTry := nextTry, out := [], outOff := 0, cellOvpV := lit 0, cellOvprV := lit 0
    cellRcvV := lit 0, haveSettings := false, wantSettings := false, balWant := none
    haveTrigger := false, haveStart := false, needCellReq := false, lastCellReq := lit 0
    lastSettingsReq := lit 0, wq := [], wqI := 0, wqNext := lit 0, triggerV := lit 0
    startV := lit 0
    ledger :=
      { next := 0, paced := ⟨[], []⟩, direct := ⟨[], []⟩, discarded := [], shown := fun _ => none
        reported := none, queued := [] } }

end MoonFlare.JkWrites
