import MoonFlare.Plugin

/-!
# The XD battery plugin

The plugin polls a pack over a serial line: firmware, barcode, then realtime
frames for ever. A step runs until it needs the line or the clock. What the
line and the clock do is an input; a reply is the body of a frame whose
checksum the transport has already verified.
-/

namespace MoonFlare.Xd

open Binary

/-- `BMS_MAX_CELLS`. -/
def bmsMaxCells : ℕ := 32

/-- `BMS_MAX_TEMPS`. -/
def bmsMaxTemps : ℕ := 8

/-- `bms_realtime_t`; doubles are their exact values. -/
structure BmsRealtime where
  cellCount : ℕ
  tempCount : ℕ
  /-- Voltage and balancing mark of each cell counted. -/
  cells : List (ℚ × Bool)
  temperaturesC : List ℚ
  currentA : ℚ
  socPct : ℚ
  sohPct : ℚ
  fullCapacityAh : ℚ
  remainingCapacityAh : ℚ
  packVoltageV : ℚ
  cycles : ℕ
  rawStatus : Bytes
  deriving DecidableEq

/-- A zeroed structure. -/
def BmsRealtime.zero : BmsRealtime := ⟨0, 0, [], [], 0, 0, 0, 0, 0, 0, 0, List.replicate 12 0⟩

/-- The byte at an index of the zeroed payload buffer. -/
def byteAt (b : Bytes) (i : ℕ) : ℕ := (b.getD i 0).toNat

/-- A big endian register. -/
def be16 (b : Bytes) (i : ℕ) : ℕ := byteAt b i * 256 + byteAt b (i + 1)

/-- The temperature count `bms_parse_realtime` settles on. -/
def tempCountAt (b : Bytes) (i : ℕ) : ℕ :=
  let t := byteAt b i
  min (if t < 2 ∨ 6 < t then 5 else t) bmsMaxTemps

/-- A cell of a frame: voltage and balancing mark. -/
def frameCell (b : Bytes) (i : ℕ) : ℚ × Bool :=
  (f64 ((byteAt b (2 * i + 2) % 32 * 256 + byteAt b (2 * i + 3) : ℕ) / 1000),
    decide (128 ≤ byteAt b (2 * i + 2)))

/-- The current of a frame with `n` cells. -/
def frameCurrent (b : Bytes) (n : ℕ) : ℚ := f64 ((30000 - be16 b (4 + 2 * n) : ℚ) / 100)

/-- The state of charge of a frame with `n` cells. -/
def frameSoc (b : Bytes) (n : ℕ) : ℚ := f64 (be16 b (8 + 2 * n) / 100)

/-- The full capacity of a frame with `n` cells. -/
def frameFull (b : Bytes) (n : ℕ) : ℚ := f64 (be16 b (12 + 2 * n) / 100)

/-- The remaining capacity of a frame with `n` cells. -/
def frameRemaining (b : Bytes) (n : ℕ) : ℚ := f64 (f64 (frameFull b n * frameSoc b n) / 100)

/-- A temperature of a frame with `n` cells. -/
def frameTemp (b : Bytes) (n i : ℕ) : ℚ := byteAt b (17 + 2 * n + 2 * i) - 50

/-- `bms_parse_realtime`: the structure after the call, and whether the frame
was accepted. A frame can be refused after half of the fields are written. -/
def bmsParseRealtime (b : Bytes) (r : BmsRealtime) : BmsRealtime × Bool :=
  if b.length < 2 then (r, false)
  else
    let n := byteAt b 1
    if n = 0 ∨ bmsMaxCells < n then (r, false)
    else if b.length ≤ 15 + 2 * n then (r, false)
    else
      let t := tempCountAt b (15 + 2 * n)
      let r := { r with
        cellCount := n
        tempCount := t
        cells := (List.range n).map (frameCell b)
        currentA := frameCurrent b n
        socPct := frameSoc b n
        fullCapacityAh := frameFull b n
        remainingCapacityAh := frameRemaining b n
        temperaturesC := (List.range t).map (frameTemp b n) }
      let base := 2 * n + 2 * t
      if b.length ≤ 39 + base then (r, false)
      else
        ({ r with
          cycles := be16 b (30 + base)
          packVoltageV := f64 (be16 b (34 + base) / 100)
          sohPct := f64 (be16 b (38 + base) / 100)
          rawStatus := (List.range 12).map fun i =>
            if i < 10 then b.getD (18 + base + i) 0 else b.getD (32 + base + i) 0 }, true)

/-- The command the plugin is at. -/
inductive CmdPhase where
  | fw
  | barcode
  | poll
  deriving DecidableEq

/-- `xd_ctx_t`: what steps and readings depend on. -/
structure XdCtx where
  pollIntervalS : ℚ
  /-- The serial port is open. -/
  fdOpen : Bool
  ioActive : Bool
  cmdPhase : CmdPhase
  nextPoll : ℚ
  reopenAt : ℚ
  rt : BmsRealtime
  haveData : Bool
  firmware : CBuf 64
  barcode : CBuf 64
  err : CBuf 96
  deriving DecidableEq

/-- What `bms_txrx_step` returns. -/
inductive BmsIo where
  | needRead
  | needWrite
  | needTime
  | done (body : Bytes)
  | failed (err : CString)
  deriving DecidableEq

/-- What the surroundings decide in a step: the clock, whether opening the
port and the USB policy leave it open, and the transport. -/
structure XdEnv where
  now : ℚ
  opened : Bool
  openError : CString
  io : BmsIo
  deriving DecidableEq

/-- `copy_ascii` into a `char[64]`: up to the first zero, blanks at the end
cut. -/
def copyAscii (body : Bytes) : CBuf 64 :=
  CBuf.copy 64 (CString.ofBytes
    ((CString.ofBytes body).bytes.rdropWhile fun b => b = 32 ∨ b = 9 ∨ b = 13 ∨ b = 10))

/-- `start_cmd`. -/
def startCmd (c : XdCtx) (phase : CmdPhase) : XdCtx := { c with cmdPhase := phase, ioActive := true }

/-- The phase after a command that failed. -/
def CmdPhase.skip : CmdPhase → CmdPhase
  | fw => barcode
  | barcode => poll
  | poll => poll

/-- A reply to the command of the phase. -/
def onReply (c : XdCtx) (now : ℚ) (body : Bytes) : XdCtx × MfStep :=
  match c.cmdPhase with
  | .fw => ({ c with
      firmware := copyAscii body, cmdPhase := .barcode, nextPoll := now, err := CBuf.zero 96 }, .idle)
  | .barcode => ({ c with
      barcode := copyAscii body, cmdPhase := .poll, nextPoll := now, err := CBuf.zero 96 }, .idle)
  | .poll =>
    match bmsParseRealtime body c.rt with
    | (rt, false) => ({ c with
        rt := rt, err := CBuf.copy 96 (CString.lit "parse failed")
        nextPoll := now + c.pollIntervalS }, .error)
    | (rt, true) => ({ c with
        rt := rt, haveData := true, err := CBuf.zero 96
        nextPoll := now + c.pollIntervalS }, .updated)

/-- The rest of `xd_step` once a command is under way. -/
def onIo (c : XdCtx) (e : XdEnv) : XdCtx × MfStep :=
  match e.io with
  | .needRead => (c, .idle)
  | .needWrite => (c, .idle)
  | .needTime => (c, .idle)
  | .done body => onReply { c with ioActive := false } e.now body
  | .failed err =>
    ({ c with
      ioActive := false
      err := CBuf.copy 96 (if err.nonempty then err else CString.lit "io error")
      nextPoll := e.now + c.pollIntervalS, cmdPhase := c.cmdPhase.skip }, .error)

/-- `xd_step`. -/
def xdStep (e : XdEnv) (c : XdCtx) : XdCtx × MfStep :=
  if !c.fdOpen then
    if e.now < c.reopenAt then (c, .idle)
    else if !e.opened then
      ({ c with reopenAt := e.now + c.pollIntervalS, err := CBuf.copy 96 e.openError }, .error)
    else onIo (startCmd { c with fdOpen := true } .fw) e
  else if !c.ioActive then
    if e.now < c.nextPoll then (c, .idle)
    else onIo (startCmd c c.cmdPhase) e
  else onIo c e

/-- `xd_last_error`. -/
def xdLastError (c : XdCtx) : CString := c.err.str

/-- `xd_caps`: read, probe, auto port. -/
def xdCaps (_ : XdCtx) : ℕ := 1 + 16 + 32

/-- The values a reading publishes, as they are printed. -/
structure XdReading where
  packVoltageV : Fixed
  currentA : Fixed
  powerW : Fixed
  socPct : Fixed
  sohPct : Fixed
  cellCount : ℕ
  fullCapacityAh : Fixed
  remainingCapacityAh : Fixed
  cycles : ℕ
  firmware : CString
  barcode : CString
  cells : List (Fixed × Bool)
  temperaturesC : List Fixed
  deriving DecidableEq

/-- The power as printed. The pack voltage is never negative, so the sign is
the current's. -/
def printedPower (packVoltageV currentA : ℚ) : Fixed :=
  { Fixed.ofRat 1 (f64 (packVoltageV * currentA)) with neg := decide (currentA < 0) }

/-- A cell as printed. -/
def printedCell (cell : ℚ × Bool) : Fixed × Bool := (Fixed.ofRat 3 cell.1, cell.2)

/-- What `xd_get_reading` formats from a structure. -/
def XdReading.ofRealtime (r : BmsRealtime) (firmware barcode : CString) : XdReading :=
  { packVoltageV := Fixed.ofRat 2 r.packVoltageV
    currentA := Fixed.ofRat 2 r.currentA
    powerW := printedPower r.packVoltageV r.currentA
    socPct := Fixed.ofRat 2 r.socPct
    sohPct := Fixed.ofRat 2 r.sohPct
    cellCount := r.cellCount
    fullCapacityAh := Fixed.ofRat 2 r.fullCapacityAh
    remainingCapacityAh := Fixed.ofRat 2 r.remainingCapacityAh
    cycles := r.cycles
    firmware := firmware
    barcode := barcode
    cells := r.cells.map printedCell
    temperaturesC := r.temperaturesC.map (Fixed.ofRat 1) }

/-- What the plugin publishes; nothing before the first good frame. -/
def xdPublished (c : XdCtx) : Option XdReading :=
  if c.haveData then some (XdReading.ofRealtime c.rt c.firmware.str c.barcode.str) else none

/-- Items with commas between them. -/
def commas (items : List Bytes) : Bytes := [44].intercalate items

/-- `true` or `false`. -/
def boolText (b : Bool) : Bytes := ascii (if b then "true" else "false")

/-- One entry of the `cells` array. -/
def cellText (p : (Fixed × Bool) × ℕ) : Bytes :=
  ascii "\x7b\"index\":" ++ (Decimal.ofNat (p.2 + 1)).text ++ ascii ",\"voltage_v\":" ++
    p.1.1.text 3 ++ ascii ",\"balancing\":" ++ boolText p.1.2 ++ ascii "\x7d"

/-- A label of the `temp_labels` array. -/
def labelText (i : ℕ) : Bytes :=
  if i = 0 then ascii "\"MOS\"" else ascii "\"T" ++ (Decimal.ofNat i).text ++ ascii "\""

/-- The text of a reading. -/
def XdReading.text (p : XdReading) : CString :=
  CString.ofBytes <|
    ascii "\x7b\"pack_voltage_v\":" ++ p.packVoltageV.text 2 ++
    ascii ",\"current_a\":" ++ p.currentA.text 2 ++
    ascii ",\"power_w\":" ++ p.powerW.text 1 ++
    ascii ",\"soc_pct\":" ++ p.socPct.text 2 ++
    ascii ",\"soh_pct\":" ++ p.sohPct.text 2 ++
    ascii ",\"cell_count\":" ++ (Decimal.ofNat p.cellCount).text ++
    ascii ",\"full_capacity_ah\":" ++ p.fullCapacityAh.text 2 ++
    ascii ",\"remaining_capacity_ah\":" ++ p.remainingCapacityAh.text 2 ++
    ascii ",\"cycles\":" ++ (Decimal.ofNat p.cycles).text ++
    ascii ",\"firmware\":\"" ++ p.firmware.bytes ++
    ascii "\",\"barcode\":\"" ++ p.barcode.bytes ++
    ascii "\",\"cell_voltages_v\":[" ++ commas (p.cells.map fun cell => cell.1.text 3) ++
    ascii "],\"cell_balancing\":[" ++ commas (p.cells.map fun cell => boolText cell.2) ++
    ascii "],\"cells\":[" ++ commas (p.cells.zipIdx.map cellText) ++
    ascii "],\"temperatures_c\":[" ++ commas (p.temperaturesC.map (Fixed.text 1)) ++
    ascii "],\"temp_labels\":[" ++ commas ((List.range p.temperaturesC.length).map labelText) ++
    ascii "]\x7d"

/-- `xd_get_reading`: an empty object before the first good frame. The text
is cut at the caller's buffer. -/
def xdGetReading (c : XdCtx) : Option CString :=
  match xdPublished c with
  | some p => some (p.text.take 16383)
  | none => some (CString.lit "\x7b\x7d")

/-- `xd_open` past the parsing of its spec, with the port open or not. -/
def xdOpened (pollIntervalS now : ℚ) (opened : Bool) (openError : CString) : XdCtx :=
  { pollIntervalS := pollIntervalS, fdOpen := opened, ioActive := opened, cmdPhase := .fw
    nextPoll := 0, reopenAt := if opened then 0 else now + pollIntervalS
    rt := BmsRealtime.zero, haveData := false, firmware := CBuf.zero 64, barcode := CBuf.zero 64
    err := if opened then CBuf.zero 96 else CBuf.copy 96 openError }

/-- The plugin as the daemon sees it, given what happens when it opens. -/
def xdOps (pollIntervalS now : ℚ) (opened : Bool) (openError : CString) : PluginOps XdCtx XdEnv :=
  { kind := CString.lit "battery"
    driver := CString.lit "xd"
    describe := none
    openCtx := some fun _ => .ok (xdOpened pollIntervalS now opened openError)
    step := some xdStep
    caps := some xdCaps
    lastError := some xdLastError
    getReading := some xdGetReading
    getSettings := none
    putSettings := none }

/-- The registry of a daemon with only this plugin, whose port opens. -/
def batteryOnly : Registry XdCtx XdEnv := [xdOps 2 0 true CString.empty]

end MoonFlare.Xd
