import MoonFlare.Plugin

/-!
# The JK battery plugin

A cell info frame of 300 bytes is decoded into the structure that readings
print. The frames arrive reassembled and checked from the Bluetooth helper; the
decoder checks them again. Floats are rounded to their precision at every
operation.
-/

namespace MoonFlare.Jk

open Binary

/-- `JK_FRAME_SIZE`. -/
def jkFrameSize : ℕ := 300

/-- `jk_proto_t`. -/
inductive JkProto where
  | jk02_32s
  | jk02_24s
  deriving DecidableEq

/-- `jk_result_t`, the results of `jk_decode_cell_info`. -/
inductive JkResult where
  | ok
  | badLen
  | badHdr
  | badType
  | crc
  | notPlausible
  deriving DecidableEq

/-- `jk_cell_t`. -/
structure JkCell where
  index : ℕ
  voltageV : ℚ
  resistanceOhm : ℚ
  enabled : Bool
  balancing : Bool
  deriving DecidableEq

/-- `jk_cell_info_t`; the cells are the `cell_count` that are set. -/
structure JkCellInfo where
  cells : List JkCell
  enabledMask : ℕ
  averageCellV : ℚ
  deltaCellV : ℚ
  maxCellNumber : ℕ
  minCellNumber : ℕ
  mosfetTempC : ℚ
  wireResistanceWarnings : ℕ
  packVoltageV : ℚ
  packPowerW : ℚ
  currentA : ℚ
  temp1C : ℚ
  temp2C : ℚ
  temp3C : ℚ
  temp4C : ℚ
  temp5C : ℚ
  errorsBitmask : ℕ
  balanceCurrentA : ℚ
  balancingAction : ℕ
  socPct : ℚ
  remainingAh : ℚ
  nominalAh : ℚ
  cycleCount : ℕ
  cycleCapacityAh : ℚ
  sohPct : ℚ
  prechargeOn : Bool
  runtimeS : ℕ
  chargeMosfetOn : Bool
  dischargeMosfetOn : Bool
  precharging : Bool
  balancingIndicator : Bool
  heatingOn : Bool
  emergencyCountdownS : ℕ
  chargeStatus : ℕ
  deriving DecidableEq

/-- A zeroed structure. -/
def JkCellInfo.zero : JkCellInfo :=
  ⟨[], 0, 0, 0, 0, 0, 0, 0, 0, 0, 0, 0, 0, 0, 0, 0, 0, 0, 0, 0, 0, 0, 0, 0, 0, false, 0, false,
    false, false, false, false, 0, 0⟩

/-- The byte of a frame at an offset. -/
def jkByte (data : Bytes) (off : ℕ) : ℕ := (data.getD off 0).toNat

/-- `jk_u16`. -/
def jkU16 (data : Bytes) (off : ℕ) : ℕ := jkByte data off + jkByte data (off + 1) * 256

/-- `jk_i16`. -/
def jkI16 (data : Bytes) (off : ℕ) : ℤ :=
  if jkU16 data off < 2 ^ 15 then jkU16 data off else (jkU16 data off : ℤ) - 2 ^ 16

/-- `jk_u32`. -/
def jkU32 (data : Bytes) (off : ℕ) : ℕ := jkU16 data off + jkU16 data (off + 2) * 65536

/-- `jk_i32`. -/
def jkI32 (data : Bytes) (off : ℕ) : ℤ :=
  if jkU32 data off < 2 ^ 31 then jkU32 data off else (jkU32 data off : ℤ) - 2 ^ 32

/-- An integer as a `float`, times `0.001f`. -/
def milli (z : ℤ) : ℚ := f32 (f32 z * f32 (1 / 1000))

/-- `jk_temp_c`, with the value of an absent sensor kept. -/
def jkTempC (data : Bytes) (off : ℕ) : ℚ :=
  if jkI16 data off = -2000 then -2000 else f32 (jkI16 data off * f32 (1 / 10))

/-- `jk_crc8`. -/
def jkCrc8 (data : Bytes) : UInt8 := data.foldl (· + ·) 0

/-- `JK_HEADER_RSP`. -/
def jkHeaderRsp : Bytes := [0x55, 0xAA, 0xEB, 0x90]

/-- `JK_FRAME_CELL_INFO`. -/
def jkFrameCellInfo : UInt8 := 2

/-- An offset of the 32 cell layout in a frame of the protocol. -/
def JkProto.at (proto : JkProto) (off : ℕ) : ℕ :=
  match proto with
  | jk02_32s => off
  | jk02_24s => off - 32

/-- The number of cell slots. -/
def JkProto.slots : JkProto → ℕ
  | jk02_32s => 32
  | jk02_24s => 24

/-- The cell in a slot, unless its voltage is 0. -/
def frameCell (data : Bytes) (proto : JkProto) (i : ℕ) : Option JkCell :=
  let mv := jkU16 data (6 + i * 2)
  if mv = 0 then none
  else
    let roff := proto.at 80 + i * 2
    some
      { index := i + 1, voltageV := milli mv
        resistanceOhm := if roff + 2 ≤ jkFrameSize then milli (jkU16 data roff) else 0
        enabled := true, balancing := false }

/-- The cells of a frame. -/
def frameCells (data : Bytes) (proto : JkProto) : List JkCell :=
  (List.range proto.slots).filterMap (frameCell data proto)

/-- A byte read as a truth value. -/
def jkFlag (data : Bytes) (off : ℕ) : Bool := jkByte data off != 0

/-- The fields `jk_decode_cell_info` writes after the cells. -/
def writeFields (data : Bytes) (proto : JkProto) (r : JkCellInfo) : JkCellInfo :=
  let r := { r with
    averageCellV := milli (jkU16 data (proto.at 74))
    deltaCellV := milli (jkU16 data (proto.at 76))
    maxCellNumber := jkByte data (proto.at 78)
    minCellNumber := jkByte data (proto.at 79)
    mosfetTempC := jkTempC data (proto.at 144)
    wireResistanceWarnings := jkU32 data (proto.at 146)
    packVoltageV := milli (jkU32 data (proto.at 150))
    currentA := milli (jkI32 data (proto.at 158))
    temp1C := jkTempC data (proto.at 162)
    temp2C := jkTempC data (proto.at 164)
    errorsBitmask := jkU32 data (proto.at 166)
    balanceCurrentA := milli (jkI16 data (proto.at 170))
    balancingAction := jkByte data (proto.at 172)
    socPct := jkByte data (proto.at 173)
    remainingAh := milli (jkU32 data (proto.at 174))
    nominalAh := milli (jkU32 data (proto.at 178))
    cycleCount := jkU32 data (proto.at 182)
    cycleCapacityAh := milli (jkU32 data (proto.at 186))
    sohPct := jkByte data (proto.at 190)
    prechargeOn := jkFlag data (proto.at 191)
    runtimeS := jkU32 data (proto.at 194)
    chargeMosfetOn := jkFlag data (proto.at 198)
    dischargeMosfetOn := jkFlag data (proto.at 199)
    precharging := jkFlag data (proto.at 200)
    balancingIndicator := jkFlag data (proto.at 201)
    heatingOn := decide (proto.at 215 < jkFrameSize) && jkFlag data (proto.at 215)
    emergencyCountdownS := if proto.at 218 + 2 ≤ jkFrameSize then jkU16 data (proto.at 218) else 0 }
  let r := match proto with
    | .jk02_32s => { r with
        temp5C := jkTempC data 254
        temp4C := jkTempC data 256
        temp3C := jkTempC data 258
        chargeStatus := jkByte data 280 }
    | .jk02_24s => r
  { r with packPowerW := f32 (r.packVoltageV * r.currentA) }

/-- The sum of the cell voltages in `float`. -/
def cellSum (cells : List JkCell) : ℚ := cells.foldl (fun s c => f32 (s + c.voltageV)) 0

/-- The distance from the cell sum a pack voltage may have. -/
def cellSumSlack (sum : ℚ) : ℚ := f32 (f32 (f32 (15 / 100) * sum) + 1)

/-- Whether a decoded structure fails one of the plausibility checks. -/
def isImplausible (r : JkCellInfo) : Bool :=
  let sum := cellSum r.cells
  (r.cells.any fun c => decide (c.voltageV < 1 / 2) || decide (5 < c.voltageV)) ||
  (!r.cells.isEmpty && (decide (r.packVoltageV < f32 (sum - cellSumSlack sum)) ||
    decide (f32 (sum + cellSumSlack sum) < r.packVoltageV))) ||
  (decide (2000 < r.currentA) || decide (r.currentA < -2000)) ||
  decide (100 < r.socPct)

/-- The balancing marks: the cells within 2 mV of the highest. -/
def markBalancing (r : JkCellInfo) : JkCellInfo :=
  if r.balancingAction ≠ 0 ∨ r.balancingIndicator then
    let maxV := r.cells.foldl (fun m c => if m < c.voltageV then c.voltageV else m) 0
    { r with cells := r.cells.map fun c =>
        { c with balancing := decide (f32 (maxV - c.voltageV) ≤ f32 (2 / 1000)) } }
  else r

/-- `jk_decode_cell_info`: the structure is zeroed first, and filled in before
the plausibility checks. -/
def jkDecodeCellInfo (data : Bytes) (proto : JkProto) (expectedCells : ℕ) :
    JkCellInfo × JkResult :=
  let r := JkCellInfo.zero
  if data.length < jkFrameSize then (r, .badLen)
  else if data.take 4 ≠ jkHeaderRsp then (r, .badHdr)
  else if data.getD 4 0 ≠ jkFrameCellInfo then (r, .badType)
  else if jkCrc8 (data.take (jkFrameSize - 1)) ≠ data.getD 299 0 then (r, .crc)
  else
    let r := { r with enabledMask := jkU32 data (proto.at 70), cells := frameCells data proto }
    if proto.slots < r.cells.length then (r, .notPlausible)
    else if expectedCells ≠ 0 ∧ expectedCells + 1 < r.cells.length then (r, .notPlausible)
    else
      let r := writeFields data proto r
      if isImplausible r then (r, .notPlausible)
      else (markBalancing r, .ok)

/-- `jk_settings_t`: what readings print of it. -/
structure JkSettings where
  maxDischargeA : ℚ
  balancerSwitch : Bool
  deriving DecidableEq

/-- `jk_ctx_t`: what cell info frames change and readings print. -/
structure JkCtx where
  cell : JkCellInfo
  settings : JkSettings
  haveData : Bool
  haveSettings : Bool
  /-- The last switch setting asked for, if known. -/
  balWant : Option Bool
  lastCellMono : ℚ
  deriving DecidableEq

/-- What `on_line` does with a reassembled frame that is not a settings
frame. -/
def onFrame (c : JkCtx) (now : ℚ) (frame : Bytes) : JkCtx :=
  if frame.getD 4 0 = jkFrameCellInfo then
    match jkDecodeCellInfo frame .jk02_32s 0 with
    | (r, .ok) => { c with cell := r, haveData := true, lastCellMono := now }
    | (r, _) => { c with cell := r }
  else c

/-- The values a reading publishes, as they are printed. -/
structure JkReading where
  packVoltageV : Fixed
  currentA : Fixed
  powerW : Fixed
  socPct : Fixed
  sohPct : Fixed
  cellCount : ℕ
  fullCapacityAh : Fixed
  remainingCapacityAh : Fixed
  chargeMosfetOn : Bool
  dischargeMosfetOn : Bool
  balancerSwitch : Bool
  balancingIndicator : Bool
  balanceCurrentA : Fixed
  maxDischargeA : Option Fixed
  cells : List (Fixed × Bool)
  /-- Label and value of each sensor that is there. -/
  temperatures : List (CString × Fixed)
  deriving DecidableEq

/-- The temperature sensors with their labels. -/
def sensors (r : JkCellInfo) : List (CString × ℚ) :=
  [(CString.lit "MOS", r.mosfetTempC), (CString.lit "T1", r.temp1C), (CString.lit "T2", r.temp2C),
    (CString.lit "T3", r.temp3C), (CString.lit "T4", r.temp4C), (CString.lit "T5", r.temp5C)]

/-- A sensor as printed, unless it is absent. -/
def printedSensor (s : CString × ℚ) : Option (CString × Fixed) :=
  if -1000 < s.2 then some (s.1, Fixed.ofRat 1 s.2) else none

/-- The power as printed. The pack voltage is never negative, so the sign is
the current's. -/
def printedPower (packVoltageV currentA : ℚ) : Fixed :=
  { Fixed.ofRat 1 (f64 (packVoltageV * currentA)) with neg := decide (currentA < 0) }

/-- The balancer switch a reading shows. -/
def shownSwitch (c : JkCtx) : Bool :=
  match c.balWant with
  | some want => want
  | none =>
    if c.haveSettings then c.settings.balancerSwitch
    else c.cell.balancingIndicator || c.cell.balancingAction != 0

/-- What `jk_get_reading` formats. -/
def JkReading.ofCtx (c : JkCtx) : JkReading :=
  { packVoltageV := Fixed.ofRat 3 c.cell.packVoltageV
    currentA := Fixed.ofRat 2 c.cell.currentA
    powerW := printedPower c.cell.packVoltageV c.cell.currentA
    socPct := Fixed.ofRat 1 c.cell.socPct
    sohPct := Fixed.ofRat 1 c.cell.sohPct
    cellCount := c.cell.cells.length
    fullCapacityAh := Fixed.ofRat 2 c.cell.nominalAh
    remainingCapacityAh := Fixed.ofRat 2 c.cell.remainingAh
    chargeMosfetOn := c.cell.chargeMosfetOn
    dischargeMosfetOn := c.cell.dischargeMosfetOn
    balancerSwitch := shownSwitch c
    balancingIndicator := c.cell.balancingIndicator
    balanceCurrentA := Fixed.ofRat 3 c.cell.balanceCurrentA
    maxDischargeA := if c.haveSettings ∧ 0 < c.settings.maxDischargeA then
        some (Fixed.ofRat 1 c.settings.maxDischargeA) else none
    cells := c.cell.cells.map fun cell => (Fixed.ofRat 3 cell.voltageV, cell.balancing)
    temperatures := (sensors c.cell).filterMap printedSensor }

/-- What the plugin publishes; `jk_get_reading` fails before the first good
frame. -/
def jkPublished (c : JkCtx) : Option JkReading :=
  if c.haveData then some (JkReading.ofCtx c) else none

end MoonFlare.Jk
