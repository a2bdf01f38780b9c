import MoonFlare.Plugin

/-!
# The Classic charger plugin

Registers are read over Modbus TCP on a connection that is kept open. A step
runs until the socket would block. The clock and what the socket does are
inputs of a step; the registers and the bytes that carry them are decoded here.
-/

namespace MoonFlare.Classic

open Binary

/-- `REG_START`. -/
def regStart : ℕ := 4100

/-- `REG_QTY`. -/
def regQty : ℕ := 113

/-- `REG_IMAGE`. -/
def regImage : ℕ := 4220

/-- `RX_CAP`. -/
def rxCap : ℕ := 512

/-- `IO_TIMEOUT_S`. -/
def ioTimeoutS : ℚ := 3 / 2

/-- `RECONNECT_S`. -/
def reconnectS : ℚ := 30

/-- `classic_data_t`; floats are their exact values. -/
structure ClassicData where
  batteryVoltageV : ℚ
  ibattRaw : ℤ
  ibattA : ℚ
  kwhToday : ℚ
  watts : ℕ
  ahToday : ℚ
  lifetimeKwh : ℕ
  chargeStageName : CBuf 16
  chargeStageMsb : ℕ
  unitMac : List ℕ
  deviceId : ℕ
  classicName : ℕ
  deriving DecidableEq

/-- A zeroed structure. -/
def ClassicData.zero : ClassicData :=
  ⟨0, 0, 0, 0, 0, 0, 0, CBuf.zero 16, 0, List.replicate 6 0, 0, 0⟩

/-- `classic_registers_t`: the register at each wire address below the count. -/
structure ClassicRegisters where
  regs : ℕ → ℕ
  regCount : ℕ

/-- `classic_result_t`, the results `classic_decode` has. -/
inductive ClassicResult where
  | ok
  | typeMismatch
  | missingReg
  deriving DecidableEq

/-- The value of each result. -/
def ClassicResult.code : ClassicResult → ℤ
  | ok => 0
  | typeMismatch => -2
  | missingReg => -3

/-- `CLASSIC_EXPECTED_NAME`. -/
def expectedName : ℕ := 0x4C43

/-- The `float` a register of tenths stands for. -/
def tenths (z : ℤ) : ℚ := f32 (z * f32 (1 / 10))

/-- A register read as a signed word. -/
def signed16 (v : ℕ) : ℤ := if v < 32768 then v else (v : ℤ) - 65536

/-- `classic_charge_stage_name`. -/
def classicChargeStageName (msb : ℕ) : CString :=
  match msb with
  | 0 => CString.lit "Resting"
  | 3 => CString.lit "Absorb"
  | 4 => CString.lit "BulkMppt"
  | 5 => CString.lit "Float"
  | 6 => CString.lit "FloatMppt"
  | 7 => CString.lit "Equalize"
  | 10 => CString.lit "HyperVoc"
  | 18 => CString.lit "EqMppt"
  | _ => CString.lit "Unknown(" ++ CString.ofBytes (Decimal.ofNat msb).text ++ CString.lit ")"

/-- One field of the decoder: the addresses it checks, and what it writes. -/
structure FieldRead where
  addresses : List ℕ
  write : (ℕ → ℕ) → ClassicData → ClassicData

/-- The fields `classic_decode` reads after the type check, in its order. -/
def classicFields : List FieldRead :=
  [⟨[4114], fun u16 d => { d with batteryVoltageV := tenths (u16 4114) }⟩,
   ⟨[4116], fun u16 d =>
      { d with ibattRaw := signed16 (u16 4116), ibattA := tenths (signed16 (u16 4116)) }⟩,
   ⟨[4117], fun u16 d => { d with kwhToday := tenths (u16 4117) }⟩,
   ⟨[4118], fun u16 d => { d with watts := u16 4118 }⟩,
   ⟨[4119], fun u16 d =>
      { d with
        chargeStageMsb := u16 4119 / 256
        chargeStageName := CBuf.copy 16 (classicChargeStageName (u16 4119 / 256)) }⟩,
   ⟨[4124], fun u16 d => { d with ahToday := u16 4124 }⟩,
   ⟨[4125, 4126], fun u16 d => { d with lifetimeKwh := u16 4126 * 65536 + u16 4125 }⟩,
   ⟨[4105, 4106, 4107], fun u16 d =>
      { d with
        unitMac := [u16 4107 / 256, u16 4107 % 256, u16 4106 / 256, u16 4106 % 256,
          u16 4105 / 256, u16 4105 % 256] }⟩,
   ⟨[4110, 4111], fun u16 d => { d with deviceId := u16 4111 * 65536 + u16 4110 }⟩]

/-- The rest of the decoder: each field is written unless one of its
registers is missing, which ends the decoding. -/
def decodeFields (input : ClassicRegisters) : List FieldRead → ClassicData →
    ClassicData × ClassicResult
  | [], d => (d, .ok)
  | f :: fields, d =>
    if f.addresses.any fun a => input.regCount ≤ a then (d, .missingReg)
    else decodeFields input fields (f.write input.regs d)

/-- `classic_decode`: the structure is zeroed before anything is checked. -/
def classicDecode (input : ClassicRegisters) : ClassicData × ClassicResult :=
  let d := ClassicData.zero
  if input.regCount ≤ 4209 then (d, .missingReg)
  else
    let d := { d with classicName := input.regs 4209 }
    if d.classicName ≠ expectedName then (d, .typeMismatch)
    else decodeFields input classicFields d

/-- The connection's state. -/
inductive ClassicState where
  | disconnected
  | connecting
  /-- Connected, waiting for the next poll. -/
  | hold
  | send
  | recv
  deriving DecidableEq

/-- `classic_ctx_t`, its descriptor apart: it is open in every state but the
first. -/
structure ClassicCtx where
  unitCfg : ℤ
  unitTry : List ℤ
  itry : ℕ
  /-- The unit that answered last, or 0. -/
  unitOk : ℤ
  pollIntervalS : ℚ
  state : ClassicState
  ioDeadline : ℚ
  lastOk : ℚ
  nextPoll : ℚ
  haveData : Bool
  everOk : Bool
  tx : Bytes
  txOff : ℕ
  /-- The bytes received of the reply. -/
  rx : Bytes
  tid : ℕ
  data : ClassicData
  err : CBuf 96
  deriving DecidableEq

/-- What `send` returns. -/
inductive SendResult where
  | sent (n : ℕ)
  | wouldBlock
  | failed (text : CString)
  deriving DecidableEq

/-- What `recv` returns. -/
inductive RecvResult where
  | chunk (b : Bytes)
  | closed
  | wouldBlock
  | failed (text : CString)
  deriving DecidableEq

/-- What `connect_ready` finds. -/
inductive ConnectReady where
  | notYet
  | ready
  | failed (text : CString)
  deriving DecidableEq

/-- What the surroundings decide in a step: the readings of the clock in the
places that read it, and what the socket does. Where a list of results is used
up the socket would block. -/
structure ClassicEnv where
  now : ℚ
  connectNow : ℚ
  buildNow : ℚ
  replyNow : ℚ
  /-- Why a connection attempt fails at once, if it does. -/
  connectError : Option CString
  connectReady : ConnectReady
  sends : List SendResult
  recvs : List RecvResult
  deriving DecidableEq

/-- `sock_close`. -/
def sockClose (c : ClassicCtx) : ClassicCtx :=
  { c with state := .disconnected, tx := [], txOff := 0, rx := [] }

/-- `build_unit_list`. -/
def buildUnitList (unitCfg : ℤ) : List ℤ :=
  (if 0 < unitCfg then [unitCfg] else []) ++ (if unitCfg = 10 then [] else [10]) ++
    (if unitCfg = 1 then [] else [1])

/-- `current_unit`. -/
def currentUnit (c : ClassicCtx) : ℤ := c.unitTry.getD c.itry 10

/-- `start_connect`, and whether it failed. -/
def startConnect (e : ClassicEnv) (c : ClassicCtx) : ClassicCtx × Bool :=
  let c := sockClose c
  match e.connectError with
  | some text => ({ c with err := CBuf.copy 96 text }, true)
  | none => ({ c with state := .connecting, ioDeadline := e.connectNow + ioTimeoutS }, false)

/-- `put_be16`. -/
def putBe16 (v : ℕ) : Bytes := [UInt8.ofNat (v / 256), UInt8.ofNat v]

/-- `build_fc3`. -/
def buildFc3 (e : ClassicEnv) (c : ClassicCtx) : ClassicCtx :=
  let unit := UInt8.ofNat (currentUnit c % 256).toNat
  let tid := if (c.tid + 1) % 65536 = 0 then 1 else (c.tid + 1) % 65536
  { c with
    tid := tid
    tx := putBe16 tid ++ putBe16 0 ++ putBe16 6 ++ [unit, 3] ++ putBe16 regStart ++ putBe16 regQty
    txOff := 0, rx := [], state := .send, ioDeadline := e.buildNow + ioTimeoutS }

/-- A byte of the reply. -/
def rxByte (c : ClassicCtx) (i : ℕ) : ℕ := (c.rx.getD i 0).toNat

/-- `be16` in the reply. -/
def rxWord (c : ClassicCtx) (i : ℕ) : ℕ := rxByte c i * 256 + rxByte c (i + 1)

/-- The register image of the reply. -/
def replyRegisters (c : ClassicCtx) : ClassicRegisters :=
  { regs := fun a => if regStart ≤ a ∧ a < regStart + regQty then rxWord c (9 + (a - regStart) * 2)
      else 0
    regCount := regImage }

/-- What `parse_fc3` returns. -/
inductive Fc3 where
  | needMore
  | bad
  | exception
  | ok
  deriving DecidableEq

/-- What the framing of the reply in the buffer says before the decoder runs:
`ok` stands for a reply of the expected registers. -/
def fc3Frame (c : ClassicCtx) : Fc3 :=
  if c.rx.length < 6 then .needMore
  else
    let length := rxWord c 4
    if length < 3 ∨ rxCap < length + 6 then .bad
    else if c.rx.length < 6 + length then .needMore
    else if 128 ≤ rxByte c 7 then .exception
    else if rxByte c 7 ≠ 3 then .bad
    else if rxByte c 8 ≠ regQty * 2 ∨ 6 + length < 9 + rxByte c 8 then .bad
    else .ok

/-- `parse_fc3`: the reply is decoded straight into the data that readings
print. -/
def parseFc3 (e : ClassicEnv) (c : ClassicCtx) : ClassicCtx × Fc3 :=
  match fc3Frame c with
  | .ok =>
    match classicDecode (replyRegisters c) with
    | (d, .ok) =>
      ({ c with
        data := d, unitOk := currentUnit c, haveData := true, everOk := true
        lastOk := e.replyNow, nextPoll := e.replyNow + c.pollIntervalS
        err := CBuf.zero 96 }, .ok)
    | (d, rc) =>
      ({ c with
        data := d
        err := CBuf.copy 96 (CString.lit "decode " ++ intText rc.code) }, .bad)
  | r => (c, r)

/-- `next_unit_or_reconnect`. -/
def nextUnitOrReconnect (e : ClassicEnv) (c : ClassicCtx) : ClassicCtx :=
  let c := sockClose c
  if c.unitTry.length ≤ c.itry + 1 then
    { c with itry := 0, err := CBuf.copy 96 (CString.lit "no unit id answered") }
  else (startConnect e { c with itry := c.itry + 1 }).1

/-- `prefer_unit_ok`. -/
def preferUnitOk (c : ClassicCtx) : ClassicCtx :=
  if c.unitOk ≠ 0 ∧ c.unitOk ∈ c.unitTry then { c with itry := c.unitTry.idxOf c.unitOk } else c

/-- The error path every failed exchange takes. -/
def failStep (e : ClassicEnv) (c : ClassicCtx) : ClassicCtx × MfStep :=
  (nextUnitOrReconnect e c, .error)

/-- Received bytes are put behind the ones that are there. -/
def receive (c : ClassicCtx) (b : Bytes) : ClassicCtx :=
  { c with rx := c.rx ++ b.take (rxCap - c.rx.length) }

/-- The receive loop. -/
def recvLoop (e : ClassicEnv) : List RecvResult → ClassicCtx → ClassicCtx × MfStep
  | recvs, c =>
    if rxCap ≤ c.rx.length then failStep e c
    else
      match recvs with
      | [] => (c, .idle)
      | .wouldBlock :: _ => (c, .idle)
      | .failed text :: _ => failStep e { c with err := CBuf.copy 96 (CString.lit "recv: " ++ text) }
      | .closed :: _ => failStep e c
      | .chunk b :: rest =>
        match parseFc3 e (receive c b) with
        | (c, .needMore) => recvLoop e rest c
        | (c, .bad) => failStep e c
        | (c, .exception) =>
          failStep e { c with err := CBuf.copy 96 (CString.lit "modbus exception") }
        | (c, .ok) =>
          ({ c with
            state := .hold, tx := [], txOff := 0, rx := []
            ioDeadline := c.nextPoll + reconnectS }, .updated)

/-- The send loop, and the receive loop after it. -/
def sendLoop (e : ClassicEnv) : List SendResult → ClassicCtx → ClassicCtx × MfStep
  | sends, c =>
    if c.tx.length ≤ c.txOff then
      recvLoop e e.recvs { c with state := .recv, rx := [], ioDeadline := e.now + ioTimeoutS }
    else
      match sends with
      | [] => (c, .idle)
      | .wouldBlock :: _ => (c, .idle)
      | .failed text :: _ => failStep e { c with err := CBuf.copy 96 (CString.lit "send: " ++ text) }
      | .sent 0 :: _ => failStep e c
      | .sent n :: rest => sendLoop e rest { c with txOff := c.txOff + n }

/-- `start_connect` from a state that has no connection. -/
def reconnect (e : ClassicEnv) (c : ClassicCtx) : ClassicCtx × MfStep :=
  let (c, failed) := startConnect e { c with itry := 0 }
  (c, if failed then .error else .idle)

/-- `pump` once a connection is there or under way. -/
def exchange (e : ClassicEnv) (c : ClassicCtx) : ClassicCtx × MfStep :=
  if c.ioDeadline < e.now then
    failStep e { c with
      err := CBuf.copy 96 (CString.lit "io timeout unit " ++ intText (currentUnit c)) }
  else
    match c.state with
    | .connecting =>
      match e.connectReady with
      | .notYet => (c, .idle)
      | .failed text => failStep e { c with err := CBuf.copy 96 (CString.lit "connect: " ++ text) }
      | .ready => sendLoop e e.sends (buildFc3 e (preferUnitOk c))
    | .send => sendLoop e e.sends c
    | .recv => recvLoop e e.recvs c
    | .hold => (c, .idle)
    | .disconnected => (c, .idle)

/-- `pump`. -/
def pump (e : ClassicEnv) (c : ClassicCtx) : ClassicCtx × MfStep :=
  match c.state with
  | .disconnected => reconnect e c
  | .hold =>
    if e.now < c.nextPoll then (c, .idle)
    else if reconnectS ≤ e.now - c.lastOk then reconnect e (sockClose c)
    else exchange e (buildFc3 e (preferUnitOk c))
  | _ => exchange e c

/-- `classic_last_error`. -/
def classicLastError (c : ClassicCtx) : CString := c.err.str

/-- `classic_caps`: read, probe, auto net. -/
def classicCaps (_ : ClassicCtx) : ℕ := 1 + 16 + 64

/-- The values a reading publishes, as they are printed. -/
structure ClassicReading where
  batteryVoltageV : Fixed
  batteryCurrentA : Fixed
  chargingWatts : ℕ
  kwhToday : Fixed
  ahToday : Fixed
  lifetimeKwh : ℕ
  chargeStage : CString
  classicMac : List ℕ
  unitDeviceId : ℕ
  unitId : ℤ
  deriving DecidableEq

/-- What `classic_get_reading` formats. -/
def ClassicReading.ofData (d : ClassicData) (unitId : ℤ) : ClassicReading :=
  { batteryVoltageV := Fixed.ofRat 2 d.batteryVoltageV
    batteryCurrentA := Fixed.ofRat 2 d.ibattA
    chargingWatts := d.watts
    kwhToday := Fixed.ofRat 2 d.kwhToday
    ahToday := Fixed.ofRat 1 d.ahToday
    lifetimeKwh := d.lifetimeKwh
    chargeStage := d.chargeStageName.str
    classicMac := d.unitMac
    unitDeviceId := d.deviceId
    unitId := unitId }

/-- The unit a reading names. -/
def readingUnit (c : ClassicCtx) : ℤ := if c.unitOk ≠ 0 then c.unitOk else currentUnit c

/-- What the plugin publishes; nothing before the first good reply. -/
def classicPublished (c : ClassicCtx) : Option ClassicReading :=
  if c.haveData then some (ClassicReading.ofData c.data (readingUnit c)) else none

/-- A hexadecimal digit. -/
def hexDigit (n : ℕ) : UInt8 := UInt8.ofNat (if n < 10 then 48 + n else 87 + n)

/-- `%02x` of a byte. -/
def hexByte (n : ℕ) : Bytes := [hexDigit (n / 16 % 16), hexDigit (n % 16)]

/-- The text of a reading. -/
def ClassicReading.text (p : ClassicReading) : CString :=
  CString.ofBytes <|
    ascii "\x7b\"battery_voltage_v\":" ++ p.batteryVoltageV.text 2 ++
    ascii ",\"battery_current_a\":" ++ p.batteryCurrentA.text 2 ++
    ascii ",\"charging_watts\":" ++ (Decimal.ofNat p.chargingWatts).text ++
    ascii ",\"kwh_today\":" ++ p.kwhToday.text 2 ++
    ascii ",\"ah_today\":" ++ p.ahToday.text 1 ++
    ascii ",\"lifetime_kwh\":" ++ (Decimal.ofNat p.lifetimeKwh).text ++
    ascii ",\"charge_stage\":\"" ++ p.chargeStage.bytes ++
    ascii "\",\"classic_mac\":\"" ++ [58].intercalate (p.classicMac.map hexByte) ++
    ascii "\",\"unit_device_id\":" ++ (Decimal.ofNat p.unitDeviceId).text ++
    ascii ",\"unit_id\":" ++ (intText p.unitId).bytes ++ ascii "\x7d"

/-- `classic_get_reading`: an empty object before the first good reply. -/
def classicGetReading (c : ClassicCtx) : Option CString :=
  match classicPublished c with
  | some p => some (p.text.take 16383)
  | none => some (CString.lit "\x7b\x7d")

/-- `classic_put_settings`. -/
def classicPutSettings (c : ClassicCtx) (_ : CString) : ClassicCtx × MfErr × CString :=
  (c, .unsupported, CString.lit "read-only")

/-- What `classic_open` reads from its spec. -/
structure ClassicSpec where
  ip : CBuf 64
  port : ℤ
  unitId : ℤ
  pollIntervalS : ℚ
  deriving DecidableEq

/-- `classic_open` past the parsing of its spec. -/
def classicOpened (spec : ClassicSpec) (e : ClassicEnv) : ClassicCtx :=
  let iv := if spec.pollIntervalS ≤ 0 then 5 else spec.pollIntervalS
  (startConnect e
    { unitCfg := spec.unitId, unitTry := buildUnitList spec.unitId, itry := 0, unitOk := 0
      pollIntervalS := if iv < 1 then 1 else iv
      state := .disconnected, ioDeadline := 0, lastOk := 0, nextPoll := 0, haveData := false
      everOk := false, tx := [], txOff := 0, rx := [], tid := 0, data := ClassicData.zero
      err := CBuf.zero 96 }).1

/-- The plugin as the daemon sees it, given what happens when it opens. -/
def classicOps (spec : ClassicSpec) (opening : ClassicEnv) : PluginOps ClassicCtx ClassicEnv :=
  { kind := CString.lit "charger"
    driver := CString.lit "classic"
    describe := none
    openCtx := some fun _ => .ok (classicOpened spec opening)
    step := some pump
    caps := some classicCaps
    lastError := some classicLastError
    getReading := some classicGetReading
    getSettings := none
    putSettings := some classicPutSettings }

end MoonFlare.Classic
