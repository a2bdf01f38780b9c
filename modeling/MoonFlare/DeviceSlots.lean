import MoonFlare.DaemonConfig
import MoonFlare.Plugin

/-!
# Device slots

The table of device slots, the queue of modules waiting for their old slot to
stop, and the operations on both: adding, stopping, applying a configuration,
retrying the queue, and the slot's thread. A slot is free, live, or stopping
until its thread has run once more.
-/

namespace MoonFlare

/-- `MF_DEVICE_SLOTS`. -/
def mfDeviceSlots : ℕ := 32

/-- `mf_device_t` while it is in use. -/
structure Slot (κ ε : Type) where
  stop : Bool
  uuid : CBuf 37
  name : CBuf 32
  kind : CBuf 16
  driver : CBuf 16
  bus : CBuf 32
  endpoint : CBuf 160
  enabled : Bool
  active : Bool
  caps : ℕ
  ops : Option (PluginOps κ ε)
  ctx : Option κ
  online : Bool
  haveData : Bool
  seq : UInt64
  pollIntervalS : Double
  captureIntervalS : Double
  retentionDays : Double
  lastError : CBuf 96
  readingJson : CBuf 16384

/-- `mf_sample_t`, its time stamp apart. -/
structure Sample where
  uuid : CBuf 37
  online : Bool
  captureIntervalS : Double
  reading : CBuf 4096
  deriving DecidableEq

/-- The module state of `device.c` and what it has handed to the history
store. -/
structure Devices (κ ε : Type) where
  /-- `g_reg`. -/
  registry : Registry κ ε
  /-- `g_dev`: free slots are `none`. -/
  slots : Fin mfDeviceSlots → Option (Slot κ ε)
  /-- `g_pending`: unused entries are `none`. -/
  pending : Fin mfDeviceSlots → Option ConfigDevice
  /-- `mf_history_is_open`. -/
  historyOpen : Bool
  /-- Samples handed to `mf_history_enqueue`. -/
  samples : List Sample
  /-- A full table has turned a module away. -/
  limitHit : Bool

variable {κ ε : Type}

/-- `mf_devices_init`. -/
def mfDevicesInit (registry : Registry κ ε) (historyOpen : Bool) : Devices κ ε :=
  ⟨registry, fun _ => none, fun _ => none, historyOpen, [], false⟩

namespace Devices

/-- Whether a slot in use satisfies a test. -/
def anySlot (dv : Devices κ ε) (p : Slot κ ε → Bool) : Bool :=
  (List.finRange mfDeviceSlots).any fun i => (dv.slots i).any p

/-- The first slot in use that satisfies a test. -/
def findSlot (dv : Devices κ ε) (p : Slot κ ε → Bool) : Option (Fin mfDeviceSlots) :=
  (List.finRange mfDeviceSlots).find? fun i => (dv.slots i).any p

theorem anySlot_iff {dv : Devices κ ε} {p : Slot κ ε → Bool} :
    dv.anySlot p = true ↔ ∃ i d, dv.slots i = some d ∧ p d = true := by
  simp only [anySlot, List.any_eq_true, List.mem_finRange, true_and, Option.any_eq_true]

theorem anySlot_eq_false {dv : Devices κ ε} {p : Slot κ ε → Bool} :
    dv.anySlot p = false ↔ ∀ i d, dv.slots i = some d → p d = false := by
  rw [← Bool.not_eq_true, anySlot_iff]
  push Not
  simp

theorem findSlot_some {dv : Devices κ ε} {p : Slot κ ε → Bool} {i : Fin mfDeviceSlots}
    (h : dv.findSlot p = some i) : ∃ d, dv.slots i = some d ∧ p d = true := by
  simpa [Option.any_eq_true] using List.find?_some h

theorem findSlot_eq_none {dv : Devices κ ε} {p : Slot κ ε → Bool} :
    dv.findSlot p = none ↔ dv.anySlot p = false := by
  simp [findSlot, anySlot, List.find?_eq_none, List.any_eq_false]

/-- `name_taken`. -/
def nameTaken (dv : Devices κ ε) (name : CString) : Bool := dv.anySlot fun d => d.name.str = name

/-- `uuid_in_use`, which `find_slot_uuid` agrees with. -/
def uuidInUse (dv : Devices κ ε) (uuid : CString) : Bool :=
  uuid.nonempty && dv.anySlot fun d => d.uuid.str = uuid

/-- `mf_devices_any_dying`. -/
def anyDying (dv : Devices κ ε) : Bool := dv.anySlot (·.stop)

/-- `find_live_mut`. -/
def findLive (dv : Devices κ ε) (uuid : CString) : Option (Fin mfDeviceSlots) :=
  if uuid.nonempty then dv.findSlot fun d => !d.stop && decide (d.uuid.str = uuid) else none

/-- The first free slot. -/
def freeSlot (dv : Devices κ ε) : Option (Fin mfDeviceSlots) :=
  (List.finRange mfDeviceSlots).find? fun i => (dv.slots i).isNone

/-- Write one slot. -/
def setSlot (dv : Devices κ ε) (i : Fin mfDeviceSlots) (d : Option (Slot κ ε)) : Devices κ ε :=
  { dv with slots := Function.update dv.slots i d }

end Devices

/-- `refresh_reading`: the slot, and the samples it hands to the history. -/
def refreshReading (historyOpen : Bool) (d : Slot κ ε) : Slot κ ε × List Sample :=
  match d.ops, d.ctx with
  | some ops, some ctx =>
    match ops.getReading with
    | none => (d, [])
    | some getReading =>
      match getReading ctx with
      | none =>
        ({ d with
            online := false
            lastError := match ops.lastError with
              | some lastError => CBuf.copy 96 (lastError ctx)
              | none => d.lastError }, [])
      | some reading =>
        let d := { d with
          readingJson := CBuf.copy 16384 reading
          haveData := true, online := true, seq := d.seq + 1, lastError := CBuf.zero 96
          caps := match ops.caps with
            | some caps => caps ctx
            | none => d.caps }
        if historyOpen ∧ Double.zero.lt d.captureIntervalS then
          let reading := d.readingJson.str
          (d, [⟨d.uuid, d.online, d.captureIntervalS,
            CBuf.copy 4096 (if reading.length < 4096 then reading else CString.lit "\x7b\x7d")⟩])
        else (d, [])
  | _, _ => (d, [])

/-- One round of `device_pt`: a stopping slot is freed, a live one steps. -/
def devicePt (historyOpen : Bool) (e : ε) (d : Slot κ ε) : Option (Slot κ ε) × List Sample :=
  if d.stop then (none, [])
  else
    match d.ops, d.ctx with
    | some ops, some ctx =>
      match ops.step with
      | none => (some d, [])
      | some step =>
        let (ctx', st) := step e ctx
        let d := { d with ctx := some ctx' }
        if st = .error then
          (some { d with
            online := false
            lastError := match ops.lastError with
              | some lastError => CBuf.copy 96 (lastError ctx')
              | none => d.lastError }, [])
        else
          let (d, samples) := refreshReading historyOpen d
          (some d, samples)
    | _, _ => (some d, [])

/-- A tick of the thread of slot `i`. -/
def Devices.tick (dv : Devices κ ε) (i : Fin mfDeviceSlots) (e : ε) : Devices κ ε :=
  match dv.slots i with
  | none => dv
  | some d =>
    let (d', samples) := devicePt dv.historyOpen e d
    { dv.setSlot i d' with samples := dv.samples ++ samples }

/-- The identity `identity_from_spec` reads from a spec: bus, endpoint and
poll interval. -/
structure SpecIdentity where
  bus : CBuf 32
  endpoint : CBuf 160
  poll : Double
  deriving DecidableEq

/-- A nonempty string member of a member. -/
def specString (spec : Option CJson) (key : String) : Option CString :=
  ((getCase? spec key).bind CJson.string?).filter CString.nonempty

/-- The endpoint `identity_from_spec` finds: the first transport that has
one. -/
def specEndpoint (spec : CJson) : CBuf 160 :=
  let usb := (getCase? (some spec) "usb").filter CJson.isObject
  let ble := (getCase? (some spec) "ble").filter CJson.isObject
  let mb := (getCase? (some spec) "modbus").filter CJson.isObject
  match specString usb "path" with
  | some p => CBuf.copy 160 (CString.lit "usb:" ++ p)
  | none =>
    match specString usb "serial_id" with
    | some s => CBuf.copy 160 (CString.lit "usb-id:" ++ s)
    | none =>
      match specString ble "address" with
      | some a => CBuf.copy 160 (CString.lit "ble:" ++ a)
      | none =>
        match specString mb "ip" with
        | some ip =>
          let port := match (getCase? mb "port").bind CJson.number? with
            | some v => if 0 < v.toInt then v.toInt else 502
            | none => 502
          CBuf.copy 160 (CString.lit "tcp:" ++ ip ++ CString.lit ":" ++ intText port)
        | none => CBuf.zero 160

/-- `identity_from_spec`, with the caller's default poll interval. -/
def identityFromSpec (spec : CString) (poll : Double) : SpecIdentity :=
  match CJson.parse spec with
  | none => ⟨CBuf.zero 32, CBuf.zero 160, poll⟩
  | some j =>
    { bus := match (getCase? (some j) "bus").bind CJson.string? with
        | some s => CBuf.copy 32 s
        | none => CBuf.zero 32
      endpoint := specEndpoint j
      poll := match (getCase? (some j) "poll_interval_s").bind CJson.number? with
        | some v => if Double.zero.lt v then v else poll
        | none => poll }

/-- `mf_poll_interval_min`. -/
def mfPollIntervalMin (driver : CString) : Double :=
  if driver = CString.lit "classic" then Double.one
  else if driver = CString.lit "jk" then Double.one
  else Double.half

/-- Why `mf_devices_add` refuses a module. -/
inductive AddError where
  | required
  | nameTooLong
  | nameInUse
  | uuidInUse
  | unknownDriver
  | limit
  | openFailed (text : CString)
  deriving DecidableEq

/-- The return value of `mf_devices_add` for each refusal. -/
def AddError.code : AddError → ℤ
  | required => -1
  | nameTooLong => -1
  | nameInUse => -3
  | uuidInUse => -3
  | unknownDriver => -2
  | limit => -4
  | openFailed _ => -5

/-- The text `mf_devices_add` leaves for each refusal. -/
def AddError.text : AddError → CString
  | required => CString.lit "name, kind, and driver are required"
  | nameTooLong => CString.lit "name too long"
  | nameInUse => CString.lit "name in use"
  | uuidInUse => CString.lit "uuid in use"
  | unknownDriver => CString.lit "unknown kind/driver"
  | limit => CString.lit "device limit reached"
  | openFailed text => if text.nonempty then text else CString.lit "open failed"

/-- Two seconds, the poll interval of a spec without one. -/
def twoSeconds : Double := Double.ofInt 2

/-- The slot `mf_devices_add` fills in before it opens the plugin. -/
def newSlot (ops : Option (PluginOps κ ε)) (name kind driver spec : CString) (uuid : CBuf 37) :
    Slot κ ε :=
  let id := identityFromSpec spec twoSeconds
  let driver := CBuf.copy 16 driver
  let mn := mfPollIntervalMin driver.str
  let root := CJson.parse spec
  let number := fun key => ((getCase? root key).bind CJson.number?).getD Double.negOne
  { stop := false, uuid := uuid, name := CBuf.copy 32 name, kind := CBuf.copy 16 kind
    driver := driver, bus := id.bus, endpoint := id.endpoint, enabled := true
    active := decide (getCase? root "active" ≠ some (.bool false))
    caps := 0, ops := ops, ctx := none, online := false, haveData := false, seq := 0
    pollIntervalS := if id.poll.lt mn then mn else id.poll
    captureIntervalS := captureResolve ops (number "capture_interval_s")
    retentionDays := number "retention_days"
    lastError := CBuf.zero 96, readingJson := CBuf.copy 16384 (CString.lit "\x7b\x7d") }

/-- Opening a new slot's plugin, with its first reading. -/
def openSlot (historyOpen : Bool) (spec : CString) (d : Slot κ ε) :
    Except AddError (Slot κ ε × List Sample) :=
  match d.ops.bind (·.openCtx) with
  | none => .ok (d, [])
  | some openCtx =>
    match openCtx spec with
    | .error text => .error (.openFailed (text.take 95))
    | .ok ctx =>
      .ok (refreshReading historyOpen { d with
        ctx := some ctx
        caps := match d.ops.bind (·.caps) with
          | some caps => caps ctx
          | none => d.caps })

/-- `mf_devices_add`, with the uuid the kernel would generate when none is
given. -/
def mfDevicesAdd (dv : Devices κ ε) (name kind driver spec : CString) (uuidIn : CString)
    (generated : CBuf 37) : Devices κ ε × Except AddError (CBuf 37) :=
  if ¬name.nonempty ∨ ¬kind.nonempty ∨ ¬driver.nonempty then (dv, .error .required)
  else if 32 ≤ name.length then (dv, .error .nameTooLong)
  else if dv.nameTaken name then (dv, .error .nameInUse)
  else if dv.uuidInUse uuidIn then (dv, .error .uuidInUse)
  else if dv.registry ≠ [] ∧ (mfPluginsFind dv.registry kind driver).isNone then
    (dv, .error .unknownDriver)
  else
    match dv.freeSlot with
    | none => ({ dv with limitHit := true }, .error .limit)
    | some i =>
      let uuid := if uuidIn.nonempty then CBuf.copy 37 uuidIn else generated
      let d := newSlot (mfPluginsFind dv.registry kind driver) name kind driver spec uuid
      match openSlot dv.historyOpen spec d with
      | .error e => (dv, .error e)
      | .ok (d, samples) =>
        ({ dv.setSlot i (some d) with samples := dv.samples ++ samples }, .ok uuid)

/-- `pending_cancel`. -/
def pendingCancel (pending : Fin mfDeviceSlots → Option ConfigDevice) (uuid : CString) :
    Fin mfDeviceSlots → Option ConfigDevice :=
  fun j => (pending j).filter fun p => decide (¬(uuid.nonempty ∧ p.uuid.str = uuid))

/-- Where `pending_queue` puts an entry: over one of the same uuid, else in
the first unused place. -/
def pendingPlace (pending : Fin mfDeviceSlots → Option ConfigDevice) (uuid : CString) :
    Option (Fin mfDeviceSlots) :=
  ((List.finRange mfDeviceSlots).find? fun j => (pending j).any fun p => p.uuid.str = uuid).or
    ((List.finRange mfDeviceSlots).find? fun j => (pending j).isNone)

/-- `pending_queue`. -/
def pendingQueue (dv : Devices κ ε) (dev : ConfigDevice) : Devices κ ε :=
  match pendingPlace dv.pending dev.uuid.str with
  | some j => { dv with pending := Function.update dv.pending j (some dev) }
  | none => { dv with limitHit := true }

/-- `add_from_cfg`. The uuid of an entry is given, so none is generated. -/
def addFromCfg (dv : Devices κ ε) (dev : ConfigDevice) : Devices κ ε × Except AddError (CBuf 37) :=
  mfDevicesAdd dv dev.name.str dev.kind.str dev.driver.str (mfConfigDeviceSerialize dev)
    dev.uuid.str (CBuf.zero 37)

/-- `identity_changed`. -/
def identityChanged (d : Slot κ ε) (n : ConfigDevice) : Bool :=
  !(decide (d.kind.str = n.kind.str) && decide (d.driver.str = n.driver.str) &&
    decide (d.bus.str = n.bus.str) && decide (d.endpoint = mfConfigDeviceEndpoint n))

/-- Why `validate_apply` refuses a configuration. -/
inductive ConfigError where
  | missingUuid
  | required
  | nameTooLong
  | duplicateUuid
  | duplicateName
  | duplicateEndpoint
  | unknownDriver
  | pollBelow (driver : CString)
  | captureBelow
  | stillStopping
  deriving DecidableEq

/-- The text `validate_apply` leaves for each refusal. -/
def ConfigError.text : ConfigError → CString
  | missingUuid => CString.lit "device missing uuid"
  | required => CString.lit "name, kind, and driver are required"
  | nameTooLong => CString.lit "name too long"
  | duplicateUuid => CString.lit "duplicate uuid"
  | duplicateName => CString.lit "duplicate name"
  | duplicateEndpoint => CString.lit "duplicate endpoint"
  | unknownDriver => CString.lit "unknown kind/driver"
  | pollBelow driver =>
    if mfPollIntervalMin driver = Double.one then CString.lit "poll_interval_s below 1.0"
    else CString.lit "poll_interval_s below 0.5"
  | captureBelow => CString.lit "capture_interval_s must be 0 (off) or >= 1.0"
  | stillStopping => CString.lit "channel still stopping"

/-- A condition that fails with an error. -/
def failIf (c : Prop) [Decidable c] (e : ConfigError) : Option ConfigError := if c then some e else none

/-- What an entry must satisfy before it is compared with the later ones. -/
def checkFields (d : ConfigDevice) : Option ConfigError :=
  (failIf (¬d.uuid.str.nonempty) .missingUuid).or <|
  (failIf (d.enabled ∧ (¬d.name.str.nonempty ∨ ¬d.kind.str.nonempty ∨ ¬d.driver.str.nonempty))
    .required).or <|
  failIf (d.name.str.nonempty ∧ 32 ≤ d.name.str.length) .nameTooLong

/-- What an entry must not share with a later one. -/
def checkPair (d e : ConfigDevice) : Option ConfigError :=
  (failIf (d.uuid = e.uuid) .duplicateUuid).or <|
  (failIf (d.name.str.nonempty ∧ d.name = e.name) .duplicateName).or <|
  failIf ((mfConfigDeviceEndpoint d).str.nonempty ∧ (mfConfigDeviceEndpoint e).str.nonempty ∧
    mfConfigDeviceEndpoint d = mfConfigDeviceEndpoint e) .duplicateEndpoint

/-- What an entry must satisfy after that. -/
def checkValues (reg : Registry κ ε) (d : ConfigDevice) : Option ConfigError :=
  (failIf (d.enabled ∧ reg ≠ [] ∧ (mfPluginsFind reg d.kind.str d.driver.str).isNone)
    .unknownDriver).or <|
  (failIf (Double.zero.lt d.pollIntervalS ∧ d.pollIntervalS.lt (mfPollIntervalMin d.driver.str))
    (.pollBelow d.driver.str)).or <|
  failIf (Double.zero.lt d.captureIntervalS ∧ d.captureIntervalS.lt Double.one) .captureBelow

/-- The first loop of `validate_apply`. -/
def validateEntries (reg : Registry κ ε) : List ConfigDevice → Option ConfigError
  | [] => none
  | d :: rest =>
    (checkFields d).or <| (rest.findSome? (checkPair d)).or <|
      (checkValues reg d).or <| validateEntries reg rest

/-- A slot that stands in the way of an entry: another module of its name or
endpoint that the configuration does not mention. -/
def blocks (devs : List ConfigDevice) (dev : ConfigDevice) (d : Slot κ ε) : Bool :=
  decide (d.uuid.str ≠ dev.uuid.str) &&
    (dev.name.str.nonempty && decide (d.name.str = dev.name.str) ||
      (mfConfigDeviceEndpoint dev).str.nonempty && d.endpoint.str.nonempty &&
        decide (d.endpoint = mfConfigDeviceEndpoint dev)) &&
    !(d.uuid.str.nonempty && devs.any fun e => e.uuid.str = d.uuid.str)

/-- `validate_apply`, the body of `mf_devices_validate_config`. -/
def validateApply (dv : Devices κ ε) (devs : List ConfigDevice) : Option ConfigError :=
  (validateEntries dv.registry devs).or <|
    failIf (devs.any fun dev => dev.enabled && dv.anySlot (blocks devs dev)) .stillStopping

/-- The entry a configuration has for a uuid. -/
def wanted (devs : List ConfigDevice) (uuid : CString) : Option ConfigDevice :=
  devs.find? fun e => e.uuid.str = uuid

/-- What the first loop of `mf_devices_apply_config` does to a slot in use. -/
inductive Verdict where
  | retire
  | reopen (dev : ConfigDevice)
  | patch (dev : ConfigDevice)
  deriving DecidableEq

/-- The verdict on a slot: not wanted, wanted with another identity, or
wanted as it is. -/
def verdict (devs : List ConfigDevice) (d : Slot κ ε) : Verdict :=
  match wanted devs d.uuid.str with
  | none => .retire
  | some want =>
    if !want.enabled then .retire
    else if identityChanged d want then .reopen want
    else .patch want

/-- A slot that keeps running takes over its entry's settings. -/
def patchSlot (d : Slot κ ε) (want : ConfigDevice) : Slot κ ε :=
  { d with
    name := CBuf.copy 32 want.name.str
    enabled := want.enabled
    active := want.active
    pollIntervalS :=
      if Double.zero.lt want.pollIntervalS then
        let mn := mfPollIntervalMin d.driver.str
        if want.pollIntervalS.lt mn then mn else want.pollIntervalS
      else d.pollIntervalS
    captureIntervalS := captureResolve d.ops want.captureIntervalS
    retentionDays := want.retentionDays }

/-- The first loop of `mf_devices_apply_config`, on the slot itself. -/
def applySlot (devs : List ConfigDevice) (d : Slot κ ε) : Slot κ ε :=
  match verdict devs d with
  | .retire => { d with stop := true }
  | .reopen _ => { d with stop := true }
  | .patch want => patchSlot d want

/-- The first loop of `mf_devices_apply_config`, on the queue. -/
def applyQueue (devs : List ConfigDevice) (dv : Devices κ ε) (d : Slot κ ε) : Devices κ ε :=
  match verdict devs d with
  | .retire => { dv with pending := pendingCancel dv.pending d.uuid.str }
  | .reopen want => pendingQueue dv want
  | .patch _ => dv

/-- One round of the first loop. -/
def applyRound (devs : List ConfigDevice) (dv : Devices κ ε) (i : Fin mfDeviceSlots) : Devices κ ε :=
  match dv.slots i with
  | none => dv
  | some d => (applyQueue devs dv d).setSlot i (some (applySlot devs d))

/-- One round of the second loop, which adds the enabled entries that have no
slot. Only a collision is queued. -/
def addRound (dv : Devices κ ε) (dev : ConfigDevice) : Devices κ ε :=
  if !dev.enabled then dv
  else if dv.uuidInUse dev.uuid.str then dv
  else
    match addFromCfg dv dev with
    | (dv', .error e) => if e.code = -3 then pendingQueue dv' dev else dv'
    | (dv', .ok _) => dv'

/-- `mf_devices_apply_config` past its validation. -/
def applyAccepted (dv : Devices κ ε) (devs : List ConfigDevice) : Devices κ ε :=
  devs.foldl addRound ((List.finRange mfDeviceSlots).foldl (applyRound devs) dv)

/-- The return value 1 of `mf_devices_apply_config`: something is left to do. -/
def Devices.applyPendingLeft (dv : Devices κ ε) : Bool :=
  dv.anyDying || (List.finRange mfDeviceSlots).any fun j => (dv.pending j).isSome

/-- `mf_devices_apply_config`: the error, or whether something is left to do. -/
def mfDevicesApplyConfig (dv : Devices κ ε) (devs : List ConfigDevice) :
    Devices κ ε × Except ConfigError Bool :=
  match validateApply dv devs with
  | some e => (dv, .error e)
  | none =>
    let dv := applyAccepted dv devs
    (dv, .ok dv.applyPendingLeft)

/-- One round of `mf_devices_apply_pending`. -/
def pendingRound (dv : Devices κ ε) (j : Fin mfDeviceSlots) : Devices κ ε :=
  match dv.pending j with
  | none => dv
  | some dev =>
    if dv.uuidInUse dev.uuid.str then dv
    else
      match addFromCfg dv dev with
      | (dv', .error e) =>
        if e.code = -3 then dv' else { dv' with pending := Function.update dv'.pending j none }
      | (dv', .ok _) => { dv' with pending := Function.update dv'.pending j none }

/-- `mf_devices_apply_pending`. -/
def mfDevicesApplyPending (dv : Devices κ ε) : Devices κ ε :=
  (List.finRange mfDeviceSlots).foldl pendingRound dv

/-- `mf_devices_delete`: the table and the status. -/
def mfDevicesDelete (dv : Devices κ ε) (uuid : CString) : Devices κ ε × ℕ :=
  if ¬uuid.nonempty then (dv, 404)
  else
    let dv := { dv with pending := pendingCancel dv.pending uuid }
    match dv.findSlot fun d => d.uuid.str = uuid with
    | none => (dv, 404)
    | some i => (dv.setSlot i ((dv.slots i).map fun d => { d with stop := true }), 202)

end MoonFlare
