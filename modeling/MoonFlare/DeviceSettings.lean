import MoonFlare.DeviceSlots

/-!
# Reading and writing a module's settings

`mf_devices_get_settings` and `mf_devices_put_settings`. The generic keys are
checked and stored one after another, the plugin is asked last, and what has
been stored by then stays stored when a later key is refused. What the calls
tell the history store is left out.
-/

namespace MoonFlare

open CJson

variable {κ ε : Type}

/-- The keys `is_generic_setting` knows. -/
def genericKeys : List CString :=
  ["name", "poll_interval_s", "capture_interval_s", "retention_days", "active", "uuid"].map
    CString.lit

/-- `is_generic_setting`. -/
def isGenericSetting (key : CString) : Bool := decide (key ∈ genericKeys)

/-- The members of a module's settings: the daemon's own, with the plugin's
in front of the uuid. -/
def settingsMembers (historyOpen : Bool) (historyRetention : Double) (d : Slot κ ε)
    (plug : List (CString × CJson)) : List (CString × CJson) :=
  [(CString.lit "name", .string d.name.str),
    (CString.lit "poll_interval_s", .number d.pollIntervalS)] ++
  (if (mfCaptureSpec d.ops).isSome then
    [(CString.lit "capture_interval_s", .number d.captureIntervalS),
      (CString.lit "retention_days",
        .number (if historyOpen then historyRetention else d.retentionDays))]
  else []) ++
  [(CString.lit "active", .bool d.active)] ++
  plug.filter (fun m => m.1.nonempty && !isGenericSetting m.1) ++
  [(CString.lit "uuid", .string d.uuid.str)]

/-- The settings a slot's plugin reports: nothing but an object counts. -/
def pluginSettings (d : Slot κ ε) : List (CString × CJson) :=
  match d.ops.bind (·.getSettings), d.ctx with
  | some getSettings, some ctx =>
    let plug := (getSettings ctx).str
    if plug.bytes.head? = some 123 then ((parse plug).map members).getD [] else []
  | _, _ => []

/-- `mf_devices_get_settings` into a buffer of 4096 bytes, with the retention
the history store has for the module. -/
def mfDevicesGetSettings (dv : Devices κ ε) (historyRetention : Double) (uuid : CString) :
    Option (CBuf 4096) :=
  ((dv.findLive uuid).bind dv.slots).map fun d =>
    CBuf.copy 4096 (printText (.object
      (settingsMembers dv.historyOpen historyRetention d (pluginSettings d))))

/-- Why `mf_devices_put_settings` refuses a generic key. -/
inductive SettingError where
  | activeType
  | nameRequired
  | nameTooLong
  | nameInUse
  | pollBelow (driver : CString)
  | noCapture
  | captureBelow (min : Double)
  | retentionRange
  deriving DecidableEq

/-- A double as `%g` writes it. -/
def gText : Double → Bytes
  | .nan => ascii "nan"
  | .inf neg => if neg then ascii "-inf" else ascii "inf"
  | .fin d =>
    Decimal.signedText (decide (d.val < 0)) (if d.val = 0 then Decimal.ofNat 0 else .ofG 6 |d.val|)

/-- The text `mf_devices_put_settings` leaves for each refusal. -/
def SettingError.text : SettingError → CString
  | activeType => CString.lit "active must be true or false"
  | nameRequired => CString.lit "name required"
  | nameTooLong => CString.lit "name too long"
  | nameInUse => CString.lit "name in use"
  | pollBelow driver => (ConfigError.pollBelow driver).text
  | noCapture => CString.lit "module does not capture history"
  | captureBelow min =>
    CString.lit "capture_interval_s must be 0 (off) or >= " ++ CString.ofBytes (gText min)
  | retentionRange => CString.lit "retention_days must be whole days, 0 = forever"

/-- `name_taken` with a slot to skip. -/
def Devices.nameTakenByOther (dv : Devices κ ε) (i : Fin mfDeviceSlots) (name : CString) : Bool :=
  (List.finRange mfDeviceSlots).any fun j =>
    decide (j ≠ i) && (dv.slots j).any fun d => decide (d.name.str = name)

/-- A setting given as a number or as the text of one. -/
def settingNumber : CJson → Option Double
  | .number v => some v
  | .string s => some (Double.atof s)
  | _ => none

/-- `iv >= 0 && iv == (double)(long)iv`. -/
def isWholeDays : Double → Bool
  | .fin d => decide (0 ≤ d.val) && decide (d.val.den = 1) && decide (d.val < 2 ^ 63)
  | _ => false

/-- The type check up front. -/
def checkActive (body : CJson) : Except SettingError Unit :=
  match getCase? (some body) "active" with
  | none => .ok ()
  | some (.bool _) => .ok ()
  | some _ => .error .activeType

/-- The `name` key. -/
def putName (dv : Devices κ ε) (i : Fin mfDeviceSlots) (body : CJson) (d : Slot κ ε) :
    Except SettingError (Slot κ ε) :=
  match (getCase? (some body) "name").bind string? with
  | none => .ok d
  | some name =>
    if ¬name.nonempty then .error .nameRequired
    else if 32 ≤ name.length then .error .nameTooLong
    else if dv.nameTakenByOther i name then .error .nameInUse
    else .ok { d with name := CBuf.copy 32 name }

/-- The `poll_interval_s` key. -/
def putPoll (body : CJson) (d : Slot κ ε) : Except SettingError (Slot κ ε) :=
  match (getCase? (some body) "poll_interval_s").bind settingNumber with
  | none => .ok d
  | some iv =>
    if iv.lt (mfPollIntervalMin d.driver.str) then .error (.pollBelow d.driver.str)
    else .ok { d with pollIntervalS := iv }

/-- The `capture_interval_s` key. -/
def putCapture (body : CJson) (d : Slot κ ε) : Except SettingError (Slot κ ε) :=
  match (getCase? (some body) "capture_interval_s").bind settingNumber with
  | none => .ok d
  | some iv =>
    match mfCaptureSpec d.ops with
    | none => if iv.eq Double.zero then .ok d else .error .noCapture
    | some spec =>
      if iv.lt Double.zero ∨ Double.zero.lt iv ∧ iv.lt spec.minS then
        .error (.captureBelow spec.minS)
      else .ok { d with captureIntervalS := iv }

/-- The `retention_days` key. -/
def putRetention (body : CJson) (d : Slot κ ε) : Except SettingError (Slot κ ε) :=
  match (getCase? (some body) "retention_days").bind settingNumber with
  | none => .ok d
  | some iv =>
    match mfCaptureSpec d.ops with
    | none => if iv.eq Double.zero then .ok d else .error .noCapture
    | some _ =>
      if isWholeDays iv then .ok { d with retentionDays := iv } else .error .retentionRange

/-- The `active` key. -/
def putActive (body : CJson) (d : Slot κ ε) : Slot κ ε :=
  match (getCase? (some body) "active").bind bool? with
  | none => d
  | some b => { d with active := b }

/-- The generic keys in turn: the slot as it is when the first one is refused
or all are through. -/
def putGeneric (dv : Devices κ ε) (i : Fin mfDeviceSlots) (body : CJson) (d : Slot κ ε) :
    Slot κ ε × Except SettingError Unit :=
  match checkActive body with
  | .error e => (d, .error e)
  | .ok _ =>
    match putName dv i body d with
    | .error e => (d, .error e)
    | .ok d =>
      match putPoll body d with
      | .error e => (d, .error e)
      | .ok d =>
        match putCapture body d with
        | .error e => (d, .error e)
        | .ok d =>
          match putRetention body d with
          | .error e => (d, .error e)
          | .ok d => (putActive body d, .ok ())

/-- A key the plugin is asked about. -/
def isPluginKey (key : CString) : Bool := key.nonempty && !isGenericSetting key

/-- `have_other`. -/
def haveOther (body : CJson) : Bool := body.members.any fun m => isPluginKey m.1

/-- The status for what the plugin says. -/
def MfErr.status : MfErr → ℕ
  | ok => 200
  | inval => 400
  | offline => 409
  | unsupported => 400
  | busy => 409
  | other => 400

/-- The call of the plugin's `put_settings`: the slot, the status and the
error text. -/
def putPlugin (json : CString) (d : Slot κ ε) : Slot κ ε × ℕ × CString :=
  match d.ops.bind (·.putSettings), d.ctx with
  | some putSettings, some ctx =>
    let (ctx', rc, err) := putSettings ctx json
    ({ d with ctx := some ctx' }, rc.status, err.take 95)
  | _, _ => (d, 200, CString.empty)

/-- `mf_devices_put_settings` on the slot found. -/
def putSlot (dv : Devices κ ε) (i : Fin mfDeviceSlots) (json : CString) (d : Slot κ ε) :
    Slot κ ε × ℕ × CString :=
  match (parse json).filter isObject with
  | none => (d, 200, CString.empty)
  | some body =>
    match putGeneric dv i body d with
    | (d, .error e) => (d, 400, e.text.take 95)
    | (d, .ok _) => if haveOther body then putPlugin json d else (d, 200, CString.empty)

/-- `mf_devices_put_settings`: the table, the status and the error text. -/
def mfDevicesPutSettings (dv : Devices κ ε) (uuid json : CString) :
    Devices κ ε × ℕ × CString :=
  match dv.findLive uuid with
  | none => (dv, 404, CString.empty)
  | some i =>
    match dv.slots i with
    | none => (dv, 404, CString.empty)
    | some d =>
      let (d', status, err) := putSlot dv i json d
      (dv.setSlot i (some d'), status, err)

end MoonFlare
