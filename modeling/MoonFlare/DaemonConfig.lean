import MoonFlare.CJsonRoundTrip

/-!
# The daemon's configuration

The configuration document as the daemon holds it, in buffers of fixed size,
and its two directions: reading a document applies it key by key, writing it
prints every entry. Plugin keys the daemon has no field for travel in
`extra_json` as printed text.
-/

namespace MoonFlare

/-- `mf_config_usb_t`. -/
structure UsbConfig where
  path : CBuf 128
  serialId : CBuf 64
  byId : CBuf 256
  autoPort : Bool
  baud : Int32
  addr : Int32
  deriving DecidableEq

/-- `mf_config_ble_t`. -/
structure BleConfig where
  address : CBuf 32
  adapter : CBuf 16
  protocol : CBuf 32
  password : CBuf 64
  writeResponse : Bool
  connectTimeoutS : Int32
  deriving DecidableEq

/-- `mf_config_modbus_t`. -/
structure ModbusConfig where
  ip : CBuf 64
  port : Int32
  unitId : Int32
  mac : CBuf 32
  unitDeviceId : Int32
  autoNet : Bool
  deriving DecidableEq

/-- `mf_config_device_t`. -/
structure ConfigDevice where
  uuid : CBuf 40
  name : CBuf 64
  kind : CBuf 32
  driver : CBuf 32
  enabled : Bool
  active : Bool
  pollIntervalS : Double
  /-- Negative is the module's default. -/
  captureIntervalS : Double
  /-- Negative is the module's default. -/
  retentionDays : Double
  bus : CBuf 32
  usb : UsbConfig
  ble : BleConfig
  modbus : ModbusConfig
  /-- Plugin keys, as a printed object. -/
  extraJson : CBuf 1024
  deriving DecidableEq

/-- `MF_MAX_DEVICES`. -/
def mfMaxDevices : ℕ := 16

/-- `mf_daemon_config_t`. -/
structure DaemonConfig where
  listen : CBuf 64
  pluginDir : CBuf 256
  gattBin : CBuf 256
  historyPath : CBuf 256
  historyDir : CBuf 256
  historyEnabled : Bool
  inputMaxW : Double
  dischargeMaxW : Double
  /-- The first `n_devices` entries. -/
  devices : List ConfigDevice
  fits : devices.length ≤ mfMaxDevices
  configGen : UInt64
  deriving DecidableEq

namespace UsbConfig

/-- A zeroed structure. -/
def zero : UsbConfig := ⟨CBuf.zero 128, CBuf.zero 64, CBuf.zero 256, false, 0, 0⟩

end UsbConfig

namespace BleConfig

/-- A zeroed structure. -/
def zero : BleConfig := ⟨CBuf.zero 32, CBuf.zero 16, CBuf.zero 32, CBuf.zero 64, false, 0⟩

end BleConfig

namespace ModbusConfig

/-- A zeroed structure. -/
def zero : ModbusConfig := ⟨CBuf.zero 64, 0, 0, CBuf.zero 32, 0, false⟩

end ModbusConfig

namespace ConfigDevice

/-- A zeroed structure. -/
def zero : ConfigDevice :=
  ⟨CBuf.zero 40, CBuf.zero 64, CBuf.zero 32, CBuf.zero 32, false, false, Double.zero, Double.zero,
    Double.zero, CBuf.zero 32, UsbConfig.zero, BleConfig.zero, ModbusConfig.zero, CBuf.zero 1024⟩

end ConfigDevice

/-- `mf_config_defaults`. -/
def mfConfigDefaults : DaemonConfig :=
  { listen := CBuf.copy 64 (CString.lit "0.0.0.0:5250")
    pluginDir := CBuf.copy 256 (CString.lit "/usr/local/lib/moon-flare")
    gattBin := CBuf.copy 256 (CString.lit "/usr/local/libexec/mf_gatt")
    historyPath := CBuf.copy 256 (CString.lit "/var/lib/moonflare/history.sqlite")
    historyDir := CBuf.copy 256 (CString.lit "/var/lib/moonflare/history")
    historyEnabled := true
    inputMaxW := Double.ofInt 3500
    dischargeMaxW := Double.ofInt 3000
    devices := []
    fits := Nat.zero_le _
    configGen := 1 }

/-- `mf_config_device_endpoint`. -/
def mfConfigDeviceEndpoint (d : ConfigDevice) : CBuf 160 :=
  if d.usb.path.str.nonempty then CBuf.copy 160 (CString.lit "usb:" ++ d.usb.path.str)
  else if d.usb.serialId.str.nonempty then
    CBuf.copy 160 (CString.lit "usb-id:" ++ d.usb.serialId.str)
  else if d.ble.address.str.nonempty then CBuf.copy 160 (CString.lit "ble:" ++ d.ble.address.str)
  else if d.modbus.ip.str.nonempty then
    let port := if 0 < d.modbus.port.toInt then d.modbus.port.toInt else 502
    CBuf.copy 160 (CString.lit "tcp:" ++ d.modbus.ip.str ++ CString.lit ":" ++ intText port)
  else CBuf.zero 160

open CJson

/-- `cJSON_AddStringOrNull`. -/
def stringOrNull (s : CString) : CJson := if s.nonempty then .string s else .null

/-- An `int` member. -/
def intItem (z : Int32) : CJson := .number (Double.ofInt z)

/-- The members `device_to_json` writes from the structure's own fields. -/
def deviceMembers (d : ConfigDevice) : List (CString × CJson) :=
  [(CString.lit "uuid", stringOrNull d.uuid.str),
    (CString.lit "name", stringOrNull d.name.str),
    (CString.lit "kind", stringOrNull d.kind.str),
    (CString.lit "driver", stringOrNull d.driver.str),
    (CString.lit "enabled", .bool d.enabled),
    (CString.lit "active", .bool d.active),
    (CString.lit "poll_interval_s", .number d.pollIntervalS),
    (CString.lit "capture_interval_s", .number d.captureIntervalS),
    (CString.lit "retention_days", .number d.retentionDays),
    (CString.lit "bus", stringOrNull d.bus.str),
    (CString.lit "usb", .object
      [(CString.lit "path", stringOrNull d.usb.path.str),
        (CString.lit "serial_id", stringOrNull d.usb.serialId.str),
        (CString.lit "by_id", stringOrNull d.usb.byId.str),
        (CString.lit "auto_port", .bool d.usb.autoPort),
        (CString.lit "baud", intItem d.usb.baud),
        (CString.lit "addr", intItem d.usb.addr)]),
    (CString.lit "ble", .object
      [(CString.lit "address", stringOrNull d.ble.address.str),
        (CString.lit "adapter", stringOrNull d.ble.adapter.str),
        (CString.lit "protocol", stringOrNull d.ble.protocol.str),
        (CString.lit "password", stringOrNull d.ble.password.str),
        (CString.lit "write_response", .bool d.ble.writeResponse),
        (CString.lit "connect_timeout_s", intItem d.ble.connectTimeoutS)]),
    (CString.lit "modbus", .object
      [(CString.lit "ip", stringOrNull d.modbus.ip.str),
        (CString.lit "port", intItem d.modbus.port),
        (CString.lit "unit_id", intItem d.modbus.unitId),
        (CString.lit "mac", stringOrNull d.modbus.mac.str),
        (CString.lit "unit_device_id", intItem d.modbus.unitDeviceId),
        (CString.lit "auto_net", .bool d.modbus.autoNet)])]

/-- The plugin keys join the entry, unless a key is there already. -/
def addExtra (ms : List (CString × CJson)) : List (CString × CJson) → List (CString × CJson)
  | [] => ms
  | (k, v) :: es => addExtra (if (lookup k ms).isSome then ms else ms ++ [(k, v)]) es

/-- `device_to_json`. -/
def deviceToJson (d : ConfigDevice) : CJson :=
  .object (addExtra (deviceMembers d)
    (if d.extraJson.str.nonempty then ((parse d.extraJson.str).map members).getD [] else []))

/-- `mf_config_device_serialize`. -/
def mfConfigDeviceSerialize (d : ConfigDevice) : CString := printText (deviceToJson d)

/-- The document `mf_config_serialize` prints. -/
def configToJson (cfg : DaemonConfig) : CJson :=
  .object
    [(CString.lit "listen", stringOrNull cfg.listen.str),
      (CString.lit "plugin_dir", stringOrNull cfg.pluginDir.str),
      (CString.lit "gatt_bin", stringOrNull cfg.gattBin.str),
      (CString.lit "history", .object
        [(CString.lit "path", stringOrNull cfg.historyPath.str),
          (CString.lit "dir", stringOrNull cfg.historyDir.str),
          (CString.lit "enabled", .bool cfg.historyEnabled)]),
      (CString.lit "system", .object
        [(CString.lit "input_max_w", .number cfg.inputMaxW),
          (CString.lit "discharge_max_w", .number cfg.dischargeMaxW)]),
      (CString.lit "devices", .array (cfg.devices.map deviceToJson))]

/-- `mf_config_serialize`. -/
def mfConfigSerialize (cfg : DaemonConfig) : CString := printText (configToJson cfg)

/-- A string member, copied into a buffer when it is there. -/
def applyString {cap : ℕ} [NeZero cap] (j : CJson) (key : String) (old : CBuf cap) : CBuf cap :=
  match (j.get (CString.lit key)).bind string? with
  | some s => CBuf.copy cap s
  | none => old

/-- A number member, when it is there. -/
def applyNumber (j : CJson) (key : String) (old : Double) : Double :=
  ((j.get (CString.lit key)).bind number?).getD old

/-- The `valueint` of a number member, when it is there. -/
def applyInt (j : CJson) (key : String) (old : Int32) : Int32 :=
  match (j.get (CString.lit key)).bind number? with
  | some v => Int32.ofInt v.toInt
  | none => old

/-- A member that only counts when it is true. -/
def applyTrue (j : CJson) (key : String) (old : Bool) : Bool :=
  if j.get (CString.lit key) = some (.bool true) then true else old

/-- `apply_usb`. -/
def applyUsb (u : UsbConfig) (j : CJson) : UsbConfig :=
  { path := applyString j "path" u.path
    serialId := applyString j "serial_id" u.serialId
    byId := applyString j "by_id" u.byId
    autoPort := applyTrue j "auto_port" u.autoPort
    baud := applyInt j "baud" u.baud
    addr := applyInt j "addr" u.addr }

/-- `apply_ble`. -/
def applyBle (b : BleConfig) (j : CJson) : BleConfig :=
  { address := applyString j "address" b.address
    adapter := applyString j "adapter" b.adapter
    protocol := applyString j "protocol" b.protocol
    password := applyString j "password" b.password
    writeResponse := applyTrue j "write_response" b.writeResponse
    connectTimeoutS := applyInt j "connect_timeout_s" b.connectTimeoutS }

/-- `apply_modbus`: numbers that are not given are -1. -/
def applyModbus (j : CJson) : ModbusConfig :=
  { ip := applyString j "ip" (CBuf.zero 64)
    port := applyInt j "port" (-1)
    unitId := applyInt j "unit_id" (-1)
    mac := applyString j "mac" (CBuf.zero 32)
    unitDeviceId := applyInt j "unit_device_id" (-1)
    autoNet := applyTrue j "auto_net" false }

/-- The keys `apply_device` has a field for. -/
def knownKeys : List CString :=
  ["uuid", "name", "kind", "driver", "enabled", "active", "poll_interval_s", "capture_interval_s",
    "retention_days", "bus", "usb", "ble", "modbus"].map CString.lit

/-- A key that belongs to the plugin: unknown to the daemon and undotted. -/
def isExtraKey (k : CString) : Bool := decide (k ∉ knownKeys) && decide ((46 : UInt8) ∉ k.bytes)

/-- The plugin keys of an entry. -/
def extraMembers (j : CJson) : List (CString × CJson) := j.members.filter fun m => isExtraKey m.1

/-- The plugin keys as `apply_device` keeps them: nothing when the printed
object does not fit. -/
def applyExtra (j : CJson) : CBuf 1024 :=
  let s := printText (.object (extraMembers j))
  if h : extraMembers j ≠ [] ∧ s.length < 1024 then ⟨s, h.2⟩ else CBuf.zero 1024

/-- `apply_device`: `none` for an entry without a uuid. -/
def applyDevice (j : CJson) : Option ConfigDevice :=
  match (j.get (CString.lit "uuid")).bind string? with
  | none => none
  | some uuid =>
    if j.isObject ∧ uuid.nonempty then
      some
        { uuid := CBuf.copy 40 uuid
          name := applyString j "name" (CBuf.zero 64)
          kind := applyString j "kind" (CBuf.zero 32)
          driver := applyString j "driver" (CBuf.zero 32)
          enabled := applyTrue j "enabled" false
          active := decide (j.get (CString.lit "active") ≠ some (.bool false))
          pollIntervalS := applyNumber j "poll_interval_s" Double.zero
          captureIntervalS := applyNumber j "capture_interval_s" Double.negOne
          retentionDays := applyNumber j "retention_days" Double.negOne
          bus := applyString j "bus" (CBuf.zero 32)
          usb := match j.get (CString.lit "usb") with
            | some (.object ms) => applyUsb UsbConfig.zero (.object ms)
            | _ => UsbConfig.zero
          ble := match j.get (CString.lit "ble") with
            | some (.object ms) => applyBle BleConfig.zero (.object ms)
            | _ => BleConfig.zero
          modbus := match j.get (CString.lit "modbus") with
            | some (.object ms) => applyModbus (.object ms)
            | _ => ModbusConfig.zero
          extraJson := applyExtra j }
    else none

/-- The entries the loop over a `devices` array keeps. -/
def applyDevices (items : List CJson) : List ConfigDevice :=
  (items.filterMap applyDevice).take mfMaxDevices

/-- `strrchr(path, '/')` as `apply_history` uses it: the directory in front
of the last slash, or a dot. -/
def parentDir (path : CString) : CString :=
  if (47 : UInt8) ∈ path.bytes then
    path.take (path.length - 1 - (path.bytes.reverse.takeWhile (· ≠ 47)).length)
  else CString.lit "."

/-- The history directory: `dir`, else a directory beside `path`. -/
def applyHistoryDir (h : CJson) (path dir : CBuf 256) : CBuf 256 :=
  match (h.get (CString.lit "dir")).bind string? with
  | some s => CBuf.copy 256 s
  | none =>
    match (h.get (CString.lit "path")).bind string? with
    | some _ => CBuf.copy 256 (parentDir path.str ++ CString.lit "/history")
    | none => dir

/-- A number member that only counts when it is positive. -/
def applyPositive (j : CJson) (key : String) (old : Double) : Double :=
  match (j.get (CString.lit key)).bind number? with
  | some v => if Double.zero.lt v then v else old
  | none => old

/-- `mf_config_apply_json`. Keys that are absent keep what is there. -/
def mfConfigApplyJson (cfg : DaemonConfig) (j : CJson) : DaemonConfig :=
  if j.isObject then
    let cfg := { cfg with
      listen := applyString j "listen" cfg.listen
      pluginDir := applyString j "plugin_dir" cfg.pluginDir
      gattBin := applyString j "gatt_bin" cfg.gattBin }
    let cfg := match j.get (CString.lit "history") with
      | some (.object ms) =>
        let h := object ms
        let path := applyString h "path" cfg.historyPath
        { cfg with
          historyPath := path
          historyDir := applyHistoryDir h path cfg.historyDir
          historyEnabled := applyTrue h "enabled" cfg.historyEnabled }
      | _ => cfg
    let cfg := match j.get (CString.lit "system") with
      | some (.object ms) =>
        { cfg with
          inputMaxW := applyPositive (.object ms) "input_max_w" cfg.inputMaxW
          dischargeMaxW := applyPositive (.object ms) "discharge_max_w" cfg.dischargeMaxW }
      | _ => cfg
    match j.get (CString.lit "devices") with
    | some (.array items) =>
      { cfg with
        devices := applyDevices items
        fits := by simp only [applyDevices, List.length_take]; omega }
    | _ => cfg
  else cfg

/-- `mf_config_redact`. -/
def mfConfigRedact (cfg : DaemonConfig) : DaemonConfig :=
  { cfg with
    devices := cfg.devices.map fun d => { d with ble := { d.ble with password := CBuf.zero 64 } }
    fits := by simpa using cfg.fits }

end MoonFlare
