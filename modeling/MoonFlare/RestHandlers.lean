import MoonFlare.DeviceSettings
import MoonFlare.Secrets

/-!
# The REST handlers that change or show the configuration

The handlers of `routes.c` for modules, settings and the configuration, over
the device table and the live configuration. The file `persist_config` writes
is left out: it is the live configuration each time.
-/

namespace MoonFlare

open CJson Secrets

/-- The state the handlers work on: the device table and `live_cfg()`. -/
structure Daemon (κ ε : Type) where
  dv : Devices κ ε
  cfg : DaemonConfig

/-- What the surroundings decide in one request. -/
structure RestEnv where
  /-- The uuid the kernel generates. -/
  generated : CBuf 37
  /-- `mf_history_retention` for the module asked about. -/
  historyRetention : Double
  /-- `mf_http_rebind_listen` succeeds. -/
  rebindOk : Bool
  /-- The configuration `mf_config_load_state` reads, when there is one. -/
  saved : Option DaemonConfig

/-- `mf_rest_response_t`. -/
structure Response where
  status : ℕ
  body : CBuf 65536
  location : CBuf 128
  etag : CBuf 32
  deriving DecidableEq

/-- `set_json`: a body that is too long is cut. -/
def setJson (status : ℕ) (root : CJson) (location : CString) : Response :=
  ⟨status, CBuf.copy 65536 (printText root), CBuf.copy 128 location, CBuf.zero 32⟩

/-- `set_error`. -/
def setError (status : ℕ) (msg : CString) : Response :=
  setJson status (.object [(CString.lit "error", .string msg)]) CString.empty

/-- `set_etag_gen`. -/
def setEtagGen (resp : Response) (gen : UInt64) : Response :=
  { resp with
    etag := CBuf.copy 32 (CString.lit "\"" ++ intText gen.toNat ++ CString.lit "\"") }

/-- A nonempty error text, or the one that stands in for it. -/
def errOr (err : CString) (other : String) : CString :=
  if err.nonempty then err else CString.lit other

variable {κ ε : Type}

/-- `k_plain_describe`. -/
def kPlainDescribe : CString :=
  CString.lit ("\x7b\"fields\":[\x7b\"key\":\"poll_interval_s\",\"label\":\"Poll Interval\"," ++
    "\"hint\":\"(Seconds)\",\"type\":\"number\",\"default\":2.0\x7d]\x7d")

/-- `plugin_describe` of `routes.c`: the plain description stands in for one
without fields. -/
def restDescribe (ops : Option (PluginOps κ ε)) : CJson :=
  ((pluginDescribe ops).filter fun d => d.isObject && (getCase? (some d) "fields").any isArray).getD
    ((parse kPlainDescribe).getD .null)

/-- The `fields` of `plugin_describe`. -/
def restFields (ops : Option (PluginOps κ ε)) : List CJson :=
  ((getCase? (some (restDescribe ops)) "fields").map items).getD []

/-- `device_ops`: the plugin of a live module. -/
def deviceOps (dv : Devices κ ε) (uuid : CString) : Option (PluginOps κ ε) :=
  ((dv.findLive uuid).bind dv.slots).bind fun d =>
    mfPluginsFind dv.registry d.kind.str d.driver.str

/-! ## Changes to the live configuration -/

/-- `cfg_remove_uuid`. -/
def cfgRemoveUuid (cfg : DaemonConfig) (uuid : CString) : DaemonConfig :=
  if uuid.nonempty then
    { cfg with
      devices := cfg.devices.eraseP fun d => d.uuid.str = uuid
      fits := List.eraseP_sublist.length_le.trans cfg.fits }
  else cfg

/-- Change the first entry with this uuid. -/
def DaemonConfig.modifyUuid (cfg : DaemonConfig) (uuid : CString)
    (f : ConfigDevice → ConfigDevice) : DaemonConfig :=
  { cfg with
    devices := cfg.devices.replaceF fun d => if d.uuid.str = uuid then some (f d) else none
    fits := by simpa only [List.length_replaceF] using cfg.fits }

/-- The namespaces `cfg_patch_plugin_keys` skips: they have fields of their
own. -/
def transportKeys : List CString := ["usb", "ble", "modbus"].map CString.lit

/-- What a request has for a declared field: the namespace, the leaf and the
value to keep in the configuration. -/
def pluginKeyValue (fields : List CJson) (body f : CJson) :
    Option (CString × CString × CJson) := do
  let key ← (getCase? (some f) "key").bind string?
  let (ns, leaf) ← key.splitAt 46
  let v ← body.getCase key
  if mfFieldNotSetting fields key ∨
      mfFieldIsSecret fields key ∧ v.string?.any mfSecretIsMask ∨
      32 ≤ ns.length ∨ ns ∈ transportKeys then none
  else some (ns, leaf, v)

/-- One value goes into the block of its namespace, which replaces anything
that is not an object. -/
def putBlock (extra : CJson) (ns leaf : CString) (v : CJson) : CJson :=
  let put := fun block : CJson => (block.deleteCase leaf).add leaf v
  if (extra.getCase ns).any isObject then extra.modifyCase ns put
  else (extra.deleteCase ns).add ns (put (.object []))

/-- The loop of `cfg_patch_plugin_keys`: the plugin keys and whether they
changed. -/
def patchField (fields : List CJson) (body : CJson) (extra : CJson × Bool) (f : CJson) :
    CJson × Bool :=
  match pluginKeyValue fields body f with
  | none => extra
  | some (ns, leaf, v) => (putBlock extra.1 ns leaf v, true)

/-- `cfg_patch_plugin_keys`: keys that do not fit any more are not saved. -/
def cfgPatchPluginKeys (fields : List CJson) (body : CJson) (d : ConfigDevice) : ConfigDevice :=
  let extra := ((parse d.extraJson.str).filter isObject).getD (.object [])
  let (extra, changed) := fields.foldl (patchField fields body) (extra, false)
  let s := printText extra
  if h : changed = true ∧ s.length < 1024 then { d with extraJson := ⟨s, h.2⟩ } else d

/-- The body of `cfg_patch_settings`, on the entry found. -/
def patchEntry (fields : List CJson) (body : CJson) (d : ConfigDevice) : ConfigDevice :=
  cfgPatchPluginKeys fields body { d with
    name := match (getCase? (some body) "name").bind string? with
      | some name => if name.nonempty then CBuf.copy 64 name else d.name
      | none => d.name
    pollIntervalS := match (getCase? (some body) "poll_interval_s").bind settingNumber with
      | some iv => if Double.zero.lt iv then iv else d.pollIntervalS
      | none => d.pollIntervalS
    captureIntervalS :=
      ((getCase? (some body) "capture_interval_s").bind settingNumber).getD d.captureIntervalS
    retentionDays :=
      ((getCase? (some body) "retention_days").bind settingNumber).getD d.retentionDays
    active := ((getCase? (some body) "active").bind bool?).getD d.active }

/-- `cfg_patch_settings`. -/
def cfgPatchSettings (dv : Devices κ ε) (cfg : DaemonConfig) (uuid : CString) (body : CJson) :
    DaemonConfig :=
  if uuid.nonempty then
    cfg.modifyUuid uuid fun d => patchEntry (restFields (deviceOps dv d.uuid.str)) body d
  else cfg

/-- What `cfg_upsert_from_json` makes of an entry: one that cannot be applied
keeps what it has. -/
def upsertEntry (uuid : CString) (root : CJson) (d : ConfigDevice) : ConfigDevice :=
  { (applyDevice ((root.deleteCase (CString.lit "uuid")).addString "uuid" uuid)).getD d with
    uuid := CBuf.copy 40 uuid
    enabled := true }

/-- `cfg_upsert_from_json`: a full configuration takes no new entry. -/
def cfgUpsertFromJson (cfg : DaemonConfig) (uuid : CString) (root : CJson) : DaemonConfig :=
  if ¬uuid.nonempty then cfg
  else if cfg.devices.any fun d => d.uuid.str = uuid then
    cfg.modifyUuid uuid (upsertEntry uuid root)
  else if h : cfg.devices.length < mfMaxDevices then
    { cfg with
      devices := cfg.devices ++ [upsertEntry uuid root ConfigDevice.zero]
      fits := by simp only [List.length_append, List.length_singleton]; omega }
  else cfg

/-! ## Modules -/

/-- One member of `nest_dotted_keys`: it moves into its parent when that is
missing or an object. Names are cut at their buffers. -/
def nestMember (root : CJson) (m : CString × CJson) : CJson :=
  match m.1.splitAt 46 with
  | none => root
  | some (parent, child) =>
    if parent.nonempty ∧ child.nonempty ∧ parent.length < 32 then
      let root := if (root.getCase parent).isSome then root else root.add parent (.object [])
      if (root.getCase parent).any isObject then
        let child := child.take 63
        (root.deleteCase m.1).modifyCase parent fun obj => (obj.deleteCase child).add child m.2
      else root
    else root

/-- `nest_dotted_keys`. -/
def nestDottedKeys (root : CJson) : CJson := root.members.foldl nestMember root

/-- The document `handle_devices_create` opens and stores: without masks,
nested, and with the plugin's bus when it names none. -/
def createDocument (ops : Option (PluginOps κ ε)) (root : CJson) : CJson :=
  let root := nestDottedKeys (mfSecretCleanBody root (restFields ops))
  if (getCase? (some root) "bus").isSome then root
  else
    match (getCase? (some (restDescribe ops)) "bus").bind string? with
    | some bus => root.addString "bus" bus
    | none => root

/-- The answer to each refusal of `mf_devices_add`. -/
def addErrorResponse (e : AddError) : Response :=
  if e.code = -2 then setError 400 (CString.lit "unknown kind/driver")
  else if e.code = -3 then setError 400 (CString.lit "name in use")
  else if e.code = -4 then setError 409 (CString.lit "device limit reached")
  else setError 400 (errOr (e.text.take 95) "bad request")

/-- `handle_devices_create`. -/
def handleDevicesCreate (env : RestEnv) (s : Daemon κ ε) (body : Bytes) :
    Daemon κ ε × Response :=
  match if body = [] then none else parseWithLength body with
  | none => (s, setError 400 (CString.lit "bad request"))
  | some root =>
    match (getCase? (some root) "name").bind string?, (getCase? (some root) "kind").bind string?,
      (getCase? (some root) "driver").bind string? with
    | some name, some kind, some driver =>
      let namebuf := CBuf.copy 32 name
      let kindbuf := CBuf.copy 16 kind
      let driverbuf := CBuf.copy 16 driver
      let doc := createDocument (mfPluginsFind s.dv.registry kindbuf.str driverbuf.str) root
      match mfDevicesAdd s.dv namebuf.str kindbuf.str driverbuf.str (printText doc)
        CString.empty env.generated with
      | (dv, .error e) => ({ s with dv := dv }, addErrorResponse e)
      | (dv, .ok uuid) =>
        let online := (((dv.findLive uuid.str).bind dv.slots).map (·.online)).getD false
        ({ dv := dv, cfg := cfgUpsertFromJson s.cfg uuid.str doc },
          setJson 201 (.object [(CString.lit "id", .string uuid.str),
              (CString.lit "name", .string namebuf.str), (CString.lit "kind", .string kindbuf.str),
              (CString.lit "driver", .string driverbuf.str), (CString.lit "online", .bool online)])
            ((CString.lit "/api/v1/devices/" ++ uuid.str).take 159))
    | _, _, _ => (s, setError 400 (CString.lit "bad request"))

/-- `handle_device_delete`. -/
def handleDeviceDelete (s : Daemon κ ε) (id : CString) : Daemon κ ε × Response :=
  match mfDevicesDelete s.dv id with
  | (dv, 202) =>
    ({ dv := dv, cfg := cfgRemoveUuid s.cfg id },
      setJson 202 (.object [(CString.lit "status", .string (CString.lit "stopping"))])
        CString.empty)
  | (dv, _) => ({ s with dv := dv }, setError 404 (CString.lit "not found"))

/-! ## Settings -/

/-- `handle_settings_get`: the settings with masks for secrets, and the
plugin's fields. -/
def handleSettingsGet (env : RestEnv) (s : Daemon κ ε) (id : CString) : Response :=
  match mfDevicesGetSettings s.dv env.historyRetention id with
  | none => setError 404 (CString.lit "not found")
  | some json =>
    let fields := restFields (deviceOps s.dv id)
    let root := (parse json.str).getD (.object [])
    setJson 200 ((mfSecretMaskSettings fields root).add (CString.lit "_fields") (.array fields))
      CString.empty

/-- `copy_body` into a buffer of 4096 bytes, read as a C string. -/
def copyBody (body : Bytes) : CString := CString.ofBytes (body.take 4095)

/-- The text `handle_settings_put` hands on: the body without masks and
non-settings, printed again, unless that does not fit. -/
def settingsText (fields : List CJson) (body : Bytes) : CString :=
  match (parse (copyBody body)).filter isObject with
  | none => copyBody body
  | some b =>
    let s := printText (mfSecretCleanBody b fields)
    if s.length < 4096 then s else copyBody body

/-- `handle_settings_put`. -/
def handleSettingsPut (env : RestEnv) (s : Daemon κ ε) (id : CString) (body : Bytes) :
    Daemon κ ε × Response :=
  let text := settingsText (restFields (deviceOps s.dv id)) body
  match mfDevicesPutSettings s.dv id text with
  | (dv, status, err) =>
    if status ≠ 200 then
      ({ s with dv := dv },
        setError status (errOr err (if status = 404 then "not found" else "bad request")))
    else
      let cfg := match parse text with
        | some b => cfgPatchSettings dv s.cfg id b
        | none => s.cfg
      let s : Daemon κ ε := { dv := dv, cfg := cfg }
      (s, handleSettingsGet env s id)

/-! ## The configuration document -/

/-- `(uint64_t)d` where the value is in range. Elsewhere C leaves it open; this
is what x86-64 gives. -/
def doubleToU64 : Double → UInt64
  | .fin d =>
    let z := Int.tdiv d.val.num d.val.den
    if -2 ^ 63 ≤ z ∧ z < 2 ^ 64 then UInt64.ofNat (z % 2 ^ 64).toNat
    else if z < 0 then UInt64.ofNat (2 ^ 63)
    else 0
  | .inf neg => if neg then UInt64.ofNat (2 ^ 63) else 0
  | .nan => UInt64.ofNat (2 ^ 63)

/-- The generation an `If-Match` header gives. -/
def headerGen (ifMatch : CString) : UInt64 :=
  UInt64.ofNat (((Decimal.strtoull
    ⟨ifMatch.bytes.dropWhile (fun b => b = 32 ∨ b = 34),
      fun h => ifMatch.noNul ((List.dropWhile_sublist _).mem h)⟩).map Prod.fst).getD 0)

/-- The generation `gen_matches` takes from a request: the body's number
counts before the header. -/
def requestGen (ifMatch : CString) (body : Option CJson) : Option UInt64 :=
  match (getCase? body "config_gen").bind number? with
  | some v => some (doubleToU64 v)
  | none => if ifMatch.nonempty then some (headerGen ifMatch) else none

/-- `gen_matches`. -/
def genMatches (ifMatch : CString) (body : Option CJson) (gen : UInt64) : Bool :=
  decide (requestGen ifMatch body = some gen)

/-- A module of the document `handle_config_get` shows. -/
def maskConfigDevice (reg : Registry κ ε) (dev : CJson) : CJson :=
  match (getCase? (some dev) "kind").bind string?, (getCase? (some dev) "driver").bind string? with
  | some kind, some driver =>
    mfSecretMaskModule dev (restFields (mfPluginsFind reg kind driver))
  | _, _ => dev

/-- An unsigned 64-bit number converted to `double`. -/
def u64ToDouble (n : UInt64) : Double := Double.ofRat n.toNat

/-- The document `handle_config_get` shows. -/
def configDocument (s : Daemon κ ε) : CJson :=
  let root := (parse (mfConfigSerialize (mfConfigRedact s.cfg))).getD (.object [])
  let root := root.modifyCase (CString.lit "devices") fun
    | .array devs => .array (devs.map (maskConfigDevice s.dv.registry))
    | j => j
  (root.addNumber "config_gen" (u64ToDouble s.cfg.configGen)).addBool "pending_apply" s.dv.anyDying

/-- `handle_config_get`. -/
def handleConfigGet (s : Daemon κ ε) : Response :=
  setEtagGen (setJson 200 (configDocument s) CString.empty) s.cfg.configGen

/-- `restore_secrets`, on one module of the new configuration. -/
def restoreSecrets (reg : Registry κ ε) (live : DaemonConfig) (nd : ConfigDevice) : ConfigDevice :=
  match live.devices.find? fun d => d.uuid.str = nd.uuid.str with
  | none => nd
  | some d =>
    match mfSecretRestoreExtra nd.extraJson.str d.extraJson.str
      (restFields (mfPluginsFind reg nd.kind.str nd.driver.str)) with
    | none => nd
    | some out =>
      { nd with
        extraJson := if out.str = CString.lit "\x7b\x7d" then CBuf.zero 1024 else out }

/-- The configuration a `PUT /config` asks for. -/
def nextConfig (s : Daemon κ ε) (root : CJson) : DaemonConfig :=
  let next := mfConfigApplyJson s.cfg root
  { next with
    devices := next.devices.map (restoreSecrets s.dv.registry s.cfg)
    fits := by simpa only [List.length_map] using next.fits }

/-- The reply while slots still stop or modules wait for their slot. -/
def pendingReply (gen : UInt64) : Response :=
  setEtagGen (setJson 202 (.object [(CString.lit "config_gen", .number (u64ToDouble gen)),
    (CString.lit "pending_apply", .bool true)]) CString.empty) gen

/-- What `handle_config_put` and `handle_config_load` do with a new
configuration: check it, rebind, apply it, and count it as a generation. -/
def adoptConfig (env : RestEnv) (s : Daemon κ ε) (next : DaemonConfig) :
    Daemon κ ε × Response :=
  match validateApply s.dv next.devices with
  | some e => (s, setError 400 (errOr e.text "bad request"))
  | none =>
    if next.listen ≠ s.cfg.listen ∧ ¬env.rebindOk then
      (s, setError 500 (CString.lit "listen bind failed"))
    else
      match mfDevicesApplyConfig s.dv next.devices with
      | (dv, .error e) => ({ s with dv := dv }, setError 400 (errOr e.text "bad request"))
      | (dv, .ok left) =>
        let s : Daemon κ ε :=
          { dv := dv, cfg := { next with configGen := s.cfg.configGen + 1 } }
        (s, if left ∨ dv.anyDying then pendingReply s.cfg.configGen else handleConfigGet s)

/-- `handle_config_put`. -/
def handleConfigPut (env : RestEnv) (s : Daemon κ ε) (ifMatch : CString) (body : Bytes) :
    Daemon κ ε × Response :=
  match if body = [] then none else parseWithLength body with
  | none => (s, setError 400 (CString.lit "bad request"))
  | some root =>
    if genMatches ifMatch (some root) s.cfg.configGen then adoptConfig env s (nextConfig s root)
    else (s, setError 409 (CString.lit "config_gen mismatch"))

/-- `handle_config_load`. -/
def handleConfigLoad (env : RestEnv) (s : Daemon κ ε) : Daemon κ ε × Response :=
  match env.saved with
  | none => (s, setError 404 (CString.lit "not found"))
  | some next => adoptConfig env s next

/-! ## Requests -/

/-- The requests these handlers serve. -/
inductive Request where
  | configGet
  | configPut (ifMatch : CString) (body : Bytes)
  | configLoad
  | devicesPost (body : Bytes)
  | deviceDelete (id : CString)
  | settingsGet (id : CString)
  | settingsPut (id : CString) (body : Bytes)

/-- The id of a path as the dispatcher cuts it. -/
def idbuf (id : CString) : CString := (CBuf.copy 37 id).str

/-- `mf_rest_dispatch`, on these requests. -/
def mfRestDispatch (env : RestEnv) (s : Daemon κ ε) : Request → Daemon κ ε × Response
  | .configGet => (s, handleConfigGet s)
  | .configPut ifMatch body => handleConfigPut env s ifMatch body
  | .configLoad => handleConfigLoad env s
  | .devicesPost body => handleDevicesCreate env s body
  | .deviceDelete id => handleDeviceDelete s (idbuf id)
  | .settingsGet id => (s, handleSettingsGet env s (idbuf id))
  | .settingsPut id body => handleSettingsPut env s (idbuf id) body

end MoonFlare
