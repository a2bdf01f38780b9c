import MoonFlare.CJsonRoundTrip

/-!
# Plugins

The table of functions a plugin exports, over its context type and the type
of what its surroundings decide in a step, and the registry the daemon looks
plugins up in. Absent functions are `none`, as null pointers are.
-/

namespace MoonFlare

/-- `mf_step_t`. -/
inductive MfStep where
  | idle
  | updated
  | error
  deriving DecidableEq

/-- The result codes of the settings and action calls. -/
inductive MfErr where
  | ok
  | inval
  | offline
  | unsupported
  | busy
  | other
  deriving DecidableEq

/-- `mf_plugin_ops_t`: the entries the daemon's core uses. -/
structure PluginOps (κ ε : Type) where
  kind : CString
  driver : CString
  /-- The static text that describes the plugin. -/
  describe : Option CString
  /-- A context for a spec, or the text of the error. -/
  openCtx : Option (CString → Except CString κ)
  /-- One step, given what the surroundings decide in it. -/
  step : Option (ε → κ → κ × MfStep)
  caps : Option (κ → ℕ)
  lastError : Option (κ → CString)
  /-- The current data; `none` is a result other than zero. -/
  getReading : Option (κ → Option CString)
  getSettings : Option (κ → CBuf 4096)
  /-- New settings: the context after the call, its result and error text. -/
  putSettings : Option (κ → CString → κ × MfErr × CString)

/-- `mf_plugin_registry_t`. -/
abbrev Registry (κ ε : Type) := List (PluginOps κ ε)

variable {κ ε : Type}

/-- `mf_plugins_find`. -/
def mfPluginsFind (reg : Registry κ ε) (kind driver : CString) : Option (PluginOps κ ε) :=
  reg.find? fun o => o.kind = kind ∧ o.driver = driver

theorem mfPluginsFind_mem {reg : Registry κ ε} {kind driver : CString} {o : PluginOps κ ε}
    (h : mfPluginsFind reg kind driver = some o) :
    o ∈ reg ∧ o.kind = kind ∧ o.driver = driver :=
  ⟨List.mem_of_find?_eq_some h, by simpa using List.find?_some h⟩

/-- `plugin_describe`: the parsed description. -/
def pluginDescribe (ops : Option (PluginOps κ ε)) : Option CJson :=
  ops.bind fun o => o.describe.bind CJson.parse

/-- A member of an item that may be missing. -/
def getCase? (j : Option CJson) (k : String) : Option CJson :=
  j.bind fun j => j.getCase (CString.lit k)

/-- The `fields` of a description. -/
def describeFields (ops : Option (PluginOps κ ε)) : Option CJson :=
  getCase? (pluginDescribe ops) "fields"

/-- What `mf_capture_spec` hands back. -/
structure CaptureSpec where
  defS : Double
  minS : Double
  keepDays : Double
  deriving DecidableEq

/-- Ten seconds, the default capture interval. -/
def tenSeconds : Double := Double.ofInt 10

/-- `mf_capture_spec`: capturing needs a pruning policy. -/
def mfCaptureSpec (ops : Option (PluginOps κ ε)) : Option CaptureSpec := do
  let c ← getCase? (pluginDescribe ops) "capture"
  let keep ← (getCase? (some c) "retention_days").bind CJson.number?
  if c.isObject ∧ keep.ge Double.zero then
    let defS := match (getCase? (some c) "interval_s").bind CJson.number? with
      | some v => if v.ge Double.zero then v else tenSeconds
      | none => tenSeconds
    let minS := match (getCase? (some c) "min_s").bind CJson.number? with
      | some v => if v.ge Double.one then v else Double.one
      | none => Double.one
    some ⟨defS, minS, keep⟩
  else none

/-- `capture_resolve`: the interval a module captures at, given what its
configuration asks for. -/
def captureResolve (ops : Option (PluginOps κ ε)) (want : Double) : Double :=
  match mfCaptureSpec ops with
  | none => Double.zero
  | some spec =>
    let want := if want.lt Double.zero then spec.defS else want
    if Double.zero.lt want ∧ want.lt spec.minS then spec.minS else want

end MoonFlare
