import MoonFlare.HistoryRetention
import MoonFlare.HttpConnection
import MoonFlare.RestHandlers

/-!
# The routes of the REST layer

Which handler `mf_rest_dispatch` calls for a method and a path, and with which id and
action. The path comes out of the connection's buffer, and the id goes through one of its
own, so both are cut when they are too long. What a handler answers when it does not find
its module is part of the route's outcome; what it answers otherwise is not.
-/

namespace MoonFlare.Rest

open History

variable {κ ε : Type}

/-- What can be asked of a module, with the text of an action. -/
inductive DeviceOp where
  | get
  | delete
  | settingsGet
  | settingsPut
  | history
  | action (name : CString)
  deriving DecidableEq

/-- What `mf_rest_dispatch` does with a request: a handler, or an error's status. -/
inductive Route where
  | status
  | drivers
  | devicesList
  | devicesCreate
  | health
  | configGet
  | configPut
  | configSave
  | configLoad
  | discoverGet
  | discoverPost
  | device (op : DeviceOp) (id : CString)
  | error (status : ℕ)
  deriving DecidableEq

/-- `method_is`, on a literal. -/
def methodIs (method : CString) (m : String) : Bool := method = CString.lit m

/-- A route that is there for one method. -/
def forMethod (method : CString) (m : String) (r : Route) : Route :=
  if methodIs method m then r else .error 405

/-- A route that is there for two methods. -/
def forMethods (method : CString) (m : String) (r : Route) (m' : String) (r' : Route) : Route :=
  if methodIs method m then r else forMethod method m' r'

/-- The routes without a second slash. -/
def rootRoute (method p : CString) : Route :=
  if p = CString.lit "status" then forMethod method "GET" .status
  else if p = CString.lit "drivers" then forMethod method "GET" .drivers
  else if p = CString.lit "devices" then
    forMethods method "GET" .devicesList "POST" .devicesCreate
  else if p = CString.lit "health" then forMethod method "GET" .health
  else if p = CString.lit "config" then forMethods method "GET" .configGet "PUT" .configPut
  else if p = CString.lit "discover" then
    forMethods method "GET" .discoverGet "POST" .discoverPost
  else .error 404

/-- The routes of one module behind its id. -/
def moduleRoute (method id rest : CString) : Route :=
  if rest = CString.lit "settings" then
    forMethods method "GET" (.device .settingsGet id) "PUT" (.device .settingsPut id)
  else if rest = CString.lit "history" then forMethod method "GET" (.device .history id)
  else if rest.startsWith (CString.lit "actions/") then
    if methodIs method "POST" then
      if (rest.drop 8).nonempty then .device (.action (rest.drop 8)) id else .error 404
    else .error 405
  else .error 404

/-- The routes below `devices/`. -/
def deviceRoute (method id : CString) : Route :=
  if id.nonempty then
    match id.splitAt 47 with
    | some (front, rest) => moduleRoute method (idbuf front) rest
    | none =>
      forMethods method "GET" (.device .get (idbuf id)) "DELETE" (.device .delete (idbuf id))
  else .error 404

/-- The routes below `config/`. -/
def configRoute (method rest : CString) : Route :=
  if rest = CString.lit "save" then forMethod method "POST" .configSave
  else if rest = CString.lit "load" then forMethod method "POST" .configLoad
  else .error 404

/-- `mf_rest_dispatch`: the route of a request. -/
def restRoute (method path : CString) : Route :=
  if path.startsWith (CString.lit "/api/v1/") then
    let p := path.drop 8
    match p.splitAt 47 with
    | none => rootRoute method p
    | some _ =>
      if p.startsWith (CString.lit "devices/") then deviceRoute method (p.drop 8)
      else if p.startsWith (CString.lit "config/") then configRoute method (p.drop 7)
      else .error 404
  else .error 404

/-- The path that `parse_headers` hands on. -/
def receivedPath (path : CString) : CString := (Http.splitQuery (Http.copyToken 128 path.bytes)).1

/-- `mf_history_graph_column`. -/
def graphColumn (st : Store) (uuid : CString) : Option CString :=
  ((st.modOf uuid).map fun m => m.graph.str).filter CString.nonempty

/-- `mf_history_query_ts_step` is not below 0: the column is a declared numeric one, and
its statement is prepared and has room for its rows. -/
def queryTsStep (st : Store) (prepared : Bool) (uuid column : CString) : Bool :=
  match st.modOf uuid with
  | none => false
  | some m => m.cols.any (fun c => decide (c.name.str = column) && !c.isText) && prepared

/-- `handle_device_history`, of a request without a query, has rows to answer with. -/
def hasHistory (st : Store) (prepared : Bool) (id : CString) : Bool :=
  match graphColumn st id with
  | none => false
  | some column => queryTsStep st prepared id column

/-- The handler of an operation finds its module; else it answers 404. -/
def finds (dv : Devices κ ε) (st : Store) (prepared : Bool) : DeviceOp → CString → Bool
  | .get, id => (dv.findLive id).isSome
  | .delete, id => dv.uuidInUse id
  | .settingsGet, id => (dv.findLive id).isSome
  | .settingsPut, id => (dv.findLive id).isSome
  | .history, id => hasHistory st prepared id
  | .action _, id => (dv.findLive id).isSome

/-- A request either runs a handler on the module found, or is answered with a status. -/
inductive Outcome where
  | ran (r : Route)
  | answered (status : ℕ)
  deriving DecidableEq

/-- What comes of a route, given whether SQLite prepares the query of a history. -/
def outcome (dv : Devices κ ε) (st : Store) (prepared : Bool) : Route → Outcome
  | .device op id => if finds dv st prepared op id then .ran (.device op id) else .answered 404
  | .error status => .answered status
  | r => .ran r

/-- `mf_devices_action`, given the plugin's `action`: the table, the status and the text. -/
def mfDevicesAction
    (act : PluginOps κ ε → Option (κ → CString → CString → κ × MfErr × CString))
    (dv : Devices κ ε) (uuid name json : CString) : Devices κ ε × ℕ × CString :=
  match dv.findLive uuid with
  | none => (dv, 404, CString.empty)
  | some i =>
    match dv.slots i with
    | none => (dv, 404, CString.empty)
    | some d =>
      if name.nonempty then
        match d.ops.bind act, d.ctx with
        | some run, some ctx =>
          let (ctx', rc, err) := run ctx name json
          if rc = .ok then
            let (d', samples) := refreshReading dv.historyOpen { d with ctx := some ctx' }
            ({ dv.setSlot i (some d') with samples := dv.samples ++ samples }, 200, err.take 95)
          else
            (dv.setSlot i (some { d with ctx := some ctx' }),
              if rc = .offline ∨ rc = .busy then 409 else 400, err.take 95)
        | _, _ => (dv, 400, CString.lit "unsupported")
      else (dv, 400, CString.empty)

/-- `handle_action`: the body is cut to its buffer, the name is passed on as it is. -/
def handleAction (act : PluginOps κ ε → Option (κ → CString → CString → κ × MfErr × CString))
    (dv : Devices κ ε) (id name : CString) (body : Bytes) : Devices κ ε × Response :=
  let (dv', status, err) := mfDevicesAction act dv id name (copyBody body)
  if status = 200 then
    (dv', setJson 200 (.object [(CString.lit "status", .string (CString.lit "ok"))]) CString.empty)
  else (dv', setError status (errOr err (if status = 404 then "not found" else "bad request")))

end MoonFlare.Rest
