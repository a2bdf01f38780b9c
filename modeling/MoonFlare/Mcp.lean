import MoonFlare.CJsonRoundTrip
import MoonFlare.CliHttp

/-!
# The MCP server

The command line's server on standard input and output: a line is a request, a
reply is a line, and the tools ask the daemon over HTTP. What the system does for
each request to the daemon is given; the paths that were asked for are kept.
-/

namespace MoonFlare.Mcp

open Cli CJson

/-- `MF_VERSION`. -/
def mfVersion : CString := CString.lit "0.17.0"

/-- `cli_ctx_t`, with what the system does for each request to the daemon. -/
structure Context where
  host : CString
  exchange : ℕ → Exchange

/-- A part of the server's run: it adds to the paths that were asked for. -/
abbrev Asking (α : Type) := StateM (List CString) α

/-! ## Envelopes -/

/-- `make_resp`. -/
def makeResp (id : Option CJson) (result : CJson) : CJson :=
  (((object []).addString "jsonrpc" (CString.lit "2.0")).add (CString.lit "id")
    (id.getD null)).add (CString.lit "result") result

/-- `make_error`. -/
def makeError (id : Option CJson) (code : Int32) (message : CString) : CJson :=
  (((object []).addString "jsonrpc" (CString.lit "2.0")).add (CString.lit "id")
    (id.getD null)).add (CString.lit "error")
      (((object []).addNumber "code" (Double.ofInt code)).addString "message" message)

/-- A text in a buffer of 256 bytes, as `snprintf` leaves it. -/
def message (text : String) (arg : CString) : CString := (CString.lit text ++ arg).take 255

/-! ## Requests to the daemon -/

/-- What `fetch_get` makes of a reply. -/
def rootOf (resp : CliHttpResp) : Option CJson :=
  if resp.status < 200 ∨ 300 ≤ resp.status then none
  else
    match parse (CString.ofBytes resp.body) with
    | none => none
    | some root =>
      match (root.getCase (CString.lit "error")).bind string? with
      | some _ => none
      | none => some root

/-- `fetch_get`. -/
def fetchGet (ctx : Context) (path : CString) : Asking (Option CJson) := fun asked =>
  let request := cliHttpRequest ctx.host (CString.lit "GET") path CString.empty
    (ctx.exchange asked.length)
  (match request.2 with
    | .error _ => none
    | .ok resp => rootOf resp, asked ++ [path])

/-- The path of all modules. -/
def devicesPath : CString := CString.lit "/api/v1/devices"

/-- The path of the status. -/
def statusPath : CString := CString.lit "/api/v1/status"

/-- The path of one module, or of what stands below it. -/
def devicePath (name : CString) (below : String) : CString :=
  (CString.lit "/api/v1/devices/" ++ cliUrlEncode 512 name ++ CString.lit below).take 599

/-- The id of a module with this name. -/
def idOfNamed (name : CString) (item : CJson) : Option CString :=
  match (item.getCase (CString.lit "name")).bind string?,
    (item.getCase (CString.lit "id")).bind string? with
  | some nf, some idf => if nf.eqNoCase name then some idf else none
  | _, _ => none

/-- The first attempt of `mcp_resolve_module`: the module with this id. -/
def resolveDirect (ctx : Context) (idOrName : CString) : Asking (Option CString) :=
  if cliIsUuid idOrName then do
    let root ← fetchGet ctx (devicePath idOrName "")
    pure (root.bind fun root => (root.getCase (CString.lit "id")).bind string?)
  else pure none

/-- `mcp_resolve_module`. -/
def mcpResolveModule (ctx : Context) (idOrName : CString) : Asking (Option CString) := do
  match ← resolveDirect ctx idOrName with
  | some uuid => pure (some uuid)
  | none =>
    let mods ← fetchGet ctx devicesPath
    pure (mods.bind fun mods => mods.items.findSome? (idOfNamed idOrName))

/-! ## Tools -/

/-- The object that the handlers of the tools build around their text. -/
def toolResult (text : CString) (isError : Bool) : CJson :=
  ((object []).add (CString.lit "content") (array [((object []).addString "type"
    (CString.lit "text")).addString "text" text])).addBool "isError" isError

/-- What the handlers do with a path: its JSON as a text, or an error. -/
def fetchTool (ctx : Context) (path failed : CString) : Asking CJson := do
  match ← fetchGet ctx path with
  | none => pure (toolResult failed true)
  | some root => pure (toolResult (printText root) false)

/-- `handle_list_modules`. -/
def handleListModules (ctx : Context) : Asking CJson :=
  fetchTool ctx devicesPath (CString.lit "error: failed to fetch modules")

/-- What the handlers of a module do: its id is looked up, and then what stands below it. -/
def moduleTool (ctx : Context) (args : Option CJson) (below failed : String) : Asking CJson :=
  match (args.bind fun args => args.getCase (CString.lit "id")).bind string? with
  | none => pure (toolResult (CString.lit "error: missing required parameter: id") true)
  | some idField => do
    match ← mcpResolveModule ctx idField with
    | none => pure (toolResult (message "error: module not found: " idField) true)
    | some uuid => fetchTool ctx (devicePath uuid below) (message failed idField)

/-- `handle_query_module`. -/
def handleQueryModule (ctx : Context) (args : Option CJson) : Asking CJson :=
  moduleTool ctx args "" "error: module not found: "

/-- `handle_module_history`. -/
def handleModuleHistory (ctx : Context) (args : Option CJson) : Asking CJson :=
  moduleTool ctx args "/history" "error: failed to fetch history for: "

/-- `handle_status`. -/
def handleStatus (ctx : Context) : Asking CJson :=
  fetchTool ctx statusPath (CString.lit "error: failed to fetch status")

/-- `make_tool`. -/
def makeTool (name desc : String) (schema : CJson) : CJson :=
  (((object []).addString "name" (CString.lit name)).addString "description"
    (CString.lit desc)).add (CString.lit "inputSchema") schema

/-- The schema of a tool without parameters. -/
def noParams : CJson :=
  (((object []).addString "type" (CString.lit "object")).add (CString.lit "properties")
    (object [])).addBool "additionalProperties" false

/-- The schema of a tool with the parameter `id`. -/
def idParam : CJson :=
  let idProp := ((object []).addString "type" (CString.lit "string")).addString "description"
    (CString.lit "module uuid or exact name")
  ((((object []).addString "type" (CString.lit "object")).add (CString.lit "properties")
    ((object []).add (CString.lit "id") idProp)).add (CString.lit "required")
      (array [string (CString.lit "id")])).addBool "additionalProperties" false

/-- `build_tools_list`. -/
def buildToolsList : CJson := array [
  makeTool "list_modules"
    ("List all modules known to moonflared (id, name, kind, driver, online status, and " ++
      "whether the module is active, i.e. counted in system totals).") noParams,
  makeTool "query_module"
    ("Get the full live reading for one module by id or exact name. A module " ++
      "that records history may carry \"watermarks\": the highest or lowest value " ++
      "of a history column over a trailing window, each \x7bcolumn, kind (\"high\" or " ++
      "\"low\"), window_h, when (optional: a column that must be non-zero for a " ++
      "sample to count), value, ts (Unix time)\x7d; value and ts are null until a " ++
      "sample in the window counts. Chargers report the 24 h high of power_w, " ++
      "batteries the 24 h low of soc, Magnum inverters the 24 h high of " ++
      "dc_power_w while inverting.") idParam,
  makeTool "module_history"
    ("Get the recent time-series of one module's graph column (e.g. SOC for " ++
      "batteries, power for chargers, temperature for weather); the reply " ++
      "names the column.") idParam,
  makeTool "status"
    ("One-shot summary of every module grouped by kind (batteries, chargers, inverters, " ++
      "actuators, services; a weather service carries data.weather, an SMS notification " ++
      "service data.channel and data.credits_remaining), plus a \"system\" object with " ++
      "totals over the active, online modules: charger input watts, capacity-weighted " ++
      "SOC, stored/capacity Wh, charge and discharge watts, and what the packs can " ++
      "deliver and the inverters are rated for (battery_limit_w, inverter_rated_w; null " ++
      "unless every counted one reports it). charge_w and discharge_w are what the " ++
      "counted packs report going in and coming out. load_w is what the site is " ++
      "using: the counted inverters' DC draw while inverting (load_inverter_w, " ++
      "phantoms included) when every counted inverter reports it, else input + " ++
      "discharge - charge, never below 0 (load_net_w); load_source says which " ++
      "(\"inverters\" or \"net\"). A module row may carry \"watermarks\" (24 h high " ++
      "or low of a history column; see query_module). Modules marked " ++
      "\"active\": false still report readings but are left out of the totals. " ++
      "A module with driver \"phantom\" is an estimate, not a measurement: it " ++
      "stands in for a unit moonflared cannot reach and reports the average of " ++
      "the modules listed in its \"phantom_of\" (it counts in the totals " ++
      "while active).") noParams]

/-- `dispatch_tool_call`, with the name of the tool. -/
def dispatchToolCall (ctx : Context) (name : CString) (args : Option CJson) :
    Asking (Option CJson) :=
  if name = CString.lit "list_modules" ∨ name = CString.lit "list_devices" then
    some <$> handleListModules ctx
  else if name = CString.lit "query_module" ∨ name = CString.lit "query_device" then
    some <$> handleQueryModule ctx args
  else if name = CString.lit "module_history" ∨ name = CString.lit "device_history" then
    some <$> handleModuleHistory ctx args
  else if name = CString.lit "status" then some <$> handleStatus ctx
  else pure none

/-! ## Methods -/

/-- `handle_initialize`. -/
def handleInitialize (params : Option CJson) : CJson :=
  let version := ((params.bind fun params => params.getCase (CString.lit "protocolVersion")).bind
    string?).getD (CString.lit "2024-11-05")
  let serverInfo := ((object []).addString "name" (CString.lit "moonflare-cli")).addString "version"
    mfVersion
  (((object []).addString "protocolVersion" version).add (CString.lit "capabilities")
    ((object []).add (CString.lit "tools") (object []))).add (CString.lit "serverInfo") serverInfo

/-- `handle_ping`. -/
def handlePing : CJson := object []

/-- The method `tools/call`. -/
def toolsCall (ctx : Context) (id params : Option CJson) : Asking CJson :=
  match params.filter isObject with
  | none => pure (makeError id (-32602) (CString.lit "Invalid params"))
  | some params =>
    match (params.getCase (CString.lit "name")).bind string? with
    | none => pure (makeError id (-32602) (CString.lit "Invalid params"))
    | some name => do
      match ← dispatchToolCall ctx name (params.getCase (CString.lit "arguments")) with
      | none => pure (makeError id (-32602) (message "unknown tool: " name))
      | some result => pure (makeResp id result)

/-- What a request is answered with; a notification is taken up in the same way, and then not
answered. -/
def answerTo (ctx : Context) (req : CJson) : Asking (Option CJson) :=
  let id := req.getCase (CString.lit "id")
  let params := req.getCase (CString.lit "params")
  match (req.getCase (CString.lit "method")).bind string? with
  | none => pure (some (makeError id (-32600) (CString.lit "Invalid request")))
  | some m =>
    if m = CString.lit "initialize" then
      pure (some (makeResp id (handleInitialize (params.filter isObject))))
    else if m = CString.lit "notifications/initialized" then pure none
    else if m = CString.lit "ping" then pure (some (makeResp id handlePing))
    else if m = CString.lit "tools/list" then
      pure (some (makeResp id ((object []).add (CString.lit "tools") buildToolsList)))
    else if m = CString.lit "tools/call" then some <$> toolsCall ctx id params
    else pure (some (makeError id (-32601) (message "Method not found: " m)))

/-! ## The loop -/

/-- A line without the bytes that end it. -/
def stripEnd (line : Bytes) : Bytes := line.rdropWhile fun c => c == 10 || c == 13

/-- The round of the loop for a line that is not empty. -/
def handleLine (ctx : Context) (line : Bytes) : Asking (Option CJson) :=
  match parse (CString.ofBytes line) with
  | none => pure (some (makeError none (-32700) (CString.lit "Parse error")))
  | some req => do
    let env ← answerTo ctx req
    -- without an id it is a notification
    pure (if (req.getCase (CString.lit "id")).isSome then env else none)

/-- `send_env`. -/
def sendEnv : Option CJson → Bytes
  | none => []
  | some env => print env ++ [10]

/-- One round of the loop. -/
def mcpRound (ctx : Context) (line : Bytes) : Asking Bytes :=
  if stripEnd line = [] then pure [] else sendEnv <$> handleLine ctx (stripEnd line)

/-- The loop of `mcp_run` over the lines that `getline` returns. -/
def mcpLoop (ctx : Context) : List Bytes → Asking Bytes
  | [] => pure []
  | line :: rest => do
    let out ← mcpRound ctx line
    let more ← mcpLoop ctx rest
    pure (out ++ more)

/-- The lines of the input. A last one without a newline may be empty, and is then passed over as
every empty line is. -/
def linesOf (input : Bytes) : List Bytes := input.splitOn 10

/-- `mcp_run`: what is written, and the paths that were asked for. -/
def mcpRun (ctx : Context) (input : Bytes) : Bytes × List CString :=
  mcpLoop ctx (linesOf input) []

end MoonFlare.Mcp
