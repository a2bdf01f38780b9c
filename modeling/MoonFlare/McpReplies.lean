import MoonFlare.CJsonDepth
import MoonFlare.CJsonLines
import MoonFlare.Logging
import MoonFlare.Mcp

/-!
# The replies of the MCP server

Whatever stands on its input and whatever the daemon does, the server writes one
line for each request that waits for an answer, in their order, and each line
parses to a response to it. What it asks the daemon for are the paths of its
tools.
-/

namespace MoonFlare.Mcp

open Cli CJson Logging

/-- The paths that the tools ask for. -/
inductive IsToolPath : CString → Prop
  | devices : IsToolPath devicesPath
  | status : IsToolPath statusPath
  | device (name : CString) : IsToolPath (devicePath name "")
  | history (name : CString) : IsToolPath (devicePath name "/history")

/-- The codes of JSON-RPC's errors that the server knows. -/
def rpcCodes : List Int32 := [-32700, -32600, -32601, -32602]

/-- A response to a request with this id: it has a result, or an error with its code and a text. -/
structure IsResponse (id env : CJson) : Prop where
  version : env.getCase (CString.lit "jsonrpc") = some (string (CString.lit "2.0"))
  id : env.getCase (CString.lit "id") = some id
  outcome : (∃ result, env.getCase (CString.lit "result") = some result ∧
      env.getCase (CString.lit "error") = none) ∨
    ∃ err, ∃ code ∈ rpcCodes, ∃ text, env.getCase (CString.lit "result") = none ∧
      env.getCase (CString.lit "error") = some err ∧
      err.getCase (CString.lit "code") = some (number (Double.ofInt code)) ∧
      err.getCase (CString.lit "message") = some (string text)

/-- The one method that is never answered. -/
def isSilent (req : CJson) : Bool :=
  (req.getCase (CString.lit "method")).bind string? =
    some (CString.lit "notifications/initialized")

/-- The id with which a line waits for an answer: that of its request, or none that is known when
the line is no JSON. -/
def waiting (line : Bytes) : Option CJson :=
  if stripEnd line = [] then none
  else
    match parse (CString.ofBytes (stripEnd line)) with
    | none => some null
    | some req => if isSilent req then none else req.getCase (CString.lit "id")

/-- A response that is printed and parsed again. -/
structure Answer (id env : CJson) : Prop where
  response : IsResponse id env
  depth : depth env ≤ nestingLimit

/-! ## Envelopes -/

/-- What the server sends with an id. -/
inductive Envelope (id : Option CJson) : CJson → Prop
  | result {r : CJson} (h : depth r ≤ 16) : Envelope id (makeResp id r)
  | error {code : Int32} {msg : CString} (h : code ∈ rpcCodes) : Envelope id (makeError id code msg)

theorem Envelope.answer {id env : CJson} (h : Envelope (some id) env)
    (hid : CJson.depth id < nestingLimit) : Answer id env := by
  cases h with
  | @result r hr =>
    refine ⟨⟨rfl, rfl, Or.inl ⟨r, rfl, rfl⟩⟩, ?_⟩
    have hlimit : 16 < nestingLimit := by decide
    have hmembers : depthMembers [(CString.lit "jsonrpc", string (CString.lit "2.0")),
        (CString.lit "id", id), (CString.lit "result", r)] < nestingLimit := by
      simp only [depthMembers, CJson.depth, max_lt_iff]
      omega
    exact hmembers
  | @error code msg hcode =>
    refine ⟨⟨rfl, rfl, Or.inr ⟨_, code, hcode, msg, rfl, rfl, rfl, rfl⟩⟩, ?_⟩
    have hlimit : 1 < nestingLimit := by decide
    have hmembers : depthMembers [(CString.lit "jsonrpc", string (CString.lit "2.0")),
        (CString.lit "id", id), (CString.lit "error", object [(CString.lit "code",
          number (Double.ofInt code)), (CString.lit "message", string msg)])] < nestingLimit := by
      simp only [depthMembers, CJson.depth, max_lt_iff]
      omega
    exact hmembers

theorem depth_toolResult (text : CString) (isError : Bool) :
    depth (toolResult text isError) ≤ 16 := by
  simp [toolResult, depth, depthItems, depthMembers, add, addString, addBool]

theorem depth_handleInitialize (params : Option CJson) : depth (handleInitialize params) ≤ 16 := by
  simp [handleInitialize, depth, depthMembers, add, addString]

theorem depth_toolsList :
    depth ((object []).add (CString.lit "tools") buildToolsList) ≤ 16 := by decide

/-! ## Tools -/

theorem fetchGet_adds (ctx : Context) {path : CString} (hpath : IsToolPath path) :
    Adds IsToolPath (fun _ => True) (fetchGet ctx path) :=
  .entry (fun _ => rfl) hpath fun _ => trivial

theorem resolveDirect_adds (ctx : Context) (name : CString) :
    Adds IsToolPath (fun _ => True) (resolveDirect ctx name) := by
  refine .ite (fun _ => ?_) fun _ => .pure trivial
  exact .bind (fetchGet_adds ctx (.device name)) fun _ _ => .pure trivial

theorem mcpResolveModule_adds (ctx : Context) (name : CString) :
    Adds IsToolPath (fun _ => True) (mcpResolveModule ctx name) := by
  refine .bind (resolveDirect_adds ctx name) fun direct _ => ?_
  cases direct with
  | some uuid => exact .pure trivial
  | none => exact .bind (fetchGet_adds ctx .devices) fun _ _ => .pure trivial

/-- What the tools return. -/
def IsToolResult (r : CJson) : Prop := ∃ text isError, r = toolResult text isError

theorem fetchTool_adds (ctx : Context) {path : CString} (hpath : IsToolPath path)
    (failed : CString) : Adds IsToolPath IsToolResult (fetchTool ctx path failed) := by
  refine .bind (fetchGet_adds ctx hpath) fun root _ => ?_
  cases root with
  | none => exact .pure ⟨_, _, rfl⟩
  | some root => exact .pure ⟨_, _, rfl⟩

theorem moduleTool_adds (ctx : Context) (args : Option CJson) {below : String} (failed : String)
    (hpath : ∀ name, IsToolPath (devicePath name below)) :
    Adds IsToolPath IsToolResult (moduleTool ctx args below failed) := by
  unfold moduleTool
  split
  · exact .pure ⟨_, _, rfl⟩
  · refine .bind (mcpResolveModule_adds ctx _) fun uuid _ => ?_
    cases uuid with
    | none => exact .pure ⟨_, _, rfl⟩
    | some uuid => exact fetchTool_adds ctx (hpath uuid) _

theorem dispatchToolCall_adds (ctx : Context) (name : CString) (args : Option CJson) :
    Adds IsToolPath (fun r => ∀ result ∈ r, IsToolResult result)
      (dispatchToolCall ctx name args) := by
  have hsome : ∀ {x : Asking CJson}, Adds IsToolPath IsToolResult x →
      Adds IsToolPath (fun r : Option CJson => ∀ result ∈ r, IsToolResult result) (some <$> x) :=
    fun hx => .map (hx.mono fun r hr result hmem => Option.mem_some_iff.mp hmem ▸ hr)
  refine .ite (fun _ => hsome (fetchTool_adds ctx .devices _)) fun _ => ?_
  refine .ite (fun _ => hsome (moduleTool_adds ctx args _ .device)) fun _ => ?_
  refine .ite (fun _ => hsome (moduleTool_adds ctx args _ .history)) fun _ => ?_
  refine .ite (fun _ => hsome (fetchTool_adds ctx .status _)) fun _ => ?_
  exact .pure fun _ hmem => absurd hmem (Option.not_mem_none _)

/-! ## Requests -/

theorem toolsCall_adds (ctx : Context) (id params : Option CJson) :
    Adds IsToolPath (Envelope id) (toolsCall ctx id params) := by
  unfold toolsCall
  split
  · exact .pure (.error (by decide))
  split
  · exact .pure (.error (by decide))
  · refine .bind (dispatchToolCall_adds ctx _ _) fun result hresult => ?_
    cases result with
    | none => exact .pure (.error (by decide))
    | some result =>
      obtain ⟨text, isError, rfl⟩ := hresult result rfl
      exact .pure (.result (depth_toolResult text isError))

/-- What is made of a request before it is looked whether it waits. -/
inductive Answered (req : CJson) : Option CJson → Prop
  | silent (h : isSilent req = true) : Answered req none
  | env (h : isSilent req = false) {env : CJson}
      (henv : Envelope (req.getCase (CString.lit "id")) env) : Answered req (some env)

theorem answerTo_adds (ctx : Context) (req : CJson) :
    Adds IsToolPath (Answered req) (answerTo ctx req) := by
  unfold answerTo
  cases hm : (req.getCase (CString.lit "method")).bind string? with
  | none =>
    have hwaits : isSilent req = false := by simp [isSilent, hm]
    exact .pure (.env hwaits (.error (by decide)))
  | some m =>
    by_cases hsilent : m = CString.lit "notifications/initialized"
    · have hinit : m ≠ CString.lit "initialize" := by
        rw [hsilent]
        decide
      refine .ite (fun h => absurd h hinit) fun _ => ?_
      refine .ite (fun _ => .pure (.silent ?_)) fun h => absurd hsilent h
      simp [isSilent, hm, hsilent]
    · have hwaits : isSilent req = false := by simp [isSilent, hm, hsilent]
      refine .ite (fun _ => .pure (.env hwaits (.result (depth_handleInitialize _)))) fun _ => ?_
      refine .ite (fun h => absurd h hsilent) fun _ => ?_
      refine .ite (fun _ => .pure (.env hwaits (.result (by decide)))) fun _ => ?_
      refine .ite (fun _ => .pure (.env hwaits (.result depth_toolsList))) fun _ => ?_
      refine .ite (fun _ => .map ((toolsCall_adds ctx _ _).mono fun env henv => .env hwaits henv))
        fun _ => ?_
      exact .pure (.env hwaits (.error (by decide)))

/-- The id of a request that was parsed is not as deep as the parser goes. -/
theorem depth_id {s : CString} {req id : CJson} {k : CString} (hreq : parse s = some req)
    (hid : req.getCase k = some id) : depth id < nestingLimit := by
  have hlimit := depth_parse_le hreq
  cases req with
  | object ms =>
    have hmembers := (depthMembers_le_iff.mp (le_refl (depthMembers ms))) _ (mem_of_lookup hid)
    rw [depth] at hlimit
    exact Nat.lt_of_le_of_lt hmembers hlimit
  | null | bool _ | number _ | string _ | array _ => exact absurd hid (by simp [getCase, members])

theorem handleLine_adds (ctx : Context) {line : Bytes} (hne : stripEnd line ≠ []) :
    Adds IsToolPath (fun env? => Option.Rel Answer (waiting line) env?)
      (handleLine ctx (stripEnd line)) := by
  unfold handleLine waiting
  rw [if_neg hne]
  cases hparse : parse (CString.ofBytes (stripEnd line)) with
  | none =>
    have henv : Envelope (some null) (makeError none (-32700) (CString.lit "Parse error")) :=
      .error (by decide)
    exact .pure (.some (henv.answer (by decide)))
  | some req =>
    refine .bind (answerTo_adds ctx req) fun env? henv => .pure ?_
    cases henv with
    | silent h =>
      simp only [h, if_true, ite_self]
      exact .none
    | env h henv =>
      simp only [h, Bool.false_eq_true, if_false]
      cases hid : req.getCase (CString.lit "id") with
      | none => exact .none
      | some id =>
        rw [hid] at henv
        exact .some (henv.answer (depth_id hparse hid))

/-! ## The output -/

theorem mcpRound_adds (ctx : Context) (line : Bytes) :
    Adds IsToolPath (fun out => ∃ env?, out = sendEnv env? ∧ Option.Rel Answer (waiting line) env?)
      (mcpRound ctx line) := by
  refine .ite (fun hempty => .pure ⟨none, rfl, ?_⟩) fun hne =>
    .map ((handleLine_adds ctx hne).mono fun env? henv => ⟨env?, rfl, henv⟩)
  rw [waiting, if_pos hempty]
  exact .none

theorem mcpLoop_adds (ctx : Context) (lines : List Bytes) :
    Adds IsToolPath (fun out => ∃ envs : List CJson,
      out = envs.flatMap (fun env => print env ++ [10]) ∧
      List.Forall₂ Answer (lines.filterMap waiting) envs) (mcpLoop ctx lines) := by
  induction lines with
  | nil => exact .pure ⟨[], rfl, .nil⟩
  | cons line lines ih =>
    refine .bind (mcpRound_adds ctx line) fun out hout => .bind ih fun more hmore => .pure ?_
    obtain ⟨env?, rfl, hrel⟩ := hout
    obtain ⟨envs, rfl, hall⟩ := hmore
    cases hwait : waiting line with
    | none =>
      rw [hwait] at hrel
      cases hrel
      rw [List.filterMap_cons_none hwait]
      exact ⟨envs, rfl, hall⟩
    | some id =>
      rw [hwait] at hrel
      cases hrel with
      | @some _ env hanswer =>
        rw [List.filterMap_cons_some hwait]
        exact ⟨env :: envs, rfl, .cons hanswer hall⟩

/-! ## What is read of it -/

theorem getCase_reprint (j : CJson) (k : CString) :
    (reprint j).getCase k = (j.getCase k).map reprint := by
  cases j with
  | object ms => exact lookup_reprintMembers k ms
  | number v =>
    cases hv : v.reprint <;> simp [getCase, members, reprint, hv]
  | null | bool _ | string _ | array _ => rfl

theorem getCase_reprint_of_some {j v : CJson} {k : CString} (h : j.getCase k = some v) :
    (reprint j).getCase k = some (reprint v) := by
  rw [getCase_reprint, h, Option.map_some]

theorem getCase_reprint_of_none {j : CJson} {k : CString} (h : j.getCase k = none) :
    (reprint j).getCase k = none := by
  rw [getCase_reprint, h, Option.map_none]

theorem IsResponse.reprint {id env : CJson} (h : IsResponse id env) :
    IsResponse id.reprint env.reprint where
  version := getCase_reprint_of_some h.version
  id := getCase_reprint_of_some h.id
  outcome := by
    rcases h.outcome with ⟨result, hresult, herror⟩ |
      ⟨err, code, hcode, text, hresult, herror, hc, ht⟩
    · exact Or.inl ⟨_, getCase_reprint_of_some hresult, getCase_reprint_of_none herror⟩
    · have hnumber : (number (Double.ofInt code)).reprint = number (Double.ofInt code) := by
        simp [CJson.reprint, Double.reprint_ofInt]
      refine Or.inr ⟨err.reprint, code, hcode, text, getCase_reprint_of_none hresult,
        getCase_reprint_of_some herror, ?_, getCase_reprint_of_some ht⟩
      rw [getCase_reprint_of_some hc, hnumber]

/-- An answer is read back from its line. -/
theorem Answer.read {id env : CJson} (h : Answer id env) :
    ∃ env', parse (CString.ofBytes (print env)) = some env' ∧ IsResponse id.reprint env' := by
  have htext : CString.ofBytes (print env) = printText env := CString.ofBytes_bytes (printText env)
  rw [htext, parse_printText h.depth]
  exact ⟨_, rfl, h.response.reprint⟩

/-- Texts on lines of their own are read line by line. -/
theorem linesOf_flatMap {texts : List Bytes} (h : ∀ text ∈ texts, 10 ∉ text) :
    linesOf (texts.flatMap (· ++ [10])) = texts ++ [[]] := by
  have hjoin : texts.flatMap (· ++ [10]) = ([10] : Bytes).intercalate (texts ++ [[]]) := by
    clear h
    induction texts with
    | nil => rfl
    | cons text texts ih =>
      rw [List.flatMap_cons, ih]
      cases texts <;> simp [List.intercalate]
  rw [linesOf, hjoin, List.splitOn_intercalate]
  · intro text htext
    rcases List.mem_append.mp htext with htext | htext
    · exact h text htext
    · rw [List.mem_singleton.mp htext]
      exact List.not_mem_nil
  · simp

/-- The ids that are printed as they are: texts, 32-bit integers and null. -/
inductive PlainId : CJson → Prop
  | text (s : CString) : PlainId (string s)
  | whole (z : Int32) : PlainId (number (Double.ofInt z))
  | null : PlainId null

/-- Of another number `print_number` may keep 15 digits, and an infinite one it prints as null. -/
theorem PlainId.reprint {id : CJson} (h : PlainId id) : id.reprint = id := by
  cases h with
  | text s => rfl
  | whole z => rw [CJson.reprint, Double.reprint_ofInt]
  | null => rfl

/-- The output, cut at its newlines, is one line for each request that waits for an answer, in
their order, and each parses to a response with the id of its request as it is printed: with the
id itself, when it is a text, a 32-bit integer or null. -/
theorem mcp_replies (ctx : Context) (input : Bytes) :
    ∃ texts : List Bytes, linesOf (mcpRun ctx input).1 = texts ++ [[]] ∧
      List.Forall₂ (fun id text => ∃ env, parse (CString.ofBytes text) = some env ∧
        IsResponse (reprint id) env ∧ (PlainId id → IsResponse id env))
        ((linesOf input).filterMap waiting) texts := by
  obtain ⟨envs, hout, hall⟩ := (mcpLoop_adds ctx (linesOf input)).run.2
  refine ⟨envs.map print, ?_, ?_⟩
  · have hlines : (mcpRun ctx input).1 = (envs.map print).flatMap (· ++ [10]) := by
      rw [List.flatMap_map]
      exact hout
    rw [hlines]
    refine linesOf_flatMap fun text htext hmem => ?_
    obtain ⟨env, -, rfl⟩ := List.mem_map.mp htext
    exact absurd (print_printable env 10 hmem) (by decide)
  · rw [List.forall₂_map_right_iff]
    refine hall.imp fun id env h => ?_
    obtain ⟨env', hparse, hresponse⟩ := h.read
    exact ⟨env', hparse, hresponse, fun hid => by rwa [hid.reprint] at hresponse⟩

end MoonFlare.Mcp
