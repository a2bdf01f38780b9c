import MoonFlare.CJsonNumbers
import MoonFlare.CJsonPrefixes
import MoonFlare.CliDaemon
import MoonFlare.McpReplies
import MoonFlare.RestExactId

/-!
# The MCP server and the daemon

Whatever an MCP client asks for, the daemon gets nothing but GET requests without
a body, on routes that only read. What a tool hands on is the whole answer of the
daemon's handler to this request, or an error: a reply that was cut anywhere is
not taken for JSON.
-/

namespace MoonFlare.Mcp

open Cli CJson Http Pico Logging UrlEncoded Runs

/-! ## Names in paths -/

theorem unreserved_legal {c : UInt8} (h : unreserved c = true) :
    c ≠ 47 ∧ c ≠ 63 ∧ c ≠ 32 ∧ isUnprintable c = false := by
  refine ⟨?_, ?_, ?_, ?_⟩
  · rintro rfl
    exact absurd h (by decide)
  · rintro rfl
    exact absurd h (by decide)
  · rintro rfl
    exact absurd h (by decide)
  · by_contra hun
    rw [Bool.not_eq_false, isUnprintable, Bool.or_eq_true, decide_eq_true_eq, beq_iff_eq] at hun
    rcases hun with hlt | rfl
    · have hall : ∀ n : Fin 32, unreserved (UInt8.ofNat n) = false := by decide
      have hfalse := hall ⟨c.toNat, UInt8.lt_iff_toNat_lt.mp hlt⟩
      rw [show UInt8.ofNat c.toNat = c from UInt8.ofNat_toNat, h] at hfalse
      exact absurd hfalse (by decide)
    · exact absurd h (by decide)

theorem unreserved_hexDigit {n : UInt8} (h : n.toNat < 16) :
    unreserved (UrlEncoded.hexDigit n) = true := by
  have hall : ∀ k : Fin 16, unreserved (UrlEncoded.hexDigit (UInt8.ofNat k)) = true := by decide
  have hdigit := hall ⟨n.toNat, h⟩
  rwa [show UInt8.ofNat n.toNat = n from UInt8.ofNat_toNat] at hdigit

/-- An escaped text consists of unreserved characters and percent signs. -/
theorem escape_legal {b : Bytes} {c : UInt8} (h : c ∈ escape b) :
    c = 37 ∨ unreserved c = true := by
  obtain ⟨x, -, hx⟩ := List.mem_flatMap.mp h
  have hhalf := toNat_halves x
  have hlt := x.toNat_lt
  unfold UrlEncoded.escapeByte at hx
  split_ifs at hx with hplain
  · rw [List.mem_singleton.mp hx]
    exact Or.inr hplain
  · rcases List.mem_cons.mp hx with rfl | hx
    · exact Or.inl rfl
    rcases List.mem_pair.mp hx with rfl | rfl
    · exact Or.inr (unreserved_hexDigit (by omega))
    · exact Or.inr (unreserved_hexDigit (by omega))

/-- A name is escaped as far as there is room. -/
theorem urlEncodeInto_eq (s : Bytes) (room : ℕ) :
    ∃ k, urlEncodeInto room s = escape (s.take k) ∧ (escape (s.take k)).length ≤ room - 1 := by
  induction s generalizing room with
  | nil => exact ⟨0, rfl, Nat.zero_le _⟩
  | cons c cs ih =>
    rw [urlEncodeInto]
    split_ifs with hplain hroom hroom
    · exact ⟨0, rfl, Nat.zero_le _⟩
    · obtain ⟨k, hk, hlen⟩ := ih (room - 1)
      have hcons : escape ((c :: cs).take (k + 1)) = c :: escape (cs.take k) := by
        simp [escape, UrlEncoded.escapeByte, hplain]
      refine ⟨k + 1, by rw [hcons, hk], ?_⟩
      rw [hcons, List.length_cons]
      omega
    · exact ⟨0, rfl, Nat.zero_le _⟩
    · obtain ⟨k, hk, hlen⟩ := ih (room - 3)
      have hcons : escape ((c :: cs).take (k + 1)) =
          UrlEncoded.escapeByte c ++ escape (cs.take k) := by
        simp [escape]
      refine ⟨k + 1, by rw [hcons, hk], ?_⟩
      have hthree := length_escapeByte_le c
      rw [hcons, List.length_append]
      omega

theorem bytes_cliUrlEncode (cap : ℕ) (name : CString) :
    ∃ k, (cliUrlEncode cap name).bytes = escape (name.bytes.take k) ∧
      (cliUrlEncode cap name).bytes.length ≤ cap - 1 := by
  obtain ⟨k, hk, hlen⟩ := urlEncodeInto_eq name.bytes cap
  have hbytes : (cliUrlEncode cap name).bytes = escape (name.bytes.take k) := by
    rw [cliUrlEncode, hk]
    exact List.takeWhile_eq_self_iff.mpr fun c hc => by simpa using (escape_plain hc).1
  exact ⟨k, hbytes, hbytes ▸ hlen⟩

/-! ## Paths -/

/-- What the path of a tool is, written out: the operation on what the escaped name stands for. -/
theorem devicePath_eq (name : CString) (op : Rest.DeviceOp) {below : String}
    (hop : op.suffix = CString.lit below) (hbelow : (CString.lit below).length ≤ 8) :
    devicePath name below = Rest.devicePath (cliUrlEncode 512 name) op := by
  obtain ⟨k, -, hlen⟩ := bytes_cliUrlEncode 512 name
  have hfront : (CString.lit "/api/v1/devices/").bytes.length = 16 := by decide
  have hbelow' : (CString.lit below).bytes.length ≤ 8 := hbelow
  rw [devicePath, Rest.devicePath, hop, Rest.append_assoc, CString.take_of_length_le]
  simp only [CString.length, CString.bytes_append, List.length_append]
  omega

theorem isSegment_cliUrlEncode {cap : ℕ} {name : CString}
    (hne : (cliUrlEncode cap name).nonempty = true) : Rest.IsSegment (cliUrlEncode cap name) := by
  obtain ⟨k, hk, -⟩ := bytes_cliUrlEncode cap name
  refine ⟨hne, fun hmem => ?_, fun hmem => ?_⟩
  · rw [hk] at hmem
    rcases escape_legal hmem with heq | hplain
    · exact absurd heq (by decide)
    · exact absurd hplain (by decide)
  · rw [hk] at hmem
    rcases escape_legal hmem with heq | hplain
    · exact absurd heq (by decide)
    · exact absurd hplain (by decide)

/-- The routes that read, and the answers to a path that none has. -/
inductive IsRead : Rest.Route → Prop
  | status : IsRead .status
  | devicesList : IsRead .devicesList
  | get (id : CString) : IsRead (.device .get id)
  | history (id : CString) : IsRead (.device .history id)
  | error (status : ℕ) : IsRead (.error status)

/-- A device path whose name is empty, or is cut anywhere, still reads. -/
theorem isRead_routeOf (s : CString) (hs : s.nonempty = true → Rest.IsSegment s)
    {op : Rest.DeviceOp} (hop : op = .get ∨ op = .history) : IsRead (Rest.routeOf s op) := by
  have hvalid : op.Valid := by rcases hop with rfl | rfl <;> trivial
  cases hne : s.nonempty with
  | false =>
    obtain rfl : s = CString.empty := CString.nonempty_eq_false.mp hne
    rcases hop with rfl | rfl
    · exact .error 404
    · exact .history CString.empty
  | true =>
    rcases Nat.lt_or_ge s.length 111 with hshort | hlong
    · obtain ⟨hwhole, hcut⟩ := Rest.routeOf_short (hs hne) hvalid hshort
      by_cases hnamed : op.NamedIn (111 - s.length)
      · rw [hwhole hnamed]
        rcases hop with rfl | rfl
        · exact .get _
        · exact .history _
      · rw [hcut hnamed]
        exact .error 404
    · rw [Rest.routeOf_long (hs hne) hvalid hlong]
      rcases hop with rfl | rfl
      · exact .get _
      · exact .get _

/-- The route of a GET on a path of the tools. -/
theorem IsToolPath.isRead {path : CString} (h : IsToolPath path) :
    IsRead (Rest.restRoute (CString.lit "GET") (Rest.receivedPath path)) := by
  cases h with
  | devices => exact .devicesList
  | status => exact .status
  | device name =>
    rw [devicePath_eq name .get (CString.ext rfl) (by decide)]
    exact isRead_routeOf _ isSegment_cliUrlEncode (Or.inl rfl)
  | history name =>
    rw [devicePath_eq name .history rfl (by decide)]
    exact isRead_routeOf _ isSegment_cliUrlEncode (Or.inr rfl)

theorem legal_ascii {word : String}
    (h : (ascii word).all (fun c => c != 32 && !isUnprintable c) = true) :
    ∀ c ∈ ascii word, c ≠ 32 ∧ isUnprintable c = false := by
  intro c hc
  simpa using List.all_eq_true.mp h c hc

theorem bytes_lit_legal {word : String}
    (h : (ascii word).all (fun c => c != 32 && !isUnprintable c) = true) :
    ∀ c ∈ (CString.lit word).bytes, c ≠ 32 ∧ isUnprintable c = false := fun c hc =>
  legal_ascii h c ((List.takeWhile_prefix _).subset hc)

theorem isPath_devicePath (name : CString) {below : String}
    (hbelow : (ascii below).all (fun c => c != 32 && !isUnprintable c) = true) :
    IsPath (devicePath name below).bytes := by
  obtain ⟨k, hk, -⟩ := bytes_cliUrlEncode 512 name
  refine ⟨?_, fun c hc => ?_⟩
  · change (_ : Bytes).take (598 + 1) ≠ []
    rw [Ne, List.take_eq_nil_iff]
    simp only [Nat.succ_ne_zero, false_or]
    exact List.append_ne_nil_of_left_ne_nil (List.append_ne_nil_of_left_ne_nil (by decide) _) _
  · have hmem := List.mem_of_mem_take hc
    rcases List.mem_append.mp hmem with hmem | hmem
    · rcases List.mem_append.mp hmem with hmem | hmem
      · exact bytes_lit_legal (by decide) c hmem
      · rw [hk] at hmem
        rcases escape_legal hmem with rfl | hplain
        · decide
        · exact ⟨(unreserved_legal hplain).2.2.1, (unreserved_legal hplain).2.2.2⟩
    · exact bytes_lit_legal hbelow c hmem

theorem IsToolPath.isPath {path : CString} (h : IsToolPath path) : IsPath path.bytes := by
  cases h with
  | devices => exact ⟨by decide, bytes_lit_legal (by decide)⟩
  | status => exact ⟨by decide, bytes_lit_legal (by decide)⟩
  | device name => exact isPath_devicePath name (by decide)
  | history name => exact isPath_devicePath name (by decide)

theorem IsToolPath.length_lt {path : CString} (h : IsToolPath path) : path.length < 600 := by
  have hcut : ∀ s : CString, (s.take 599).length < 600 := fun s =>
    Nat.lt_succ_of_le (List.length_take_le _ _)
  cases h with
  | devices => decide
  | status => decide
  | device name => exact hcut _
  | history name => exact hcut _

theorem getText_length (path host : CString) :
    (getText path host).length = 44 + path.length + host.length := by
  simp only [getText, List.length_append, CString.length,
    show (ascii "GET ").length = 4 by decide,
    show (ascii " HTTP/1.1\r\nHost: ").length = 17 by decide,
    show (ascii "\r\nConnection: close\r\n\r\n").length = 23 by decide]
  omega

/-- Whatever stands on the input, each request to the daemon is one GET that the daemon's parser
takes whole, without a body, on a route that reads. -/
theorem mcp_only_reads (ctx : Context) (input : Bytes) (hhost : IsHost ctx.host)
    (hlen : ctx.host.length < 128) :
    ∀ path ∈ (mcpRun ctx input).2, ∃ (hpath : IsPath path.bytes)
      (hfits : (getText path ctx.host).length < 1024),
      let r := getRequest path ctx.host hpath hhost hfits
      requestText (CString.lit "GET") path ctx.host CString.empty = r.head ∧
        r.request.body = [] ∧ IsRead (Rest.restRoute r.request.method r.request.path) := by
  intro path hmem
  have hpath := (mcpLoop_adds ctx (linesOf input)).run.1 path hmem
  have hfits : (getText path ctx.host).length < 1024 := by
    have hshort := hpath.length_lt
    rw [getText_length]
    omega
  have hmethod : copyToken 16 (ascii "GET") = CString.lit "GET" := by decide
  refine ⟨hpath.isPath, hfits, requestText_get hfits, rfl, ?_⟩
  change IsRead (Rest.restRoute (copyToken 16 (ascii "GET")) (Rest.receivedPath path))
  rw [hmethod]
  exact hpath.isRead

/-- A daemon whose list has one module, with a path for its name and its id. -/
def saveContext : Context :=
  ⟨localHost, fun _ => ⟨none, none, List.replicate 9 (.moved 99), List.replicate 9 (.moved 199),
    ascii ("HTTP/1.1 200 OK\r\n\r\n" ++
      "[\x7b\"name\":\"../../config/save\",\"id\":\"../../config/save\"\x7d]")⟩⟩

/-- A call of the tool `query_module` for that name. -/
def saveCall : Bytes :=
  ascii ("\x7b\"id\":true,\"method\":\"tools/call\",\"params\":\x7b\"name\":\"query_module\"," ++
    "\"arguments\":\x7b\"id\":\"../../config/save\"\x7d\x7d\x7d")

theorem saveCall_asks : (mcpRun saveContext saveCall).2 =
    [devicesPath, CString.lit "/api/v1/devices/..%2F..%2Fconfig%2Fsave"] := by
  decide +kernel

/-- The name is asked for as one segment of a path. -/
theorem mcp_only_reads_saveCall : (mcpRun saveContext saveCall).2 =
      [devicesPath, CString.lit "/api/v1/devices/..%2F..%2Fconfig%2Fsave"] ∧
    ∀ path ∈ (mcpRun saveContext saveCall).2, ∃ (hpath : IsPath path.bytes)
      (hfits : (getText path localHost).length < 1024),
      let r := getRequest path localHost hpath isHost_localHost hfits
      requestText (CString.lit "GET") path localHost CString.empty = r.head ∧
        r.request.body = [] ∧ IsRead (Rest.restRoute r.request.method r.request.path) :=
  ⟨saveCall_asks, mcp_only_reads saveContext saveCall isHost_localHost (by decide)⟩

/-! ## What a tool hands on -/

/-- Of a body that is the text of an object or an array, only the whole is taken. -/
theorem rootOf_cut {resp : CliHttpResp} {j root : CJson}
    (hj : j.isObject = true ∨ j.isArray = true) (hdepth : depth j ≤ nestingLimit)
    (hbody : resp.body <+: (printText j).bytes) (h : rootOf resp = some root) :
    200 ≤ resp.status ∧ resp.status < 300 ∧ root = reprint j := by
  rw [rootOf] at h
  split_ifs at h with hstatus
  rw [not_or, not_lt, not_le] at hstatus
  refine ⟨hstatus.1, hstatus.2, ?_⟩
  have hread : (CString.ofBytes resp.body).bytes = resp.body := by
    refine List.takeWhile_eq_self_iff.mpr fun c hc => ?_
    have hne : c ≠ 0 := fun h0 => (printText j).noNul (hbody.subset (h0 ▸ hc))
    simpa using hne
  cases hparse : parse (CString.ofBytes resp.body) with
  | none => simp [hparse] at h
  | some v =>
    have hwhole := parse_cut hj hdepth (hread.symm ▸ hbody) hparse
    rw [hwhole, parse_printText hdepth] at hparse
    simp only [hwhole, parse_printText hdepth] at h
    split at h
    · exact absurd h (by simp)
    · exact (Option.some.inj h).symm

theorem fetchGet_eq_some {ctx : Context} {path : CString} {asked : List CString} {root : CJson}
    (h : (fetchGet ctx path asked).1 = some root) :
    ∃ got, (cliHttpRequest ctx.host (CString.lit "GET") path CString.empty
      (ctx.exchange asked.length)).2 = .ok got ∧ rootOf got = some root := by
  rw [fetchGet] at h
  cases hgot : (cliHttpRequest ctx.host (CString.lit "GET") path CString.empty
      (ctx.exchange asked.length)).2 with
  | error err => simp [hgot] at h
  | ok got =>
    simp only [hgot] at h
    exact ⟨got, rfl, h⟩

theorem fetchTool_of_none {ctx : Context} {path failed : CString} {asked : List CString}
    (h : (fetchGet ctx path asked).1 = none) :
    (fetchTool ctx path failed asked).1 = toolResult failed true := by
  rcases hfetch : fetchGet ctx path asked with ⟨root?, log⟩
  rw [hfetch] at h
  obtain rfl : root? = none := h
  simp only [fetchTool, bind, StateT.bind, hfetch]
  rfl

theorem fetchTool_of_some {ctx : Context} {path failed : CString} {asked : List CString}
    {root : CJson} (h : (fetchGet ctx path asked).1 = some root) :
    (fetchTool ctx path failed asked).1 = toolResult (printText root) false := by
  rcases hfetch : fetchGet ctx path asked with ⟨root?, log⟩
  rw [hfetch] at h
  obtain rfl : root? = some root := h
  simp only [fetchTool, bind, StateT.bind, hfetch]
  rfl

/-- What a tool returns for a path when the daemon's handler answers with the text of an object or
an array: an error, or the whole of what the handler answered to this very request with a status of
success, whatever is cut off, fails or is delayed on the way. The tool prints what it has parsed,
which changes nothing any more unless a number is printed with digits past the largest double. -/
theorem tool_text_whole (ctx : Context) (path failed : CString) (asked : List CString)
    (hpath : IsPath path.bytes) (hhost : IsHost ctx.host)
    (hlen : (getText path ctx.host).length < 1024) {σ : Type} (srv : Server σ) (s₀ : σ)
    (es : List Event) (j : CJson) :
    let e := ctx.exchange asked.length
    let r := getRequest path ctx.host hpath hhost hlen
    let c := getConn path ctx.host e srv s₀ es
    let resp := (answer srv s₀ r.request).1
    Fits resp → e.line <+: c.sent → resp.body = printText j →
      (j.isObject = true ∨ j.isArray = true) → depth j ≤ nestingLimit →
      (fetchTool ctx path failed asked).1 = toolResult failed true ∨
        c.dispatched = [r.request] ∧ 200 ≤ resp.status ∧ resp.status < 300 ∧
          ∃ text, (fetchTool ctx path failed asked).1 = toolResult text false ∧
            parse text = some (reprint (reprint j)) ∧
            (j.AllNumbers Double.Held → (reprint j).AllNumbers Double.IsFinite →
              parse text = some (reprint j)) := by
  intro e r c resp hfits hline hbody hj hdepth
  cases hroot : (fetchGet ctx path asked).1 with
  | none => exact Or.inl (fetchTool_of_none hroot)
  | some root =>
    obtain ⟨got, hgot, hread⟩ := fetchGet_eq_some hroot
    obtain ⟨hdispatched, hstatus, hcut⟩ := get_sound hfits hline hgot
    have hcut' : got.body <+: (printText j).bytes := by
      rw [← hbody]
      exact hcut
    obtain ⟨hlow, hhigh, rfl⟩ := rootOf_cut hj hdepth hcut' hread
    rw [hstatus] at hlow hhigh
    have hlow' : 200 ≤ resp.status := by exact_mod_cast hlow
    have hhigh' : resp.status < 300 := by exact_mod_cast hhigh
    have hreprint : depth (reprint j) ≤ nestingLimit := depth_parse_le (parse_printText hdepth)
    have hparse := parse_printText hreprint
    refine Or.inr ⟨hdispatched, hlow', hhigh', printText (reprint j), fetchTool_of_some hroot,
      hparse, fun hheld hfinite => ?_⟩
    rw [hparse, (reprint_reprint_iff j hheld).mpr hfinite]

/-- What a daemon with one battery tells of itself. -/
def statusObject : CJson :=
  object [(CString.lit "server", string (CString.lit "moonflared")),
    (CString.lit "ts", number (Double.ofInt 1770000000)),
    (CString.lit "batteries", array [object [(CString.lit "soc", number Double.half)]])]

/-- That daemon. -/
def statusServer : Server Unit := plainServer (printText statusObject)

/-- An exchange with it of which so many bytes come back. -/
def cutExchange (n : ℕ) : Exchange :=
  ⟨none, none, List.replicate 9 (.moved 99), List.replicate 9 (.moved 199),
    (run (step daemonParse statusServer) (accepted () (getText Cli.statusPath localHost))
      statusEvents).sent.take n⟩

/-- The server of a client whose exchanges are all cut so. -/
def cutContext (n : ℕ) : Context := ⟨localHost, fun _ => cutExchange n⟩

theorem cutExchange_line {n : ℕ} (hsent : (cliHttpRequest localHost (CString.lit "GET")
      Cli.statusPath CString.empty (cutExchange n)).1 = getText Cli.statusPath localHost) :
    (cutExchange n).line <+:
      (getConn Cli.statusPath localHost (cutExchange n) statusServer () statusEvents).sent := by
  rw [getConn, hsent]
  exact List.take_prefix _ _

theorem statusServer_body :
    (answer statusServer () statusRequest.request).1.body = printText statusObject := by
  decide +kernel

theorem reprint_statusObject : reprint statusObject = statusObject := by decide +kernel

theorem held_statusObject : statusObject.AllNumbers Double.Held := by
  have hhalf : Double.ofRat (1 / 2) = Double.half := by decide +kernel
  exact ⟨trivial, Double.ofRat_intCast 1770000000, ⟨⟨hhalf, trivial⟩, trivial⟩, trivial⟩

theorem isFinite_statusObject : (reprint statusObject).AllNumbers Double.IsFinite := by
  rw [reprint_statusObject]
  exact ⟨trivial, trivial, ⟨⟨trivial, trivial⟩, trivial⟩, trivial⟩

/-- A reply that lacks its last bytes is an error, the whole one is handed on. -/
theorem tool_text_whole_cut :
    (fetchTool (cutContext 140) Cli.statusPath (CString.lit "failed") []).1 =
        toolResult (CString.lit "failed") true ∧
      ∃ text, (fetchTool (cutContext 155) Cli.statusPath (CString.lit "failed") []).1 =
          toolResult text false ∧ parse text = some statusObject := by
  constructor
  · decide +kernel
  · have htool := tool_text_whole (cutContext 155) Cli.statusPath (CString.lit "failed") []
      isPath_statusPath isHost_localHost getText_status_length statusServer () statusEvents
      statusObject (fits_plainServer _ _) (cutExchange_line (by decide +kernel)) statusServer_body
      (Or.inl rfl) (by decide)
    have hreply : (fetchTool (cutContext 155) Cli.statusPath (CString.lit "failed") []).1 ≠
        toolResult (CString.lit "failed") true := by decide +kernel
    obtain ⟨-, -, -, text, htext, -, hparse⟩ := htool.resolve_left hreply
    refine ⟨text, htext, ?_⟩
    rw [hparse held_statusObject isFinite_statusObject, reprint_statusObject]

end MoonFlare.Mcp
