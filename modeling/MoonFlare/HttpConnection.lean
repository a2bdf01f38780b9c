import MoonFlare.DecimalText

/-!
# HTTP connections

The connection state machine of the HTTP server, cut at its calls into the
kernel: between two calls it runs to the next `read`, the next `write` or
the next tick. The kernel's answers are actions, so every way of splitting
the bytes is a run. The request parser and the REST layer are parameters.
-/

namespace MoonFlare.Http

/-- `MF_HTTP_HDR_CAP`. -/
def hdrCap : ℕ := 8192

/-- `MF_HTTP_BODY_CAP`. -/
def bodyCap : ℕ := 65536

/-- `MF_HTTP_IN_CAP`. -/
def inCap : ℕ := hdrCap + bodyCap

/-- `MF_HTTP_OUT_CAP`. -/
def outCap : ℕ := 65536

/-- A header as `phr_parse_request` reports it; a continuation line has no
name. -/
structure PhrHeader where
  name : Option Bytes
  value : Bytes
  deriving DecidableEq

/-- What `phr_parse_request` reports about a complete header block. -/
structure PhrRequest where
  method : Bytes
  path : Bytes
  /-- The minor version of HTTP/1. -/
  minor : ℕ
  headers : List PhrHeader
  deriving DecidableEq

/-- The return value of `phr_parse_request`: a length, -2 or -1. -/
inductive PhrResult where
  | ok (len : ℕ) (req : PhrRequest)
  | incomplete
  | malformed
  deriving DecidableEq

/-- `phr_parse_request` on a buffer and the length at the last attempt. -/
abbrev PhrParse := Bytes → ℕ → PhrResult

/-- `mf_rest_request_t`; an absent query, tag or body is empty. -/
structure RestRequest where
  method : CString
  path : CString
  query : CString
  ifMatch : CString
  body : Bytes
  deriving DecidableEq

/-- `mf_rest_response_t`. -/
structure RestResponse where
  status : ℕ
  body : CString
  location : CString
  etag : CString
  deriving DecidableEq

/-- What answers requests: `mf_rest_dispatch`, whose answer is used when it
succeeds with a status, and the text the health endpoint formats. -/
structure Server (σ : Type*) where
  dispatch : σ → RestRequest → Option RestResponse × σ
  health : σ → CBuf 160

/-- `enum mf_http_state`. -/
inductive ConnState where
  | recvHeaders
  | recvBody
  | send
  | close
  deriving DecidableEq

/-- Where the connection's thread stands: in front of a kernel call, waiting
for the next tick, or finished. `afterReset` tells the `conn_do_recv` that
`conn_keep_alive_reset` calls from the one in `http_conn_pt`. -/
inductive Point where
  | waiting
  | reading (afterReset : Bool)
  | writing
  | done
  deriving DecidableEq

/-- `mf_http_conn_t` and its surroundings. The lists record what happened. -/
structure Conn (σ : Type*) where
  inUse : Bool
  state : ConnState
  /-- The first `in_len` bytes of `in`. -/
  inBuf : Bytes
  lastLen : ℕ
  headerLen : ℕ
  contentLength : ℕ
  /-- The first `out_len` bytes of `out`. -/
  out : Bytes
  outOff : ℕ
  minor : ℕ
  closeAfter : Bool
  reqClose : Bool
  method : CString
  path : CString
  query : CString
  ifMatch : CString
  point : Point
  /-- Bytes the client sends that were not read yet. -/
  unread : Bytes
  /-- The state of the REST layer. -/
  server : σ
  /-- The requests handed to `handle_request` so far. -/
  dispatched : List RestRequest
  /-- The replies formatted so far. -/
  replies : List Bytes
  /-- The bytes written so far. -/
  sent : Bytes

/-- What the kernel and the clock decide. `ready n` offers so many bytes, and
nothing to read is `EAGAIN`; `took n` accepts so many, and none is `EAGAIN`. -/
inductive Event where
  | tick (idle : Bool)
  | ready (n : ℕ)
  | readClosed
  | took (n : ℕ)
  | writeFailed
  deriving DecidableEq

/-- Events that leave the connection up. -/
def Event.healthy : Event → Bool
  | tick idle => !idle
  | ready _ => true
  | took _ => true
  | _ => false

/-- `hdr_name_eq`. -/
def hdrNameEq (h : PhrHeader) (name : String) : Bool :=
  match h.name with
  | some n => n.map CString.tolower == ascii name
  | none => false

/-- A blank to the header helpers. -/
def isBlank (b : UInt8) : Bool := b == 32 || b == 9

/-- `hdr_is_identity`. -/
def hdrIsIdentity (h : PhrHeader) : Bool :=
  ((h.value.dropWhile isBlank).rdropWhile isBlank).map CString.tolower == ascii "identity"

/-- The token at position `i` of a value, bounded on both sides. -/
def tokenAt (v tok : Bytes) (i : ℕ) : Bool :=
  (i == 0 || (v[i - 1]?).any fun b => isBlank b || b == 44) &&
    ((v.drop i).take tok.length).map CString.tolower == tok &&
    (i + tok.length == v.length ||
      (v[i + tok.length]?).any fun b => b == 44 || isBlank b || b == 59)

/-- `hdr_has_token`. -/
def hdrHasToken (h : PhrHeader) (tok : String) : Bool :=
  (List.range (h.value.length + 1 - (ascii tok).length)).any (tokenAt h.value (ascii tok))

/-- `http_reason`. -/
def httpReason (status : ℕ) : String :=
  match status with
  | 200 => "OK"
  | 201 => "Created"
  | 202 => "Accepted"
  | 400 => "Bad Request"
  | 403 => "Forbidden"
  | 404 => "Not Found"
  | 405 => "Method Not Allowed"
  | 409 => "Conflict"
  | 413 => "Payload Too Large"
  | _ => "Error"

/-- `copy_token`. -/
def copyToken (cap : ℕ) (b : Bytes) : CString := CString.ofBytes (b.take (cap - 1))

/-- `split_query`: the path in front of the question mark and the query. -/
def splitQuery (path : CString) : CString × CString :=
  match path.splitAt 63 with
  | some (p, q) => (p, q.take 95)
  | none => (path, CString.empty)

/-- A number as `%d` and `%zu` write it. -/
def decimal (n : ℕ) : Bytes := (Decimal.ofNat n).text

/-- An optional header line of a reply. -/
def replyLine (name : String) (v : CString) : Bytes :=
  if v.nonempty then ascii name ++ v.bytes ++ ascii "\r\n" else []

/-- The header block `http_reply` formats. -/
def replyHead (minor status : ℕ) (reason : String) (bodyLen : ℕ) (close : Bool)
    (location etag : CString) : Bytes :=
  ascii "HTTP/1." ++ decimal minor ++ ascii " " ++ decimal status ++ ascii " " ++ ascii reason ++
    ascii "\r\nContent-Type: application/json\r\nContent-Length: " ++ decimal bodyLen ++
    ascii "\r\nConnection: " ++ ascii (if close then "close" else "keep-alive") ++ ascii "\r\n" ++
    replyLine "Location: " location ++ replyLine "ETag: " etag ++ ascii "\r\n"

/-- The fields the header loop of `parse_headers` sets. -/
structure HeaderFields where
  contentLength : ℕ
  reqClose : Bool
  ifMatch : CString
  deriving DecidableEq

/-- Why the header loop answers at once. -/
inductive HeaderReject where
  | chunked
  | badLength
  | tooLarge
  deriving DecidableEq

/-- One round of the header loop. -/
def headerStep (f : HeaderFields) (h : PhrHeader) : HeaderFields × Option HeaderReject :=
  if hdrNameEq h "transfer-encoding" then
    (f, if hdrIsIdentity h then none else some .chunked)
  else if hdrNameEq h "content-length" then
    match Decimal.strtoull (copyToken 32 h.value) with
    | none => (f, some .badLength)
    | some (cl, overflow) =>
      if overflow then (f, some .badLength)
      else if bodyCap < cl then (f, some .tooLarge)
      else ({ f with contentLength := cl }, none)
  else if hdrNameEq h "connection" then
    if hdrHasToken h "close" then ({ f with reqClose := true }, none)
    else if hdrHasToken h "keep-alive" then ({ f with reqClose := false }, none)
    else (f, none)
  else if hdrNameEq h "if-match" then ({ f with ifMatch := copyToken 64 h.value }, none)
  else (f, none)

/-- The header loop of `parse_headers`. -/
def headerLoop (f : HeaderFields) : List PhrHeader → HeaderFields × Option HeaderReject
  | [] => (f, none)
  | h :: hs =>
    match headerStep f h with
    | (f', none) => headerLoop f' hs
    | (f', some r) => (f', some r)

/-- The fields the loop starts from, after `conn_reset_req`. -/
def headerStart (req : PhrRequest) : HeaderFields := ⟨0, decide (req.minor < 1), CString.empty⟩

variable {σ : Type*} (phr : PhrParse) (srv : Server σ)

/-- The thread stops at a point. -/
def Conn.goto (c : Conn σ) (p : Point) : Conn σ := { c with point := p }

/-- `read` moves bytes from the socket to the buffer. -/
def Conn.receive (c : Conn σ) (b : Bytes) : Conn σ :=
  { c with inBuf := c.inBuf ++ b, unread := c.unread.drop b.length }

/-- `last_len` after an attempt to parse. -/
def Conn.seen (c : Conn σ) : Conn σ := { c with lastLen := min c.inBuf.length hdrCap }

/-- `conn_reset_req`. -/
def connResetReq (c : Conn σ) : Conn σ :=
  { c with
    lastLen := 0, headerLen := 0, contentLength := 0, out := [], outOff := 0, minor := 1
    closeAfter := false, reqClose := false, method := CString.empty, path := CString.empty
    query := CString.empty, ifMatch := CString.empty, state := .recvHeaders }

/-- `conn_close`. -/
def connClose (c : Conn σ) : Conn σ := { c with inUse := false, state := .close, inBuf := [] }

/-- `http_reply`: none when the reply does not fit `out`. -/
def httpReply (c : Conn σ) (status : ℕ) (reason : String) (body : CString) (forceClose : Bool)
    (location etag : CString) : Option (Conn σ) :=
  let closeC := forceClose || c.reqClose || decide (c.minor < 1)
  let head := replyHead c.minor status reason body.length closeC location etag
  if outCap ≤ head.length + body.length then none
  else some { c with
    out := head ++ body.bytes, outOff := 0, closeAfter := closeC, state := .send
    replies := c.replies ++ [head ++ body.bytes] }

/-- `http_reply_or_close`. -/
def httpReplyOrClose (c : Conn σ) (status : ℕ) (reason : String) (body : CString)
    (forceClose : Bool) (location etag : CString) : Conn σ :=
  (httpReply c status reason body forceClose location etag).getD (connClose c)

/-- The answer to a malformed request, after which the connection closes. -/
def badRequest (c : Conn σ) : Conn σ :=
  httpReplyOrClose c 400 "Bad Request" (CString.lit "\x7b\"error\":\"bad request\"\x7d") true
    CString.empty CString.empty

/-- The request a connection in front of `handle_request` holds. -/
def Conn.request (c : Conn σ) : RestRequest :=
  { method := c.method, path := c.path, query := c.query, ifMatch := c.ifMatch
    body := if 0 < c.contentLength ∧ c.headerLen + c.contentLength ≤ c.inBuf.length then
        (c.inBuf.drop c.headerLen).take c.contentLength else [] }

/-- What `handle_request` answers: the server's next state and the reply. -/
def answer (s : σ) (req : RestRequest) : RestResponse × String × σ :=
  if req.path = CString.lit "/api/v1/health" then
    if req.method ≠ CString.lit "GET" then
      (⟨405, CString.lit "\x7b\"error\":\"method not allowed\"\x7d", CString.empty, CString.empty⟩,
        "Method Not Allowed", s)
    else (⟨200, (srv.health s).str, CString.empty, CString.empty⟩, "OK", s)
  else
    match srv.dispatch s req with
    | (some resp, s') => (resp, httpReason resp.status, s')
    | (none, s') =>
      (⟨404, CString.lit "\x7b\"error\":\"not found\"\x7d", CString.empty, CString.empty⟩,
        "Not Found", s')

/-- `handle_request`. -/
def handleRequest (c : Conn σ) : Conn σ :=
  let (resp, reason, server) := answer srv c.server c.request
  let c := { c with dispatched := c.dispatched ++ [c.request], server := server }
  httpReplyOrClose c resp.status reason resp.body false resp.location resp.etag

/-- The reply to a rejected header block. -/
def headerReply (c : Conn σ) : HeaderReject → Conn σ
  | .chunked => httpReplyOrClose c 400 "Bad Request"
      (CString.lit "\x7b\"error\":\"chunked not supported\"\x7d") true CString.empty CString.empty
  | .badLength => badRequest c
  | .tooLarge => httpReplyOrClose c 413 "Payload Too Large"
      (CString.lit "\x7b\"error\":\"payload too large\"\x7d") true CString.empty CString.empty

/-- `parse_headers`; false when the block is still incomplete. -/
def parseHeaders (c : Conn σ) : Conn σ × Bool :=
  match phr (c.inBuf.take hdrCap) c.lastLen with
  | .incomplete => if hdrCap ≤ c.inBuf.length then (badRequest c, true) else (c, false)
  | .malformed => (badRequest c, true)
  | .ok len req =>
    let (path, query) := splitQuery (copyToken 128 req.path)
    let (f, reject) := headerLoop ⟨0, decide (req.minor < 1), c.ifMatch⟩ req.headers
    let c := { c with
      headerLen := len, minor := req.minor, method := copyToken 16 req.method, path := path
      query := query, contentLength := f.contentLength, reqClose := f.reqClose
      ifMatch := f.ifMatch }
    match reject with
    | some r => (headerReply c r, true)
    | none =>
      if c.contentLength = 0 then (handleRequest srv c, true)
      else ({ c with state := .recvBody }, true)

/-- How many bytes the next `read` of `conn_do_recv` asks for. -/
def Conn.room (c : Conn σ) : ℕ :=
  if c.state = .recvHeaders then hdrCap - c.inBuf.length
  else min (c.headerLen + c.contentLength - c.inBuf.length) (inCap - c.inBuf.length)

/-- The body is in the buffer. -/
def Conn.bodyComplete (c : Conn σ) : Prop :=
  c.state ≠ .recvHeaders ∧ c.headerLen + c.contentLength ≤ c.inBuf.length

instance (c : Conn σ) : Decidable c.bodyComplete := inferInstanceAs (Decidable (_ ∧ _))

/-- The bottom of the loop of `http_conn_pt`. -/
def settle (c : Conn σ) : Conn σ :=
  c.goto (if c.state = .close ∨ c.inUse = false then .done else .waiting)

/-- `conn_do_recv` from the top of its loop to its next `read`, or through
its return into `back`. -/
def connDoRecv (afterReset : Bool) (back : Conn σ → Conn σ) (c : Conn σ) : Conn σ :=
  if c.bodyComplete then back (handleRequest srv c)
  else if c.room = 0 then
    if c.state = .recvHeaders then
      let (c', progressed) := parseHeaders phr srv c
      back (if progressed then c' else badRequest c')
    else back (badRequest c)
  else c.goto (.reading afterReset)

/-- `conn_keep_alive_reset`. -/
def connKeepAliveReset (c : Conn σ) : Conn σ :=
  let used := min (c.headerLen + c.contentLength) c.inBuf.length
  let c := connResetReq { c with inBuf := c.inBuf.drop used }
  if c.inBuf ≠ [] then connDoRecv phr srv true settle c else settle c

/-- `conn_do_send` from the top of its loop to its next `write`, or through
its end. -/
def connDoSend (c : Conn σ) : Conn σ :=
  if c.outOff < c.out.length then c.goto .writing
  else if c.closeAfter then settle (connClose c)
  else connKeepAliveReset phr srv c

/-- What follows `conn_do_recv` in `http_conn_pt`. -/
def afterRecv (c : Conn σ) : Conn σ :=
  if c.state = .send then connDoSend phr srv c else settle c

/-- Where a `conn_do_recv` returns to. -/
def recvBack (afterReset : Bool) : Conn σ → Conn σ :=
  if afterReset then settle else afterRecv phr srv

/-- The rest of a round of `conn_do_recv`, once `read` delivered bytes. -/
def afterRead (afterReset : Bool) (c : Conn σ) : Conn σ :=
  let back := recvBack phr srv afterReset
  if c.state = .recvHeaders then
    let c' := (parseHeaders phr srv c).1.seen
    if c'.state = .send ∨ c'.state = .close then back c'
    else connDoRecv phr srv afterReset back c'
  else if c.headerLen + c.contentLength ≤ c.inBuf.length then back (handleRequest srv c)
  else connDoRecv phr srv afterReset back c

/-- The bytes an event delivers to a connection in front of `read`. -/
def Conn.delivered (c : Conn σ) : Event → Bytes
  | .ready n => c.unread.take (min n c.room)
  | _ => []

/-- One event. An event the thread is not in front of changes nothing. -/
def step (c : Conn σ) (e : Event) : Conn σ :=
  match c.point, e with
  | .waiting, .tick true => settle (connClose c)
  | .waiting, .tick false =>
    if c.state = .recvHeaders ∨ c.state = .recvBody then
      connDoRecv phr srv false (afterRecv phr srv) c
    else afterRecv phr srv c
  | .reading afterReset, .ready n =>
    let b := c.delivered (.ready n)
    if b = [] then recvBack phr srv afterReset c
    else afterRead phr srv afterReset (c.receive b)
  | .reading afterReset, .readClosed => recvBack phr srv afterReset (connClose c)
  | .writing, .took n =>
    let b := (c.out.drop c.outOff).take n
    if b = [] then settle c
    else connDoSend phr srv { c with outOff := c.outOff + b.length, sent := c.sent ++ b }
  | .writing, .writeFailed => settle (connClose c)
  | _, _ => c

/-- A connection `accept_one_fd` has just set up, with the bytes its client
is going to send. -/
def accepted (server : σ) (unread : Bytes) : Conn σ :=
  { inUse := true, state := .recvHeaders, inBuf := [], lastLen := 0, headerLen := 0
    contentLength := 0, out := [], outOff := 0, minor := 1, closeAfter := false, reqClose := false
    method := CString.empty, path := CString.empty, query := CString.empty
    ifMatch := CString.empty, point := .waiting, unread := unread, server := server
    dispatched := [], replies := [], sent := [] }

/-- The connection was refused data and its next tick would ask again: it is
waiting for the socket. -/
def Conn.awaitsData (c : Conn σ) : Prop :=
  c.point = .waiting ∧ (c.state = .recvHeaders ∨ c.state = .recvBody) ∧ ¬c.bodyComplete ∧
    c.room ≠ 0

instance (c : Conn σ) : Decidable c.awaitsData := inferInstanceAs (Decidable (_ ∧ _))

end MoonFlare.Http
