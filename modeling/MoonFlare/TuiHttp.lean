import MoonFlare.DecimalText
import MoonFlare.Runs

/-!
# The HTTP client of the terminal interface

One connection carries the periodic requests for data and what the user changes.
A request made while another is in flight is dropped when it asks for data and put
into the one pending slot when it writes. The pump connects, begins what is pending,
sends, and takes the reply. What was accepted and what was put on the wire of each
request is logged beside the client's own fields.
-/

namespace MoonFlare.TuiHttp

/-- `mf_conn_state_t`. -/
inductive ConnState where
  | up
  | connecting
  | wait
  deriving DecidableEq

/-- The methods the client sends. -/
inductive Method where
  | get
  | post
  | put
  | delete
  deriving DecidableEq

/-- The word on the request line. -/
def Method.text : Method → CString
  | .get => CString.lit "GET"
  | .post => CString.lit "POST"
  | .put => CString.lit "PUT"
  | .delete => CString.lit "DELETE"

/-- What the pending slot holds: `pend_method`, which has room for every method,
`pend_path` and `pend_json`. -/
structure Pending where
  method : Method
  path : CBuf 160
  json : CBuf 2048
  /-- Which of the writes accepted it is. -/
  ticket : ℕ

/-- What went out of a request that is over. -/
structure Sending where
  /-- Which of the writes accepted it is, none for a request for data. -/
  ticket : Option ℕ
  bytes : Bytes
  /-- It was over because its connection was. -/
  failed : Bool
  deriving DecidableEq

/-- `mf_http_cli_t`: what is to be sent is the first `out_len` bytes of `out`, and a
descriptor is open or not. -/
structure HttpCli where
  host : CBuf 128
  port : ℤ
  isOpen : Bool
  state : ConnState
  lastFresh : Double
  connSince : Double
  reqSince : Double
  nextTry : Double
  backoff : Double
  inflight : Bool
  skipped : ℕ
  pend : Option Pending
  path : CBuf 160
  out : Bytes
  outOff : ℕ
  inBuf : Bytes
  haveBody : Bool
  body : Bytes
  statusLine : CBuf 96
  /-- Every write accepted, as the whole text of its request. -/
  accepted : List Bytes
  /-- Which write is in flight, if one is. -/
  ticket : Option ℕ
  /-- Every request that was begun and is over. -/
  done : List Sending

/-! ## Constants -/

/-- `BACKOFF_MIN`. -/
def backoffMin : Double := Double.half

/-- `BACKOFF_MAX`. -/
def backoffMax : Double := Double.ofInt 5

/-- `CONNECT_TMO_S`. -/
def connectTmoS : Double := Double.ofInt 5

/-- `INFLIGHT_TMO_S`. -/
def inflightTmoS : Double := Double.ofInt 8

/-- `sizeof(out) - 1`. -/
def outMax : ℕ := 2047

/-- `sizeof(in) - 1`. -/
def inMax : ℕ := 65535

/-! ## Requests -/

/-- The text of a request. -/
def requestText (host method path json : CString) : Bytes :=
  method.bytes ++ ascii " " ++ path.bytes ++ ascii " HTTP/1.1\r\nHost: " ++ host.bytes ++
    ascii "\r\n" ++ (if json.nonempty then
      ascii "Content-Type: application/json\r\nContent-Length: " ++
        (Decimal.ofNat json.length).text ++ ascii "\r\n"
    else []) ++
    ascii "Connection: keep-alive\r\n\r\n" ++ json.bytes

/-- What of a request's text `out` has room for, with the path from its own buffer. -/
def outText (host : CBuf 128) (method : Method) (path json : CString) : Bytes :=
  (requestText host.str method.text (CBuf.copy 160 path).str json).take outMax

/-- The first place where a text occurs in another. -/
def strstr (text needle : Bytes) : Option ℕ := text.tails.findIdx? fun t => needle.isPrefixOf t

/-- What a call to make a request returns: 1, 0 and -1. -/
inductive Begun where
  | accepted
  | skipped
  | notConnected
  deriving DecidableEq

namespace HttpCli

variable (c : HttpCli)

/-- `set_status`. -/
def setStatus (s : String) : HttpCli := { c with statusLine := CBuf.copy 96 (CString.lit s) }

/-- The request in flight, with what is on the wire of it. -/
def flying (failed : Bool) : List Sending :=
  if c.inflight then [⟨c.ticket, c.out.take c.outOff, failed⟩] else []

/-- `mf_http_cli_close`. -/
def close : HttpCli :=
  { c with
    isOpen := false, inflight := false, reqSince := Double.zero, out := [], outOff := 0
    inBuf := [], haveBody := false, done := c.done ++ c.flying true }

/-- The next try is put off, and the one after it for longer. -/
def backOff (now : Double) : HttpCli :=
  let twice := c.backoff.add c.backoff
  { c with
    state := .wait, nextTry := now.add c.backoff
    backoff := if backoffMax.lt twice then backoffMax else twice }

/-- `mf_http_cli_start`, `nb_connect` opening a descriptor or not. -/
def start (now : Double) (connects : Bool) : HttpCli :=
  let c := c.close
  if connects then
    { c with isOpen := true, state := .connecting, connSince := now }.setStatus "connecting"
  else (c.backOff now).setStatus "reconnect wait"

/-- `mark_up`. -/
def markUp (now : Double) : HttpCli :=
  { c with state := .up, backoff := backoffMin, lastFresh := now }.setStatus "UP"

/-- `schedule_retry`. -/
def scheduleRetry (now : Double) (why : String) : HttpCli := (c.close.backOff now).setStatus why

/-- The second half of `cli_begin`: a request goes in flight. -/
def goOut (method : Method) (path json : CString) (ticket : Option ℕ) : HttpCli :=
  { c with
    path := CBuf.copy 160 path, out := outText c.host method path json, outOff := 0, inBuf := []
    haveBody := false, inflight := true, reqSince := Double.zero, ticket := ticket }

/-- A write is accepted. -/
def accept (method : Method) (path json : CString) : HttpCli :=
  { c with accepted := c.accepted ++ [requestText c.host.str method.text path json] }

/-- `cli_begin`. -/
def cliBegin (method : Method) (path json : Option CString) : HttpCli × Begun :=
  let path := path.getD (CString.lit "/")
  let json := json.getD CString.empty
  if c.state ≠ .up ∨ c.isOpen = false then (c, .notConnected)
  else if c.inflight then
    if method = .get then ({ c with skipped := c.skipped + 1 }, .skipped)
    else
      let pend : Pending := ⟨method, CBuf.copy 160 path, CBuf.copy 2048 json, c.accepted.length⟩
      ({ c.accept method path json with pend := some pend }, .accepted)
  else if method = .get then (c.goOut method path json none, .accepted)
  else ((c.accept method path json).goOut method path json (some c.accepted.length), .accepted)

/-- `parse_complete`: the client once a whole response is there. -/
def parseComplete : Option HttpCli :=
  let text := (CString.ofBytes c.inBuf).bytes
  match strstr text (ascii "\r\n\r\n") with
  | none => none
  | some hdr =>
    let hlen := hdr + 4
    let cl := match strstr text (ascii "Content-Length:") with
      | some p =>
        let digits := CString.ofBytes (text.drop (p + 15))
        if p < hdr then ((Decimal.strtoull digits).map Prod.fst).getD 0 else 0
      | none => 0
    if c.inBuf.length < (hlen + cl) % 2 ^ 64 then none
    else
      some { c with
        body := (c.inBuf.drop hlen).take (min cl inMax), haveBody := true, inflight := false
        inBuf := [], out := [], outOff := 0, done := c.done ++ c.flying false }

/-- The pending write goes out when nothing is in flight. -/
def beginPending : HttpCli :=
  match c.pend with
  | none => c
  | some p =>
    if c.inflight then c
    else
      let c := { c with pend := none }
      if c.isOpen then c.goOut p.method p.path.str p.json.str (some p.ticket) else c

end HttpCli

/-- How `send` ends. -/
inductive SendResult where
  | failed
  /-- So many bytes are taken, none when it would block. -/
  | wrote (n : ℕ)

/-- How `recv` ends. -/
inductive RecvResult where
  | failed
  | again
  /-- What has arrived, nothing when the peer has closed. -/
  | got (b : Bytes)

/-- What the surroundings decide in a pump. -/
structure PumpEnv where
  readable : Bool
  writable : Bool
  now : Double
  /-- `nb_connect` opens a descriptor. -/
  connects : Bool
  /-- The connection is made, as `SO_ERROR` has it. -/
  connected : Bool
  send : SendResult
  recv : RecvResult

namespace HttpCli

variable (c : HttpCli)

/-- The request in flight is stamped with the clock, or has waited too long. -/
def stamp (now : Double) : Option HttpCli :=
  if c.inflight then
    if Double.zero.ge c.reqSince then some { c with reqSince := now }
    else if inflightTmoS.lt (now.sub c.reqSince) then none
    else some c
  else some c

/-- What is left of the request is sent, unless that fails. -/
def sendOut (e : PumpEnv) : Option HttpCli :=
  if c.inflight = true ∧ c.outOff < c.out.length ∧ e.writable = true then
    match e.send with
    | .failed => none
    | .wrote n => some { c with outOff := c.outOff + min n (c.out.length - c.outOff) }
  else some c

/-- What has arrived is taken in while a request is in flight. -/
def takeIn (b : Bytes) : HttpCli := { c with inBuf := c.inBuf ++ b }

/-- Bytes of a response are taken in, and the response once it is whole. -/
def gotBytes (b : Bytes) (now : Double) : HttpCli :=
  if b = [] then c.scheduleRetry now "peer closed"
  else if c.inflight then
    match (c.takeIn b).parseComplete with
    | some c => { c with lastFresh := now }
    | none => c.takeIn b
  else c

/-- What arrives is received, as much of it as there is room for. -/
def receive (e : PumpEnv) : HttpCli :=
  if e.readable then
    if inMax ≤ c.inBuf.length then c.scheduleRetry e.now "response too large"
    else match e.recv with
      | .failed => c.scheduleRetry e.now "recv failed"
      | .again => c
      | .got b => c.gotBytes (b.take (inMax - c.inBuf.length)) e.now
  else c

/-- The pump while the connection is up. -/
def pumpUp (e : PumpEnv) : HttpCli :=
  match c.stamp e.now with
  | none => c.scheduleRetry e.now "request timeout"
  | some c =>
    let c := c.beginPending
    match c.sendOut e with
    | none => c.scheduleRetry e.now "send failed"
    | some c => c.receive e

/-- `mf_http_cli_pump`. -/
def pump (e : PumpEnv) : HttpCli :=
  match c.state with
  | .wait => if e.now.ge c.nextTry then c.start e.now e.connects else c
  | .connecting =>
    if e.writable then
      if e.connected then c.markUp e.now else c.scheduleRetry e.now "connect failed"
    else if connectTmoS.lt (e.now.sub c.connSince) then c.scheduleRetry e.now "connect timeout"
    else c
  | .up => c.pumpUp e

/-- `mf_http_cli_take_body`. -/
def takeBody (cap : ℕ) : HttpCli × Option CString :=
  if c.haveBody = false ∨ cap = 0 then (c, none)
  else ({ c with haveBody := false }, some ((CString.ofBytes c.body).take (cap - 1)))

end HttpCli

/-- `mf_http_cli_init`, over what was logged before. -/
def cliInit (host : CString) (port : ℤ) (accepted : List Bytes) (done : List Sending) : HttpCli :=
  { host := CBuf.copy 128 (if host.nonempty then host else CString.lit "127.0.0.1")
    port := if 0 < port ∧ port ≤ 65535 then port else 5250
    isOpen := false, state := .wait, lastFresh := Double.zero, connSince := Double.zero
    reqSince := Double.zero, nextTry := Double.zero, backoff := backoffMin, inflight := false
    skipped := 0, pend := none, path := CBuf.zero 160, out := [], outOff := 0, inBuf := []
    haveBody := false, body := [], statusLine := CBuf.copy 96 (CString.lit "connecting")
    accepted := accepted, ticket := none, done := done }

/-- What happens to the client. -/
inductive CliEvent where
  /-- `mf_http_cli_get`, with the path of the status by default. -/
  | get (path : Option CString)
  | post (path json : Option CString)
  | put (path json : Option CString)
  | delete (path : Option CString)
  | pump (e : PumpEnv)
  | takeBody (cap : ℕ)
  /-- Another connection: `mf_http_cli_close`, `mf_http_cli_init`, `mf_http_cli_start`. -/
  | connect (host : CString) (port : ℤ) (now : Double) (connects : Bool)

/-- One event. -/
def cliStep (c : HttpCli) : CliEvent → HttpCli
  | .get path => (c.cliBegin .get (some (path.getD (CString.lit "/api/v1/status"))) none).1
  | .post path json => (c.cliBegin .post path json).1
  | .put path json => (c.cliBegin .put path json).1
  | .delete path => (c.cliBegin .delete path none).1
  | .pump e => c.pump e
  | .takeBody cap => (c.takeBody cap).1
  | .connect host port now connects =>
    let c := c.close
    (cliInit host port c.accepted c.done).start now connects

end MoonFlare.TuiHttp
