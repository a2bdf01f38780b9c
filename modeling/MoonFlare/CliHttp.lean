import MoonFlare.DecimalText
import MoonFlare.TextSearch
import MoonFlare.UrlEncoded

/-!
# The HTTP client of the command line

A request is one connection: the text goes out, and the reply is read until the
peer closes. The head of the reply has to fit one buffer, the body grows as it
comes. What the peer sends is given as a whole; how the system hands it out, and
which of its calls are interrupted or fail, are inputs.
-/

namespace MoonFlare.Cli

/-- `MAX_BODY`. -/
def maxBody : ℕ := 1024 * 1024

/-- `sizeof(buf) - 1`. -/
def bufRoom : ℕ := 4095

/-- `cli_http_resp_t`, whose `body_len` is the length of the body. -/
structure CliHttpResp where
  status : ℤ
  body : Bytes
  deriving DecidableEq

/-- What a call of `send` or `recv` does: it moves at least one byte and at most so many more, it
is interrupted, its time is over, or it fails. -/
inductive Call where
  | moved (more : ℕ)
  | interrupted
  | timedOut
  | broken (strerror : CString)
  deriving DecidableEq

/-- What the system does for one request: whether the name is resolved and the connection made,
the calls that follow, and all that the peer sends until it closes. -/
structure Exchange where
  lookupError : Option CString
  connectError : Option CString
  sends : List Call
  recvs : List Call
  line : Bytes

/-- `atoi`, which takes the low 32 bits of what `strtol` returns. -/
def atoi (b : Bytes) : ℤ :=
  let (neg, r) := Decimal.scanSign (b.dropWhile Double.isSpace)
  let n : ℤ := Decimal.ofDigits (Decimal.spanDigits r).1
  Int.bmod (max (-2 ^ 63) (min (2 ^ 63 - 1) (if neg then -n else n))) (2 ^ 32)

/-- The text that ends a head. -/
def headEnd : CString := CString.lit "\r\n\r\n"

/-- The place of the head's end in the buffer. -/
def findHead (buf : Bytes) : Option ℕ :=
  if 4 ≤ buf.length then (CString.ofBytes buf).strstr headEnd else none

/-- The status in the text of a head, of which 255 bytes are looked at. -/
def statusOf (head : Bytes) : ℤ :=
  let line := CString.ofBytes (head.take 255)
  match line.splitAt 32 with
  | some (_, rest) => atoi rest.bytes
  | none => 0

/-- A message with the error of a call. -/
def withReason (msg : String) (reason : CString) : CString := CString.lit msg ++ reason

/-- The loop that sends: what went out, and the error that ended it. -/
def sendLoop : List Call → Bytes → Bytes × Option CString
  | [], text => ([], if text = [] then none
      else some (CString.lit "send: Resource temporarily unavailable"))
  | c :: cs, text =>
    if text = [] then ([], none)
    else match c with
      | .moved more =>
        let (sent, err) := sendLoop cs (text.drop (more + 1))
        (text.take (more + 1) ++ sent, err)
      | .interrupted => sendLoop cs text
      | .timedOut => ([], some (CString.lit "send: Resource temporarily unavailable"))
      | .broken e => ([], some (withReason "send: " e))

/-- The loop that reads the head: the buffer, the place of the head's end, what the peer's stream
holds behind it, and the calls that are left. -/
def headLoop : List Call → Bytes → Bytes → Except CString (Bytes × ℕ × Bytes × List Call)
  | [], _, _ => .error (CString.lit "recv: timeout waiting for headers")
  | c :: cs, buf, line =>
    match c with
    | .moved more =>
      let got := line.take (min (more + 1) (bufRoom - buf.length))
      -- nothing is got at the end of the stream, and into a full buffer
      if got = [] then .error (CString.lit "no header terminator")
      else match findHead (buf ++ got) with
        | some p => .ok (buf ++ got, p, line.drop got.length, cs)
        | none =>
          if maxBody ≤ (buf ++ got).length then .error (CString.lit "response too large")
          else headLoop cs (buf ++ got) (line.drop got.length)
    | .interrupted => headLoop cs buf line
    | .timedOut => .error (CString.lit "recv: timeout waiting for headers")
    | .broken e => .error (withReason "recv: " e)

/-- The loop that reads the rest of the body; a call that fails ends it as the peer does. -/
def bodyLoop : List Call → Bytes → Bytes → Except CString Bytes
  | [], body, _ => .ok body
  | c :: cs, body, line =>
    match c with
    | .moved more =>
      let got := line.take (min (more + 1) (bufRoom + 1))
      if got = [] then .ok body
      else if maxBody ≤ (body ++ got).length then .error (CString.lit "response too large")
      else bodyLoop cs (body ++ got) (line.drop got.length)
    | .interrupted => bodyLoop cs body line
    | .timedOut => .ok body
    | .broken _ => .ok body

/-- The part of `cli_http_request` that reads the reply. -/
def receive (recvs : List Call) (line : Bytes) : Except CString CliHttpResp := do
  let (buf, p, rest, cs) ← headLoop recvs [] line
  let body ← bodyLoop cs (buf.drop (p + 4)) rest
  pure ⟨statusOf (buf.take p), body⟩

/-- The text of a request, in the buffer `hdr`. -/
def requestText (method path host json : CString) : Bytes :=
  (method.bytes ++ ascii " " ++ path.bytes ++ ascii " HTTP/1.1\r\nHost: " ++ host.bytes ++
    ascii "\r\nConnection: close\r\n" ++ (if json.nonempty then
      ascii "Content-Type: application/json\r\nContent-Length: " ++
        (Decimal.ofNat json.length).text ++ ascii "\r\n"
    else []) ++ ascii "\r\n" ++ json.bytes).take 1023

/-- `cli_http_request`: what the peer gets, and the reply or the error. -/
def cliHttpRequest (host method path json : CString) (e : Exchange) :
    Bytes × Except (CBuf 256) CliHttpResp :=
  match e.lookupError with
  | some err => ([], .error (CBuf.copy 256 (withReason "getaddrinfo: " err)))
  | none =>
    match e.connectError with
    | some err => ([], .error (CBuf.copy 256 (withReason "connect: " err)))
    | none =>
      match sendLoop e.sends (requestText method path host json) with
      | (sent, some err) => (sent, .error (CBuf.copy 256 err))
      | (sent, none) => (sent, (receive e.recvs e.line).mapError (CBuf.copy 256))

/-! ## Names in paths -/

/-- `cli_url_encode` into what is left of `out`, its end included. -/
def urlEncodeInto : ℕ → Bytes → Bytes
  | _, [] => []
  | room, c :: cs =>
    if UrlEncoded.unreserved c then
      if room ≤ 1 then [] else c :: urlEncodeInto (room - 1) cs
    else if room ≤ 3 then []
    else UrlEncoded.escapeByte c ++ urlEncodeInto (room - 3) cs

/-- `cli_url_encode`: a text that is too long is cut between two characters. -/
def cliUrlEncode (cap : ℕ) (s : CString) : CString := CString.ofBytes (urlEncodeInto cap s.bytes)

/-- `cli_is_uuid`. -/
def cliIsUuid (s : CString) : Bool :=
  (s.bytes.all fun c => c == 45 || (Double.hexOf c).isSome) && s.bytes.any (· != 45)

end MoonFlare.Cli
