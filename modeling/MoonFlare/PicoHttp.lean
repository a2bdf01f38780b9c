import MoonFlare.HttpConnection
import MoonFlare.Incremental

/-!
# The HTTP request parser

`phr_parse_request` reads a request's head at the front of a buffer: an empty
line that is passed over, the request line, and headers up to an empty line. It
returns the head's length, asks for more, or rejects. When an earlier attempt
was made on a part of the buffer, it first looks for the end of the head from
there on.
-/

namespace MoonFlare.Pico

open Http Incremental Incremental.Scanner

/-- `token_char_map`, from the blank to the delete character. -/
def tokenCharMap : Bytes :=
  [0, 1, 0, 1, 1, 1, 1, 1, 0, 0, 1, 1, 0, 1, 1, 0, 1, 1, 1, 1, 1, 1, 1, 1, 1, 1, 0, 0, 0, 0, 0, 0,
    0, 1, 1, 1, 1, 1, 1, 1, 1, 1, 1, 1, 1, 1, 1, 1, 1, 1, 1, 1, 1, 1, 1, 1, 1, 1, 1, 0, 0, 0, 1, 1,
    1, 1, 1, 1, 1, 1, 1, 1, 1, 1, 1, 1, 1, 1, 1, 1, 1, 1, 1, 1, 1, 1, 1, 1, 1, 1, 1, 0, 1, 0, 1, 0]

/-- A byte that may stand in a token: the map is zero outside the listed part. -/
def isTokenChar (c : UInt8) : Bool := 32 ≤ c && tokenCharMap.getD (c.toNat - 32) 0 != 0

/-- A byte that ends a line or may not stand in one; a tab may. -/
def isControl (c : UInt8) : Bool := (c < 32 && c != 9) || c == 127

/-- A byte that is not printed; the bytes from 128 on may stand in a path. -/
def isUnprintable (c : UInt8) : Bool := c < 32 || c == 127

/-- `EXPECT_CHAR` of a line feed behind a carriage return, or the line feed alone. -/
def lineEnd : Scanner UInt8 Unit := do
  let c ← next
  if c = 13 then
    let d ← next
    if d = 10 then pure () else halt .bad
  else if c = 10 then pure () else halt .bad

/-- Pass over an empty line, if there is one. -/
def emptyLine : Scanner UInt8 Bool := do
  let c ← look
  if c = 13 ∨ c = 10 then
    lineEnd
    pure true
  else pure false

/-- `parse_token`, up to the byte that follows it. -/
def parseToken (nextChar : UInt8) : Scanner UInt8 Bytes := tokens (· == nextChar) isTokenChar

/-- `ADVANCE_TOKEN`, up to a blank. -/
def advanceToken : Scanner UInt8 Bytes := tokens (· == 32) fun c => !isUnprintable c

/-- Pass over blanks, up to a byte that is none. -/
def skipSpaces : Scanner UInt8 Bytes := tokens (· != 32) fun _ => true

/-- Pass over blanks and tabs. -/
def skipBlanks : Scanner UInt8 Bytes := tokens (fun c => !isBlank c) fun _ => true

/-- `get_token_to_eol`. -/
def getTokenToEol : Scanner UInt8 Bytes := do
  let t ← tokens isControl fun _ => true
  lineEnd
  pure t

/-- `parse_http_version`: it wants to see two bytes behind the point. -/
def parseHttpVersion : Scanner UInt8 ℕ := fun b =>
  if b.length < 9 then .error .short
  else if (ascii "HTTP/1.").isPrefixOf b then
    match b.drop 7 with
    | [] => .error .short
    | d :: r => if 48 ≤ d ∧ d ≤ 57 then .ok (d.toNat - 48, r) else .error .bad
  else .error .bad

/-- A round of `parse_headers`: a header, or a line that continues the one in front of it. -/
def parseHeader (first : Bool) : Scanner UInt8 PhrHeader := do
  let c ← look
  if first = false ∧ isBlank c = true then
    let value ← getTokenToEol
    pure ⟨none, value.rdropWhile isBlank⟩
  else
    let name ← parseToken 58
    if name = [] then halt .bad
    else
      let _ ← next
      let _ ← skipBlanks
      let value ← getTokenToEol
      pure ⟨some name, value.rdropWhile isBlank⟩

/-- `parse_headers` with room for so many headers more. -/
def parseHeaders : ℕ → Bool → Scanner UInt8 (List PhrHeader)
  | left, first => do
    if ← emptyLine then pure []
    else
      match left with
      | 0 => halt .bad
      | left + 1 =>
        let h ← parseHeader first
        let hs ← parseHeaders left false
        pure (h :: hs)

/-- `parse_request`. -/
def parseRequest (maxHeaders : ℕ) : Scanner UInt8 PhrRequest := do
  let _ ← emptyLine
  let method ← parseToken 32
  let _ ← next
  let _ ← skipSpaces
  let path ← advanceToken
  let _ ← next
  let _ ← skipSpaces
  if method = [] ∨ path = [] then halt .bad
  else
    let minor ← parseHttpVersion
    lineEnd
    let headers ← parseHeaders maxHeaders true
    pure ⟨method, path, minor, headers⟩

/-- `is_complete` behind so many line ends in a row. -/
def isComplete : ℕ → Bytes → Except Stop (Unit × Bytes)
  | _, [] => .error .short
  | n, c :: cs =>
    if c = 13 then
      match cs with
      | [] => .error .short
      | d :: ds =>
        if d = 10 then if n = 1 then .ok ((), ds) else isComplete (n + 1) ds
        else .error .bad
    else if c = 10 then if n = 1 then .ok ((), cs) else isComplete (n + 1) cs
    else isComplete 0 cs

/-- The return value when there is no request. -/
def stopResult : Stop → PhrResult
  | .short => .incomplete
  | .bad => .malformed

/-- `phr_parse_request`. -/
def phrParseRequest (maxHeaders : ℕ) : PhrParse := fun b last =>
  match if last = 0 then .ok ((), b) else isComplete 0 (b.drop (last - 3)) with
  | .error e => stopResult e
  | .ok _ =>
    match parseRequest maxHeaders b with
    | .error e => stopResult e
    | .ok (req, r) => .ok (b.length - r.length) req

/-- `HTTP_MAX_HEADERS`. -/
def httpMaxHeaders : ℕ := 32

/-- The parser as the daemon calls it. -/
def daemonParse : PhrParse := phrParseRequest httpMaxHeaders

end MoonFlare.Pico
