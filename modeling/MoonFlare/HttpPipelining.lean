import MoonFlare.HttpConnection
import MoonFlare.Runs

/-!
# Pipelined requests

Complete requests sent on one keep-alive connection are dispatched in order,
each once, however the kernel splits the bytes. The one place where a request
that is already in the buffer can be left waiting is the `read` that follows
the keep-alive reset: what the buffer holds is parsed only after that `read`
has delivered something. A reply that does not fit `out` closes the
connection. The invariant says which of three phases the connection is in.
-/

namespace MoonFlare.Http

variable {phr : PhrParse}

/-- A complete keep-alive request as it stands on the wire: a header block
the parser recognises and the body its headers announce. -/
structure WireRequest (phr : PhrParse) where
  /-- The header block. -/
  head : Bytes
  /-- The body. -/
  body : Bytes
  /-- What the parser reports about the block. -/
  parsed : PhrRequest
  /-- What its headers say. -/
  fields : HeaderFields
  /-- The parser returns the length of a complete block, whatever follows. -/
  complete : ∀ rest last, last < head.length → phr (head ++ rest) last = .ok head.length parsed
  /-- It asks for more on a proper prefix. -/
  prefixes : ∀ b last, b <+: head → b ≠ head → b ≠ [] → last ≤ b.length → phr b last = .incomplete
  /-- The block fits the header part of the buffer. -/
  headFits : head ≠ [] ∧ head.length ≤ hdrCap
  /-- No header is refused. -/
  accepted : headerLoop (headerStart parsed) parsed.headers = (fields, none)
  /-- The length announced is the body's, and is allowed. -/
  bodyLength : fields.contentLength = body.length ∧ body.length ≤ bodyCap
  /-- The client keeps the connection. -/
  keepAlive : fields.reqClose = false ∧ 1 ≤ parsed.minor

namespace WireRequest

/-- The bytes sent. -/
def bytes (r : WireRequest phr) : Bytes := r.head ++ r.body

/-- The request as it is dispatched when it arrives alone. -/
def alone (r : WireRequest phr) : RestRequest :=
  { method := copyToken 16 r.parsed.method
    path := (splitQuery (copyToken 128 r.parsed.path)).1
    query := (splitQuery (copyToken 128 r.parsed.path)).2
    ifMatch := r.fields.ifMatch
    body := r.body }

/-- The bytes of a sequence of requests. -/
def wires (rs : List (WireRequest phr)) : Bytes := rs.flatMap bytes

@[simp] theorem wires_nil : wires ([] : List (WireRequest phr)) = [] := rfl

@[simp] theorem wires_cons (r : WireRequest phr) (rs : List (WireRequest phr)) :
    wires (r :: rs) = r.head ++ (r.body ++ wires rs) := by
  simp [wires, bytes]

theorem length_bytes (r : WireRequest phr) : r.bytes.length = r.head.length + r.body.length :=
  List.length_append

theorem head_length_pos (r : WireRequest phr) : 0 < r.head.length :=
  List.length_pos_iff.mpr r.headFits.1

end WireRequest

open WireRequest

/-- The complete request at the front of a buffer, with its minor version. -/
def requestAt (phr : PhrParse) (b : Bytes) : Option (ℕ × RestRequest) :=
  if b = [] then none
  else
    match phr (b.take hdrCap) 0 with
    | .ok len req =>
      let (f, reject) := headerLoop (headerStart req) req.headers
      if reject = none ∧ len + f.contentLength ≤ b.length then
        some (req.minor,
          { method := copyToken 16 req.method
            path := (splitQuery (copyToken 128 req.path)).1
            query := (splitQuery (copyToken 128 req.path)).2
            ifMatch := f.ifMatch
            body := (b.drop len).take f.contentLength })
      else none
    | _ => none

/-- A buffer that reaches past the first header block. -/
theorem eq_head_append {r : WireRequest phr} {rs : List (WireRequest phr)} {b u : Bytes}
    (h : b ++ u = wires (r :: rs)) (hlen : r.head.length ≤ b.length) :
    b = r.head ++ b.drop r.head.length := by
  have hpre : r.head <+: b := by
    refine List.prefix_of_prefix_length_le ?_ (List.prefix_append b u) hlen
    rw [h, wires_cons]
    exact List.prefix_append _ _
  obtain ⟨t, rfl⟩ := hpre
  simp

/-- A buffer that ends inside the first header block. -/
theorem prefix_of_short {r : WireRequest phr} {rs : List (WireRequest phr)} {b u : Bytes}
    (h : b ++ u = wires (r :: rs)) (hlen : b.length < r.head.length) :
    b <+: r.head ∧ b ≠ r.head := by
  refine ⟨List.prefix_of_prefix_length_le (h ▸ List.prefix_append b u) ?_ hlen.le, ?_⟩
  · rw [wires_cons]
    exact List.prefix_append _ _
  · rintro rfl
    omega

/-- The body of the first request, once it is all there. -/
theorem body_eq {r : WireRequest phr} {rs : List (WireRequest phr)} {b u : Bytes}
    (h : b ++ u = wires (r :: rs)) (hlen : r.bytes.length ≤ b.length) :
    (b.drop r.head.length).take r.body.length = r.body := by
  rw [length_bytes] at hlen
  have hpre : r.head ++ r.body <+: b := by
    refine List.prefix_of_prefix_length_le ?_ (List.prefix_append b u) (by simpa using hlen)
    rw [h, wires_cons, ← List.append_assoc]
    exact List.prefix_append _ _
  obtain ⟨t, rfl⟩ := hpre
  simp

/-- What the parser says about a buffer at the start of a request. -/
theorem phr_take {r : WireRequest phr} {rs : List (WireRequest phr)} {b u : Bytes} {last : ℕ}
    (h : b ++ u = wires (r :: rs)) (hne : b ≠ []) (hlast : last < r.head.length)
    (hle : last ≤ b.length) :
    phr (b.take hdrCap) last =
      if r.head.length ≤ b.length then .ok r.head.length r.parsed else .incomplete := by
  split
  · rename_i hlen
    have htake : b.take hdrCap = r.head ++ (b.drop r.head.length).take (hdrCap - r.head.length) := by
      conv_lhs => rw [eq_head_append h hlen]
      rw [List.take_append, List.take_of_length_le r.headFits.2]
    rw [htake]
    exact r.complete _ _ hlast
  · rename_i hlen
    have hshort : b.length < r.head.length := not_le.mp hlen
    obtain ⟨hpre, hneq⟩ := prefix_of_short h hshort
    have hfits := r.headFits.2
    rw [List.take_of_length_le (by omega)]
    exact r.prefixes b last hpre hneq hne hle

/-- Which complete request a buffer starts with. -/
theorem requestAt_wires {r : WireRequest phr} {rs : List (WireRequest phr)} {b u : Bytes}
    (h : b ++ u = wires (r :: rs)) :
    requestAt phr b = if r.bytes.length ≤ b.length then some (r.parsed.minor, r.alone) else none := by
  have hpos := r.head_length_pos
  have hbytes := r.length_bytes
  by_cases hne : b = []
  · subst hne
    rw [if_neg (by simp only [List.length_nil]; omega)]
    simp [requestAt]
  · rw [requestAt, if_neg hne, phr_take h hne hpos (Nat.zero_le _)]
    by_cases hlen : r.head.length ≤ b.length
    · simp only [if_pos hlen, r.accepted, r.bodyLength.1, true_and, ← hbytes]
      split
      · rename_i hall
        rw [body_eq h hall]
        rfl
      · rfl
    · rw [if_neg hlen, if_neg (by omega)]

/-- The reply to a request the client keeps the connection after fits `out`. -/
def ReplyFits {σ : Type*} (srv : Server σ) (s : σ) (minor : ℕ) (req : RestRequest) : Prop :=
  let (resp, reason, _) := answer srv s req
  (replyHead minor resp.status reason resp.body.length false resp.location resp.etag).length +
    resp.body.length < outCap

variable {σ : Type*} {srv : Server σ}

/-- The header fields of the connection are those of a request. -/
structure ParsedAs (r : WireRequest phr) (c : Conn σ) : Prop where
  headerLen : c.headerLen = r.head.length
  contentLength : c.contentLength = r.body.length
  method : c.method = copyToken 16 r.parsed.method
  path : c.path = (splitQuery (copyToken 128 r.parsed.path)).1
  query : c.query = (splitQuery (copyToken 128 r.parsed.path)).2
  ifMatch : c.ifMatch = r.fields.ifMatch
  reqClose : c.reqClose = false
  minor : c.minor = r.parsed.minor

/-- The connection waits for the rest of a header block. -/
structure Headers (rs : List (WireRequest phr)) (c : Conn σ) : Prop where
  state : c.state = .recvHeaders
  stream : c.inBuf ++ c.unread = wires rs
  short : c.inBuf.length < hdrCap
  last : ∀ r ∈ rs.head?, c.lastLen < r.head.length
  lastLe : c.lastLen ≤ c.inBuf.length
  ifMatch : c.ifMatch = CString.empty
  sent : c.sent = c.replies.flatten

/-- The connection waits for the rest of the body of `r`. -/
structure Body (r : WireRequest phr) (rs : List (WireRequest phr)) (c : Conn σ) : Prop where
  state : c.state = .recvBody
  parsed : ParsedAs r c
  stream : c.inBuf ++ c.unread = wires (r :: rs)
  headIn : r.head.length ≤ c.inBuf.length
  short : c.inBuf.length < r.bytes.length
  sent : c.sent = c.replies.flatten

/-- The connection sends the reply to `r`, whose bytes still head the buffer. -/
structure Sending (r : WireRequest phr) (rs : List (WireRequest phr)) (c : Conn σ) : Prop where
  state : c.state = .send
  stream : c.inBuf ++ c.unread = wires (r :: rs)
  used : c.headerLen + c.contentLength = r.bytes.length
  whole : r.bytes.length ≤ c.inBuf.length
  short : c.inBuf.length < r.bytes.length + hdrCap
  keep : c.closeAfter = false
  bound : c.outOff ≤ c.out.length
  sent : c.sent ++ c.out.drop c.outOff = c.replies.flatten

/-- How many requests were taken up and answered in order. -/
structure Progress (done : List (WireRequest phr)) (c : Conn σ) : Prop where
  inUse : c.inUse = true
  dispatched : c.dispatched = done.map alone
  replied : c.replies.length = c.dispatched.length

/-- The invariant of a connection that was sent `reqs`. -/
inductive Inv (reqs : List (WireRequest phr)) (c : Conn σ) : Prop
  | headers {done rs : List (WireRequest phr)} (hreqs : reqs = done ++ rs) (hprog : Progress done c)
      (hphase : Headers rs c)
      (hpoint : c.point = .reading true ∨
        (c.point = .waiting ∨ c.point = .reading false) ∧ requestAt phr c.inBuf = none)
  | body {done rs : List (WireRequest phr)} {r : WireRequest phr} (hreqs : reqs = done ++ r :: rs)
      (hprog : Progress done c) (hphase : Body r rs c)
      (hpoint : c.point = .waiting ∨ ∃ afterReset, c.point = .reading afterReset)
  | sending {done rs : List (WireRequest phr)} {r : WireRequest phr}
      (hreqs : reqs = done ++ r :: rs) (hprog : Progress (done ++ [r]) c) (hphase : Sending r rs c)
      (hpoint : c.point = .waiting ∨ c.point = .writing)

/-- A connection in front of `handle_request` holds the request alone. -/
theorem ParsedAs.request_eq {r : WireRequest phr} {rs : List (WireRequest phr)} {c : Conn σ}
    (hparsed : ParsedAs r c) (hstream : c.inBuf ++ c.unread = wires (r :: rs))
    (hwhole : r.bytes.length ≤ c.inBuf.length) : c.request = r.alone := by
  have hbody := body_eq hstream hwhole
  rw [length_bytes] at hwhole
  simp only [Conn.request, alone, hparsed.method, hparsed.path, hparsed.query, hparsed.ifMatch,
    hparsed.headerLen, hparsed.contentLength, hbody, RestRequest.mk.injEq, true_and]
  split
  · rfl
  · rename_i h
    have hzero : r.body.length = 0 := by omega
    exact (List.length_eq_zero_iff.mp hzero).symm

theorem replyHead_ne_nil (minor status : ℕ) (reason : String) (bodyLen : ℕ) (close : Bool)
    (location etag : CString) : replyHead minor status reason bodyLen close location etag ≠ [] := by
  simp [replyHead, ascii]

/-- `handle_request` on a request whose reply fits: the reply is queued and
nothing else moves. -/
theorem handleRequest_fits {done rs : List (WireRequest phr)} {r : WireRequest phr} {c : Conn σ}
    (hprog : Progress done c) (hparsed : ParsedAs r c)
    (hstream : c.inBuf ++ c.unread = wires (r :: rs)) (hwhole : r.bytes.length ≤ c.inBuf.length)
    (hshort : c.inBuf.length < r.bytes.length + hdrCap) (hsent : c.sent = c.replies.flatten)
    (hfits : ReplyFits srv c.server r.parsed.minor r.alone) :
    Progress (done ++ [r]) (handleRequest srv c) ∧ Sending r rs (handleRequest srv c) ∧
      (handleRequest srv c).outOff < (handleRequest srv c).out.length := by
  have hreq := hparsed.request_eq hstream hwhole
  have hminor : ¬r.parsed.minor < 1 := by have := r.keepAlive.2; omega
  have hused : c.headerLen + c.contentLength = r.bytes.length := by
    rw [hparsed.headerLen, hparsed.contentLength, length_bytes]
  simp only [ReplyFits] at hfits
  have hroom := not_le.mpr hfits
  simp only [handleRequest, hreq, httpReplyOrClose, httpReply, hparsed.reqClose, hparsed.minor,
    hminor, decide_false, Bool.or_false, if_neg hroom, Option.getD_some]
  refine ⟨⟨hprog.inUse, by simp [hprog.dispatched], by simp [hprog.replied]⟩,
    ⟨rfl, hstream, hused, hwhole, hshort, rfl, Nat.zero_le _, by simp [hsent]⟩, ?_⟩
  exact List.length_pos_iff.mpr (by simp [replyHead_ne_nil])

/-- `handle_request` on a request whose reply does not fit closes. -/
theorem handleRequest_overflow {rs : List (WireRequest phr)} {r : WireRequest phr} {c : Conn σ}
    (hparsed : ParsedAs r c) (hstream : c.inBuf ++ c.unread = wires (r :: rs))
    (hwhole : r.bytes.length ≤ c.inBuf.length)
    (hfits : ¬ReplyFits srv c.server r.parsed.minor r.alone) :
    (handleRequest srv c).state = .close ∧ (handleRequest srv c).inUse = false := by
  have hreq := hparsed.request_eq hstream hwhole
  have hminor : ¬r.parsed.minor < 1 := by have := r.keepAlive.2; omega
  simp only [ReplyFits] at hfits
  have hroom := not_lt.mp hfits
  simp only [handleRequest, hreq, httpReplyOrClose, httpReply, hparsed.reqClose, hparsed.minor,
    hminor, decide_false, Bool.or_false, if_pos hroom, Option.getD_none, connClose, and_self]

theorem Progress.goto {done : List (WireRequest phr)} {c : Conn σ} (h : Progress done c)
    (p : Point) : Progress done (c.goto p) :=
  ⟨h.inUse, h.dispatched, h.replied⟩

theorem Headers.goto {rs : List (WireRequest phr)} {c : Conn σ} (h : Headers rs c) (p : Point) :
    Headers rs (c.goto p) :=
  ⟨h.state, h.stream, h.short, h.last, h.lastLe, h.ifMatch, h.sent⟩

theorem ParsedAs.goto {r : WireRequest phr} {c : Conn σ} (h : ParsedAs r c) (p : Point) :
    ParsedAs r (c.goto p) :=
  ⟨h.headerLen, h.contentLength, h.method, h.path, h.query, h.ifMatch, h.reqClose, h.minor⟩

theorem ParsedAs.receive {r : WireRequest phr} {c : Conn σ} (h : ParsedAs r c) (b : Bytes) :
    ParsedAs r (c.receive b) :=
  ⟨h.headerLen, h.contentLength, h.method, h.path, h.query, h.ifMatch, h.reqClose, h.minor⟩

theorem Body.goto {r : WireRequest phr} {rs : List (WireRequest phr)} {c : Conn σ}
    (h : Body r rs c) (p : Point) : Body r rs (c.goto p) :=
  ⟨h.state, h.parsed.goto p, h.stream, h.headIn, h.short, h.sent⟩

theorem Sending.goto {r : WireRequest phr} {rs : List (WireRequest phr)} {c : Conn σ}
    (h : Sending r rs c) (p : Point) : Sending r rs (c.goto p) :=
  ⟨h.state, h.stream, h.used, h.whole, h.short, h.keep, h.bound, h.sent⟩

theorem Progress.receive {done : List (WireRequest phr)} {c : Conn σ} (h : Progress done c)
    (b : Bytes) : Progress done (c.receive b) :=
  ⟨h.inUse, h.dispatched, h.replied⟩

theorem Progress.seen {done : List (WireRequest phr)} {c : Conn σ} (h : Progress done c) :
    Progress done c.seen :=
  ⟨h.inUse, h.dispatched, h.replied⟩

theorem Sending.seen {r : WireRequest phr} {rs : List (WireRequest phr)} {c : Conn σ}
    (h : Sending r rs c) : Sending r rs c.seen :=
  ⟨h.state, h.stream, h.used, h.whole, h.short, h.keep, h.bound, h.sent⟩

/-- Bytes read move from one side of the stream to the other. -/
theorem stream_receive {c : Conn σ} {b w : Bytes} (hb : b <+: c.unread)
    (h : c.inBuf ++ c.unread = w) : (c.receive b).inBuf ++ (c.receive b).unread = w := by
  obtain ⟨u, hu⟩ := hb
  simp [Conn.receive, ← h, ← hu]

theorem length_receive (c : Conn σ) (b : Bytes) :
    (c.receive b).inBuf.length = c.inBuf.length + b.length :=
  List.length_append

/-- The connection with its header fields set from `r`. -/
def withParsed (r : WireRequest phr) (c : Conn σ) : Conn σ :=
  { c with
    headerLen := r.head.length, minor := r.parsed.minor, method := copyToken 16 r.parsed.method
    path := (splitQuery (copyToken 128 r.parsed.path)).1
    query := (splitQuery (copyToken 128 r.parsed.path)).2
    contentLength := r.fields.contentLength, reqClose := r.fields.reqClose
    ifMatch := r.fields.ifMatch }

/-- The connection once `parse_headers` waits for the body of `r`. -/
def withBody (r : WireRequest phr) (c : Conn σ) : Conn σ :=
  { withParsed r c with state := .recvBody }

theorem parsedAs_withParsed (r : WireRequest phr) (c : Conn σ) : ParsedAs r (withParsed r c) :=
  ⟨rfl, r.bodyLength.1, rfl, rfl, rfl, rfl, r.keepAlive.1, rfl⟩

theorem parsedAs_withBody_seen (r : WireRequest phr) (c : Conn σ) :
    ParsedAs r (withBody r c).seen :=
  ⟨rfl, r.bodyLength.1, rfl, rfl, rfl, rfl, r.keepAlive.1, rfl⟩

/-- `parse_headers` inside the first header block changes nothing. -/
theorem parseHeaders_short {r : WireRequest phr} {rs : List (WireRequest phr)} {c : Conn σ}
    (hstream : c.inBuf ++ c.unread = wires (r :: rs)) (hne : c.inBuf ≠ [])
    (hlast : c.lastLen < r.head.length) (hle : c.lastLen ≤ c.inBuf.length)
    (hlen : c.inBuf.length < r.head.length) : parseHeaders phr srv c = (c, false) := by
  have hfits := r.headFits.2
  rw [parseHeaders, phr_take hstream hne hlast hle, if_neg (not_le.mpr hlen)]
  simp only [if_neg (show ¬hdrCap ≤ c.inBuf.length by omega)]

/-- `parse_headers` past the first header block reads its fields. -/
theorem parseHeaders_whole {r : WireRequest phr} {rs : List (WireRequest phr)} {c : Conn σ}
    (hstream : c.inBuf ++ c.unread = wires (r :: rs)) (hlast : c.lastLen < r.head.length)
    (hle : c.lastLen ≤ c.inBuf.length) (hmatch : c.ifMatch = CString.empty)
    (hlen : r.head.length ≤ c.inBuf.length) :
    parseHeaders phr srv c =
      if r.body = [] then (handleRequest srv (withParsed r c), true) else (withBody r c, true) := by
  have hpos := r.head_length_pos
  have hne : c.inBuf ≠ [] := List.ne_nil_of_length_pos (by omega)
  have hloop := r.accepted
  rw [headerStart, ← hmatch] at hloop
  have hzero : r.fields.contentLength = 0 ↔ r.body = [] := by
    rw [r.bodyLength.1, List.length_eq_zero_iff]
  rw [parseHeaders, phr_take hstream hne hlast hle, if_pos hlen]
  simp only [hloop, hzero]
  rfl

/-- A complete first request ends `conn_do_recv` through `handle_request`. -/
theorem connDoRecv_bodyComplete {afterReset : Bool} {back : Conn σ → Conn σ} {c : Conn σ}
    (h : c.bodyComplete) : connDoRecv phr srv afterReset back c = back (handleRequest srv c) :=
  if_pos h

/-- With room left, `conn_do_recv` goes to its `read`. -/
theorem connDoRecv_reading {afterReset : Bool} {back : Conn σ → Conn σ} {c : Conn σ}
    (h : ¬c.bodyComplete ∧ c.room ≠ 0) :
    connDoRecv phr srv afterReset back c = c.goto (.reading afterReset) := by
  rw [connDoRecv, if_neg h.1, if_neg h.2]

theorem Headers.reads {rs : List (WireRequest phr)} {c : Conn σ} (h : Headers rs c) :
    ¬c.bodyComplete ∧ c.room ≠ 0 := by
  have hshort := h.short
  refine ⟨fun hb => hb.1 h.state, ?_⟩
  simp only [Conn.room, h.state, if_true]
  omega

theorem ParsedAs.need {r : WireRequest phr} {c : Conn σ} (h : ParsedAs r c) :
    c.headerLen + c.contentLength = r.bytes.length := by
  rw [h.headerLen, h.contentLength, length_bytes]

theorem Body.reads {r : WireRequest phr} {rs : List (WireRequest phr)} {c : Conn σ}
    (h : Body r rs c) : ¬c.bodyComplete ∧ c.room ≠ 0 := by
  have hshort := h.short
  have hlen := r.length_bytes
  have hhead := r.headFits.2
  have hbody := r.bodyLength.2
  have hneed := h.parsed.need
  refine ⟨fun hb => ?_, ?_⟩
  · have := hb.2
    omega
  · simp only [Conn.room, h.state, reduceCtorEq, if_false, inCap]
    omega

/-- Bytes arrive inside the first header block. -/
theorem Headers.receive {r : WireRequest phr} {rs : List (WireRequest phr)} {c : Conn σ}
    (h : Headers (r :: rs) c) {b : Bytes} (hb : b <+: c.unread)
    (hlen : c.inBuf.length + b.length < r.head.length) :
    Headers (r :: rs) (c.receive b).seen := by
  have hfits := r.headFits.2
  have hin := length_receive c b
  refine ⟨h.state, stream_receive hb h.stream, ?_, ?_, min_le_left _ _, h.ifMatch, h.sent⟩
  · change (c.receive b).inBuf.length < hdrCap
    omega
  · rintro r' hr'
    obtain rfl : r = r' := by simpa using hr'
    change min (c.receive b).inBuf.length hdrCap < r.head.length
    omega

/-- The header block is in, the body is not. -/
theorem Headers.toBody {r : WireRequest phr} {rs : List (WireRequest phr)} {c : Conn σ}
    (h : Headers (r :: rs) c) {b : Bytes} (hb : b <+: c.unread)
    (hhead : r.head.length ≤ c.inBuf.length + b.length)
    (hlen : c.inBuf.length + b.length < r.bytes.length) :
    Body r rs (withBody r (c.receive b)).seen := by
  have hin := length_receive c b
  refine ⟨rfl, parsedAs_withBody_seen r _, stream_receive hb h.stream, ?_, ?_, h.sent⟩
  · change r.head.length ≤ (c.receive b).inBuf.length
    omega
  · change (c.receive b).inBuf.length < r.bytes.length
    omega

/-- More of the body arrives. -/
theorem Body.receive {r : WireRequest phr} {rs : List (WireRequest phr)} {c : Conn σ}
    (h : Body r rs c) {b : Bytes} (hb : b <+: c.unread)
    (hlen : c.inBuf.length + b.length < r.bytes.length) : Body r rs (c.receive b) := by
  have hin := length_receive c b
  have hhead := h.headIn
  refine ⟨h.state, h.parsed.receive b, stream_receive hb h.stream, by omega, by omega, h.sent⟩

theorem afterRead_headers {c : Conn σ} (h : c.state = .recvHeaders) (afterReset : Bool) :
    afterRead phr srv afterReset c =
      if (parseHeaders phr srv c).1.seen.state = .send ∨
          (parseHeaders phr srv c).1.seen.state = .close then
        recvBack phr srv afterReset (parseHeaders phr srv c).1.seen
      else connDoRecv phr srv afterReset (recvBack phr srv afterReset)
        (parseHeaders phr srv c).1.seen :=
  if_pos h

/-- A connection in the middle of receiving `r`. -/
def Receiving (r : WireRequest phr) (rs : List (WireRequest phr)) (c : Conn σ) : Prop :=
  Headers (r :: rs) c ∨ Body r rs c

/-- What a `read` of so many bytes can leave in the buffer. -/
theorem Receiving.length_lt {r : WireRequest phr} {rs : List (WireRequest phr)} {c : Conn σ}
    (h : Receiving r rs c) {k : ℕ} (hk : k ≤ c.room) :
    c.inBuf.length + k < r.bytes.length + hdrCap := by
  have hlen := r.length_bytes
  have hpos := r.head_length_pos
  have hcap : 0 < hdrCap := by decide
  rcases h with h | h
  · have hshort := h.short
    simp only [Conn.room, h.state, if_true] at hk
    omega
  · have hshort := h.short
    have hneed := h.parsed.need
    simp only [Conn.room, h.state, reduceCtorEq, if_false] at hk
    omega

variable (srv) in
/-- Bytes arrive and the first request is still incomplete: back to `read`. -/
theorem afterRead_short {done rs : List (WireRequest phr)} {r : WireRequest phr} {c : Conn σ}
    {b : Bytes} (hprog : Progress done c) (hphase : Receiving r rs c) (hb : b <+: c.unread)
    (hne : b ≠ []) (hlen : c.inBuf.length + b.length < r.bytes.length) (afterReset : Bool) :
    ∃ c', afterRead phr srv afterReset (c.receive b) = c'.goto (.reading afterReset) ∧
      Progress done c' ∧ Receiving r rs c' ∧ requestAt phr c'.inBuf = none := by
  have hin := length_receive c b
  have hwait : requestAt phr (c.receive b).inBuf = none := by
    have hstream : c.inBuf ++ c.unread = wires (r :: rs) := hphase.elim (·.stream) (·.stream)
    rw [requestAt_wires (stream_receive hb hstream), if_neg (by omega)]
  rcases hphase with h | h
  · have hlast : c.lastLen < r.head.length := h.last r (by simp)
    have hle : (c.receive b).lastLen ≤ (c.receive b).inBuf.length := by
      have : c.lastLen ≤ c.inBuf.length := h.lastLe
      change c.lastLen ≤ _
      omega
    have hstream := stream_receive hb h.stream
    have hstate : (c.receive b).state = .recvHeaders := h.state
    rw [afterRead_headers hstate]
    rcases lt_or_ge (c.inBuf.length + b.length) r.head.length with hshort | hwhole
    · have hbuf : (c.receive b).inBuf ≠ [] := by simp [Conn.receive, hne]
      have hnext := h.receive hb hshort
      rw [parseHeaders_short hstream hbuf hlast hle (by omega)]
      refine ⟨(c.receive b).seen, ?_, (hprog.receive b).seen, Or.inl hnext, hwait⟩
      rw [if_neg (by rw [hnext.state]; decide)]
      exact connDoRecv_reading hnext.reads
    · have hbody : r.body ≠ [] := by
        intro h0
        rw [length_bytes, h0, List.length_nil] at hlen
        omega
      have hnext := h.toBody hb hwhole hlen
      rw [parseHeaders_whole hstream hlast hle h.ifMatch (by omega), if_neg hbody]
      refine ⟨(withBody r (c.receive b)).seen, ?_,
        ⟨hprog.inUse, hprog.dispatched, hprog.replied⟩, Or.inr hnext, hwait⟩
      rw [if_neg (by rw [hnext.state]; decide)]
      exact connDoRecv_reading hnext.reads
  · have hnext := h.receive hb hlen
    have hneed := hnext.parsed.need
    refine ⟨c.receive b, ?_, hprog.receive b, Or.inr hnext, hwait⟩
    rw [afterRead, if_neg (by rw [hnext.state]; decide), if_neg (by omega)]
    exact connDoRecv_reading hnext.reads

/-- What `handle_request` leaves when the reply fits, and when it does not. -/
structure Handled (srv : Server σ) (done rs : List (WireRequest phr)) (r : WireRequest phr)
    (s : σ) (c : Conn σ) : Prop where
  fits : ReplyFits srv s r.parsed.minor r.alone →
    Progress (done ++ [r]) c ∧ Sending r rs c ∧ c.outOff < c.out.length
  overflow : ¬ReplyFits srv s r.parsed.minor r.alone → c.state = .close ∧ c.inUse = false

theorem Handled.seen {done rs : List (WireRequest phr)} {r : WireRequest phr} {s : σ} {c : Conn σ}
    (h : Handled srv done rs r s c) : Handled srv done rs r s c.seen :=
  ⟨fun hf => ⟨(h.fits hf).1.seen, (h.fits hf).2.1.seen, (h.fits hf).2.2⟩, fun hf => h.overflow hf⟩

/-- `handle_request` ends a `conn_do_recv` either way. -/
theorem Handled.state {done rs : List (WireRequest phr)} {r : WireRequest phr} {s : σ} {c : Conn σ}
    (h : Handled srv done rs r s c) : c.state = .send ∨ c.state = .close := by
  by_cases hf : ReplyFits srv s r.parsed.minor r.alone
  · exact Or.inl (h.fits hf).2.1.state
  · exact Or.inr (h.overflow hf).1

variable (srv) in
/-- Bytes arrive and complete the first request: it is handled. -/
theorem afterRead_whole {done rs : List (WireRequest phr)} {r : WireRequest phr} {c : Conn σ}
    {b : Bytes} (hprog : Progress done c) (hphase : Receiving r rs c) (hb : b <+: c.unread)
    (hroom : b.length ≤ c.room) (hlen : r.bytes.length ≤ c.inBuf.length + b.length)
    (afterReset : Bool) :
    ∃ c', afterRead phr srv afterReset (c.receive b) = recvBack phr srv afterReset c' ∧
      Handled srv done rs r c.server c' := by
  have hin := length_receive c b
  have hshort := hphase.length_lt hroom
  have hhandled : ∀ d : Conn σ, Progress done d → ParsedAs r d →
      d.inBuf = (c.receive b).inBuf → d.unread = (c.receive b).unread → d.server = c.server →
      d.sent = d.replies.flatten → Handled srv done rs r c.server (handleRequest srv d) := by
    intro d hprog hparsed hbuf hunread hserver hsent
    have hstream : d.inBuf ++ d.unread = wires (r :: rs) := by
      rw [hbuf, hunread]
      exact stream_receive hb (hphase.elim (·.stream) (·.stream))
    rw [← hserver]
    exact ⟨handleRequest_fits hprog hparsed hstream (by rw [hbuf]; omega) (by rw [hbuf]; omega) hsent,
      handleRequest_overflow hparsed hstream (by rw [hbuf]; omega)⟩
  rcases hphase with h | h
  · have hlast : c.lastLen < r.head.length := h.last r (by simp)
    have hle : (c.receive b).lastLen ≤ (c.receive b).inBuf.length := by
      have : c.lastLen ≤ c.inBuf.length := h.lastLe
      change c.lastLen ≤ _
      omega
    have hwhole := r.length_bytes
    have hstate : (c.receive b).state = .recvHeaders := h.state
    rw [afterRead_headers hstate,
      parseHeaders_whole (stream_receive hb h.stream) hlast hle h.ifMatch (by omega)]
    by_cases hbody : r.body = []
    · have hdone := hhandled (withParsed r (c.receive b))
        ⟨hprog.inUse, hprog.dispatched, hprog.replied⟩ (parsedAs_withParsed r _) rfl rfl rfl h.sent
      rw [if_pos hbody, if_pos hdone.seen.state]
      exact ⟨_, rfl, hdone.seen⟩
    · have hparsed := parsedAs_withBody_seen r (c.receive b)
      have hdone := hhandled (withBody r (c.receive b)).seen
        ⟨hprog.inUse, hprog.dispatched, hprog.replied⟩ hparsed rfl rfl rfl h.sent
      have hcomplete : (withBody r (c.receive b)).seen.bodyComplete := by
        refine ⟨by change ConnState.recvBody ≠ _; decide, ?_⟩
        rw [hparsed.need]
        change _ ≤ (c.receive b).inBuf.length
        omega
      rw [if_neg hbody, if_neg (by change ¬(ConnState.recvBody = _ ∨ ConnState.recvBody = _); decide),
        connDoRecv_bodyComplete hcomplete]
      exact ⟨_, rfl, hdone⟩
  · have hparsed := h.parsed.receive b
    have hdone := hhandled (c.receive b) (hprog.receive b) hparsed rfl rfl rfl h.sent
    have hneed := hparsed.need
    have hstate : (c.receive b).state ≠ .recvHeaders := by
      change c.state ≠ _
      rw [h.state]
      decide
    rw [afterRead, if_neg hstate, if_pos (by omega)]
    exact ⟨_, rfl, hdone⟩

/-- An open connection goes back to waiting for the tick. -/
theorem settle_eq {c : Conn σ} (hstate : c.state ≠ .close) (hin : c.inUse = true) :
    settle c = c.goto .waiting := by
  simp [settle, hstate, hin]

/-- The reply written, the connection turns to what follows the request. -/
theorem connKeepAliveReset_inv {reqs done rs : List (WireRequest phr)} {r : WireRequest phr}
    {c : Conn σ} (hreqs : reqs = done ++ r :: rs) (hprog : Progress (done ++ [r]) c)
    (h : Sending r rs c) (hout : c.outOff = c.out.length) :
    Inv reqs (connKeepAliveReset phr srv c) := by
  have hwhole := h.whole
  have hshort := h.short
  have hreqs' : reqs = (done ++ [r]) ++ rs := by simp [hreqs]
  have hused : min (c.headerLen + c.contentLength) c.inBuf.length = r.bytes.length := by
    rw [h.used]
    omega
  have hstream : c.inBuf.drop r.bytes.length ++ c.unread = wires rs := by
    have hs := h.stream
    rw [wires_cons, ← List.append_assoc, ← bytes] at hs
    rw [← List.drop_append_of_le_length hwhole, hs]
    simp
  have hsent : c.sent = c.replies.flatten := by
    have hs := h.sent
    rwa [hout, List.drop_length, List.append_nil] at hs
  have hnext : Headers rs (connResetReq { c with inBuf := c.inBuf.drop r.bytes.length }) := by
    refine ⟨rfl, hstream, ?_, fun r' _ => r'.head_length_pos, Nat.zero_le _, rfl, hsent⟩
    simp only [connResetReq, List.length_drop]
    omega
  have hprog' : Progress (done ++ [r])
      (connResetReq { c with inBuf := c.inBuf.drop r.bytes.length }) :=
    ⟨hprog.inUse, hprog.dispatched, hprog.replied⟩
  simp only [connKeepAliveReset, hused]
  split
  · rw [connDoRecv_reading hnext.reads]
    exact .headers hreqs' (hprog'.goto _) (hnext.goto _) (Or.inl rfl)
  · rename_i hnil
    rw [settle_eq (by rw [hnext.state]; decide) hprog'.inUse]
    refine .headers hreqs' (hprog'.goto _) (hnext.goto _) (Or.inr ⟨Or.inl rfl, ?_⟩)
    exact if_pos (not_not.mp hnil)

/-- `conn_do_send` of a reply, whether some of it is left or not. -/
theorem connDoSend_inv {reqs done rs : List (WireRequest phr)} {r : WireRequest phr} {c : Conn σ}
    (hreqs : reqs = done ++ r :: rs) (hprog : Progress (done ++ [r]) c) (h : Sending r rs c) :
    Inv reqs (connDoSend phr srv c) := by
  have hbound := h.bound
  rw [connDoSend]
  split
  · exact .sending hreqs (hprog.goto _) (h.goto _) (Or.inr rfl)
  · rw [if_neg (by rw [h.keep]; decide)]
    exact connKeepAliveReset_inv hreqs hprog h (by omega)

/-- `conn_do_recv` returns from `handle_request` with a reply to send. -/
theorem recvBack_inv {reqs done rs : List (WireRequest phr)} {r : WireRequest phr} {c : Conn σ}
    (hreqs : reqs = done ++ r :: rs) (hprog : Progress (done ++ [r]) c) (h : Sending r rs c)
    (afterReset : Bool) : Inv reqs (recvBack phr srv afterReset c) := by
  cases afterReset with
  | true =>
    simp only [recvBack, if_true]
    rw [settle_eq (by rw [h.state]; decide) hprog.inUse]
    exact .sending hreqs (hprog.goto _) (h.goto _) (Or.inl rfl)
  | false =>
    simp only [recvBack, Bool.false_eq_true, if_false]
    rw [afterRecv, if_pos h.state]
    exact connDoSend_inv hreqs hprog h

/-- `conn_do_recv` returns without a reply: the connection waits. -/
theorem recvBack_waiting {c : Conn σ} (hstate : c.state = .recvHeaders ∨ c.state = .recvBody)
    (hin : c.inUse = true) (afterReset : Bool) :
    recvBack phr srv afterReset c = c.goto .waiting := by
  have hsend : c.state ≠ .send := by rcases hstate with h | h <;> rw [h] <;> decide
  have hclose : c.state ≠ .close := by rcases hstate with h | h <;> rw [h] <;> decide
  cases afterReset with
  | true => exact settle_eq hclose hin
  | false =>
    simp only [recvBack, Bool.false_eq_true, if_false]
    rw [afterRecv, if_neg hsend]
    exact settle_eq hclose hin

/-- The event leaves a complete request in the buffer waiting: the `read`
after the keep-alive reset delivers nothing. -/
def Stalls (phr : PhrParse) (c : Conn σ) (e : Event) : Prop :=
  c.point = .reading true ∧ (requestAt phr c.inBuf).isSome ∧ ∃ n, e = .ready n ∧ c.delivered e = []

/-- The event completes a request whose reply does not fit `out`. -/
def Overflows (phr : PhrParse) (srv : Server σ) (c : Conn σ) (e : Event) : Prop :=
  ∃ afterReset n req, c.point = .reading afterReset ∧ e = .ready n ∧ c.delivered e ≠ [] ∧
    requestAt phr (c.inBuf ++ c.delivered e) = some req ∧ ¬ReplyFits srv c.server req.1 req.2

theorem delivered_prefix (c : Conn σ) (n : ℕ) : c.delivered (.ready n) <+: c.unread :=
  List.take_prefix _ _

theorem length_delivered_le (c : Conn σ) (n : ℕ) : (c.delivered (.ready n)).length ≤ c.room := by
  simp only [Conn.delivered, List.length_take]
  omega

/-- A `read` that delivers bytes in the middle of receiving `r`. -/
theorem step_read {reqs done rs : List (WireRequest phr)} {r : WireRequest phr} {c : Conn σ}
    {n : ℕ} {afterReset : Bool} (hreqs : reqs = done ++ r :: rs) (hprog : Progress done c)
    (h : Receiving r rs c) (hpoint : c.point = .reading afterReset)
    (hne : c.delivered (.ready n) ≠ []) (hok : ¬Overflows phr srv c (.ready n)) :
    Inv reqs (step phr srv c (.ready n)) := by
  have hpre := delivered_prefix c n
  have hroom := length_delivered_le c n
  have hstep : step phr srv c (.ready n) =
      afterRead phr srv afterReset (c.receive (c.delivered (.ready n))) := by
    simp only [step, hpoint, if_neg hne]
  rw [hstep]
  rcases lt_or_ge (c.inBuf.length + (c.delivered (.ready n)).length) r.bytes.length with hlen | hlen
  · obtain ⟨c', heq, hprog', hphase, hwait⟩ :=
      afterRead_short srv hprog h hpre hne hlen afterReset
    rw [heq]
    rcases hphase with hh | hb
    · refine .headers hreqs (hprog'.goto _) (hh.goto _) ?_
      cases afterReset with
      | true => exact Or.inl rfl
      | false => exact Or.inr ⟨Or.inr rfl, hwait⟩
    · exact .body hreqs (hprog'.goto _) (hb.goto _) (Or.inr ⟨afterReset, rfl⟩)
  · obtain ⟨c', heq, hdone⟩ := afterRead_whole srv hprog h hpre hroom hlen afterReset
    have hstream := stream_receive hpre (h.elim (·.stream) (·.stream))
    have harrived : requestAt phr (c.inBuf ++ c.delivered (.ready n)) =
        some (r.parsed.minor, r.alone) := by
      have hat := requestAt_wires hstream
      rwa [if_pos (by rw [length_receive]; exact hlen)] at hat
    have hfits : ReplyFits srv c.server r.parsed.minor r.alone := by
      by_contra hf
      exact hok ⟨afterReset, n, _, hpoint, rfl, hne, harrived, hf⟩
    obtain ⟨hprog', hsend, -⟩ := hdone.fits hfits
    rw [heq]
    exact recvBack_inv hreqs hprog' hsend afterReset

/-- Every healthy event that neither stalls nor overflows keeps the
invariant. -/
theorem step_inv {reqs : List (WireRequest phr)} {c : Conn σ} (h : Inv reqs c) {e : Event}
    (he : e.healthy = true) (hstall : ¬Stalls phr c e) (hover : ¬Overflows phr srv c e) :
    Inv reqs (step phr srv c e) := by
  cases h with
  | @headers done rs hreqs hprog hphase hpoint =>
    cases e with
    | readClosed => cases he
    | writeFailed => cases he
    | took n =>
      have hidle : step phr srv c (.took n) = c := by
        rcases hpoint with hp | ⟨hp | hp, -⟩ <;> simp only [step, hp]
      rw [hidle]
      exact .headers hreqs hprog hphase hpoint
    | tick idle =>
      obtain rfl : idle = false := by simpa [Event.healthy] using he
      rcases hpoint with hp | ⟨hp | hp, hwait⟩
      · have hidle : step phr srv c (.tick false) = c := by simp only [step, hp]
        rw [hidle]
        exact .headers hreqs hprog hphase (Or.inl hp)
      · have hgo : step phr srv c (.tick false) = c.goto (.reading false) := by
          simp only [step, hp, hphase.state, true_or, if_true]
          exact connDoRecv_reading hphase.reads
        rw [hgo]
        exact .headers hreqs (hprog.goto _) (hphase.goto _) (Or.inr ⟨Or.inr rfl, hwait⟩)
      · have hidle : step phr srv c (.tick false) = c := by simp only [step, hp]
        rw [hidle]
        exact .headers hreqs hprog hphase (Or.inr ⟨Or.inr hp, hwait⟩)
    | ready n =>
      have hread : ∀ afterReset, c.point = .reading afterReset →
          Inv reqs (step phr srv c (.ready n)) := by
        intro afterReset hp
        by_cases hne : c.delivered (.ready n) = []
        · have hwait : requestAt phr c.inBuf = none := by
            rcases hpoint with hp' | ⟨-, hwait⟩
            · by_contra hsome
              exact hstall ⟨hp', Option.isSome_iff_ne_none.mpr hsome, n, rfl, hne⟩
            · exact hwait
          have hstep : step phr srv c (.ready n) = c.goto .waiting := by
            simp only [step, hp, if_pos hne]
            exact recvBack_waiting (Or.inl hphase.state) hprog.inUse afterReset
          rw [hstep]
          exact .headers hreqs (hprog.goto _) (hphase.goto _) (Or.inr ⟨Or.inl rfl, hwait⟩)
        · cases rs with
          | nil =>
            have hnil : c.unread = [] := (List.append_eq_nil_iff.mp hphase.stream).2
            exact absurd (by simp [Conn.delivered, hnil]) hne
          | cons r rs => exact step_read hreqs hprog (Or.inl hphase) hp hne hover
      rcases hpoint with hp | ⟨hp | hp, hwait⟩
      · exact hread true hp
      · have hidle : step phr srv c (.ready n) = c := by simp only [step, hp]
        rw [hidle]
        exact .headers hreqs hprog hphase (Or.inr ⟨Or.inl hp, hwait⟩)
      · exact hread false hp
  | @body done rs r hreqs hprog hphase hpoint =>
    cases e with
    | readClosed => cases he
    | writeFailed => cases he
    | took n =>
      have hidle : step phr srv c (.took n) = c := by
        rcases hpoint with hp | ⟨afterReset, hp⟩ <;> simp only [step, hp]
      rw [hidle]
      exact .body hreqs hprog hphase hpoint
    | tick idle =>
      obtain rfl : idle = false := by simpa [Event.healthy] using he
      rcases hpoint with hp | ⟨afterReset, hp⟩
      · have hgo : step phr srv c (.tick false) = c.goto (.reading false) := by
          simp only [step, hp, hphase.state, or_true, if_true]
          exact connDoRecv_reading hphase.reads
        rw [hgo]
        exact .body hreqs (hprog.goto _) (hphase.goto _) (Or.inr ⟨false, rfl⟩)
      · have hidle : step phr srv c (.tick false) = c := by simp only [step, hp]
        rw [hidle]
        exact .body hreqs hprog hphase (Or.inr ⟨afterReset, hp⟩)
    | ready n =>
      rcases hpoint with hp | ⟨afterReset, hp⟩
      · have hidle : step phr srv c (.ready n) = c := by simp only [step, hp]
        rw [hidle]
        exact .body hreqs hprog hphase (Or.inl hp)
      · by_cases hne : c.delivered (.ready n) = []
        · have hstep : step phr srv c (.ready n) = c.goto .waiting := by
            simp only [step, hp, if_pos hne]
            exact recvBack_waiting (Or.inr hphase.state) hprog.inUse afterReset
          rw [hstep]
          exact .body hreqs (hprog.goto _) (hphase.goto _) (Or.inl rfl)
        · exact step_read hreqs hprog (Or.inr hphase) hp hne hover
  | @sending done rs r hreqs hprog hphase hpoint =>
    cases e with
    | readClosed => cases he
    | writeFailed => cases he
    | ready n =>
      have hidle : step phr srv c (.ready n) = c := by
        rcases hpoint with hp | hp <;> simp only [step, hp]
      rw [hidle]
      exact .sending hreqs hprog hphase hpoint
    | tick idle =>
      obtain rfl : idle = false := by simpa [Event.healthy] using he
      rcases hpoint with hp | hp
      · have hgo : step phr srv c (.tick false) = connDoSend phr srv c := by
          simp only [step, hp, hphase.state, reduceCtorEq, or_self, if_false]
          rw [afterRecv, if_pos hphase.state]
        rw [hgo]
        exact connDoSend_inv hreqs hprog hphase
      · have hidle : step phr srv c (.tick false) = c := by simp only [step, hp]
        rw [hidle]
        exact .sending hreqs hprog hphase (Or.inr hp)
    | took n =>
      rcases hpoint with hp | hp
      · have hidle : step phr srv c (.took n) = c := by simp only [step, hp]
        rw [hidle]
        exact .sending hreqs hprog hphase (Or.inl hp)
      · simp only [step, hp]
        split
        · rw [settle_eq (by rw [hphase.state]; decide) hprog.inUse]
          exact .sending hreqs (hprog.goto _) (hphase.goto _) (Or.inl rfl)
        · refine connDoSend_inv hreqs ⟨hprog.inUse, hprog.dispatched, hprog.replied⟩
            ⟨hphase.state, hphase.stream, hphase.used, hphase.whole, hphase.short, hphase.keep,
              ?_, ?_⟩
          · have hbound := hphase.bound
            simp only [List.length_take, List.length_drop]
            omega
          · rw [← hphase.sent, List.append_assoc, ← List.drop_drop,
              List.prefix_iff_eq_append.mp (List.take_prefix _ _)]

/-- What a client may expect of a connection in any state: it is open,
requests are dispatched in order and once each, and it only waits for the
socket when the buffer holds no complete request and every reply is out. -/
structure Served (reqs : List (WireRequest phr)) (c : Conn σ) : Prop where
  isOpen : c.inUse = true
  inOrder : c.dispatched <+: reqs.map alone
  noneWaiting : c.awaitsData → requestAt phr c.inBuf = none
  answered : c.awaitsData → c.sent = c.replies.flatten ∧ c.replies.length = c.dispatched.length
  all : c.awaitsData → c.unread = [] → c.dispatched = reqs.map alone

theorem Inv.served {reqs : List (WireRequest phr)} {c : Conn σ} (h : Inv reqs c) :
    Served reqs c := by
  cases h with
  | @headers done rs hreqs hprog hphase hpoint =>
    have hwait : c.awaitsData → requestAt phr c.inBuf = none := by
      intro ha
      rcases hpoint with hp | ⟨-, hwait⟩
      · exact absurd (ha.1.symm.trans hp) (by simp)
      · exact hwait
    refine ⟨hprog.inUse, ?_, hwait, fun _ => ⟨hphase.sent, hprog.replied⟩, fun ha hu => ?_⟩
    · rw [hprog.dispatched, hreqs, List.map_append]
      exact List.prefix_append _ _
    · cases rs with
      | nil => rw [hprog.dispatched, hreqs, List.append_nil]
      | cons r rs =>
        have hnone := hwait ha
        have hstream := hphase.stream
        have hlen : r.bytes.length ≤ c.inBuf.length := by
          rw [hu, List.append_nil] at hstream
          rw [hstream, wires_cons, length_bytes]
          simp
        rw [requestAt_wires hstream, if_pos hlen] at hnone
        cases hnone
  | @body done rs r hreqs hprog hphase hpoint =>
    have hshort := hphase.short
    have hstream := hphase.stream
    refine ⟨hprog.inUse, ?_, fun _ => ?_, fun _ => ⟨hphase.sent, hprog.replied⟩, fun _ hu => ?_⟩
    · rw [hprog.dispatched, hreqs, List.map_append]
      exact List.prefix_append _ _
    · rw [requestAt_wires hstream, if_neg (by omega)]
    · rw [hu, List.append_nil] at hstream
      rw [hstream, wires_cons, length_bytes] at hshort
      simp at hshort
  | @sending done rs r hreqs hprog hphase hpoint =>
    have hnot : ¬c.awaitsData := by
      rintro ⟨-, hstate, -⟩
      rw [hphase.state] at hstate
      simp at hstate
    refine ⟨hprog.inUse, ?_, fun ha => absurd ha hnot, fun ha => absurd ha hnot,
      fun ha => absurd ha hnot⟩
    have hpre : done ++ [r] <+: reqs := ⟨rs, by simp [hreqs]⟩
    rw [hprog.dispatched]
    exact hpre.map _

/-- A connection whose event stalls waits with the request in its buffer. -/
theorem not_served_of_stalls {reqs : List (WireRequest phr)} {c : Conn σ} (h : Inv reqs c)
    {e : Event} (hstall : Stalls phr c e) : ¬Served reqs (step phr srv c e) := by
  obtain ⟨hp, hsome, n, rfl, hnone⟩ := hstall
  intro hserved
  have hgo : ∀ hstate : c.state = .recvHeaders ∨ c.state = .recvBody, c.inUse = true →
      step phr srv c (.ready n) = c.goto .waiting := by
    intro hstate hin
    simp only [step, hp, if_pos hnone]
    exact recvBack_waiting hstate hin true
  cases h with
  | headers hreqs hprog hphase hpoint =>
    rw [hgo (Or.inl hphase.state) hprog.inUse] at hserved
    have hwait := hserved.noneWaiting
      ⟨rfl, Or.inl hphase.state, (hphase.goto _).reads.1, (hphase.goto _).reads.2⟩
    exact absurd hwait (Option.isSome_iff_ne_none.mp hsome)
  | body hreqs hprog hphase hpoint =>
    rw [hgo (Or.inr hphase.state) hprog.inUse] at hserved
    have hwait := hserved.noneWaiting
      ⟨rfl, Or.inr hphase.state, (hphase.goto _).reads.1, (hphase.goto _).reads.2⟩
    exact absurd hwait (Option.isSome_iff_ne_none.mp hsome)
  | sending hreqs hprog hphase hpoint =>
    rcases hpoint with hp' | hp' <;> rw [hp'] at hp <;> cases hp

/-- A connection whose event overflows is closed. -/
theorem not_served_of_overflows {reqs : List (WireRequest phr)} {c : Conn σ} (h : Inv reqs c)
    {e : Event} (hover : Overflows phr srv c e) : ¬Served reqs (step phr srv c e) := by
  obtain ⟨afterReset, n, req, hp, rfl, hne, hsome, hfits⟩ := hover
  have hpre := delivered_prefix c n
  have hroom := length_delivered_le c n
  have hclosed : ∀ (done rs : List (WireRequest phr)) (r : WireRequest phr), Progress done c →
      Receiving r rs c → (step phr srv c (.ready n)).inUse = false := by
    intro done rs r hprog hphase
    have hstream := stream_receive hpre (hphase.elim (·.stream) (·.stream))
    have hat := requestAt_wires hstream
    have hbuf : (c.receive (c.delivered (.ready n))).inBuf = c.inBuf ++ c.delivered (.ready n) := rfl
    rw [hbuf, hsome] at hat
    split at hat
    · rename_i hlen
      obtain rfl : req = (r.parsed.minor, r.alone) := Option.some.inj hat
      rw [List.length_append] at hlen
      obtain ⟨c', heq, hdone⟩ := afterRead_whole srv hprog hphase hpre hroom hlen afterReset
      obtain ⟨hstate, hin⟩ := hdone.overflow hfits
      have hstep : step phr srv c (.ready n) = recvBack phr srv afterReset c' := by
        simp only [step, hp, if_neg hne]
        exact heq
      rw [hstep]
      cases afterReset with
      | true => exact hin
      | false =>
        simp only [recvBack, Bool.false_eq_true, if_false]
        rw [afterRecv, if_neg (by rw [hstate]; decide)]
        exact hin
    · cases hat
  intro hserved
  have hopen := hserved.isOpen
  cases h with
  | @headers done rs hreqs hprog hphase hpoint =>
    cases rs with
    | nil =>
      have hnil : c.unread = [] := (List.append_eq_nil_iff.mp hphase.stream).2
      exact hne (by simp [Conn.delivered, hnil])
    | cons r rs => simp [hclosed done rs r hprog (Or.inl hphase)] at hopen
  | @body done rs r hreqs hprog hphase hpoint =>
    simp [hclosed done rs r hprog (Or.inr hphase)] at hopen
  | sending hreqs hprog hphase hpoint =>
    rcases hpoint with hp' | hp' <;> rw [hp'] at hp <;> cases hp

/-- A connection just accepted satisfies the invariant. -/
theorem accepted_inv (reqs : List (WireRequest phr)) (server : σ) :
    Inv reqs (accepted server (wires reqs)) :=
  .headers (List.nil_append reqs).symm ⟨rfl, rfl, rfl⟩
    ⟨rfl, rfl, by simp [accepted, hdrCap], fun r _ => r.head_length_pos, le_rfl, rfl, rfl⟩
    (Or.inr ⟨Or.inl rfl, if_pos rfl⟩)

/-- In every run of healthy events, a connection serves its client in every
state exactly when no `read` after a keep-alive reset comes back empty while
a complete request is in the buffer, and every reply fits `out`. -/
theorem served_iff (phr : PhrParse) (srv : Server σ) (server : σ) (reqs : List (WireRequest phr))
    (events : List Event) (hhealthy : ∀ e ∈ events, e.healthy = true) :
    Runs.Always (step phr srv) (Served reqs) (accepted server (wires reqs)) events ↔
      Runs.Along (step phr srv) (fun c e => ¬Stalls phr c e ∧ ¬Overflows phr srv c e)
        (accepted server (wires reqs)) events := by
  have hstep : ∀ c e, Inv reqs c → e.healthy = true → ¬Stalls phr c e ∧ ¬Overflows phr srv c e →
      Inv reqs (step phr srv c e) := fun c e hinv he hok => step_inv hinv he hok.1 hok.2
  have hiff : ∀ c e, Inv reqs c → e.healthy = true →
      (Served reqs (step phr srv c e) ↔ ¬Stalls phr c e ∧ ¬Overflows phr srv c e) :=
    fun c e hinv he =>
      ⟨fun hs => ⟨fun h => not_served_of_stalls hinv h hs, fun h => not_served_of_overflows hinv h hs⟩,
        fun hok => (hstep c e hinv he hok).served⟩
  exact Runs.along_congr hstep hiff (accepted_inv reqs server) hhealthy

section Example

/-- A request line and its empty line. -/
def helloHead : Bytes := ascii "GET /a HTTP/1.1\r\n\r\n"

/-- What the parser reports about it. -/
def helloParsed : PhrRequest := ⟨ascii "GET", ascii "/a", 1, []⟩

/-- The parser on buffers of that request. -/
def helloPhr : PhrParse := fun b _ =>
  if helloHead.isPrefixOf b then .ok helloHead.length helloParsed
  else if b.isPrefixOf helloHead then .incomplete else .malformed

/-- The request on the wire. -/
def hello : WireRequest helloPhr where
  head := helloHead
  body := []
  parsed := helloParsed
  fields := ⟨0, false, CString.empty⟩
  complete := fun rest last _ => by
    have h : helloHead.isPrefixOf (helloHead ++ rest) = true :=
      List.isPrefixOf_iff_prefix.mpr (List.prefix_append _ _)
    simp [helloPhr, h]
  prefixes := fun b last hpre hne _ _ => by
    have h : helloHead.isPrefixOf b = false := by
      rw [Bool.eq_false_iff, ne_eq, List.isPrefixOf_iff_prefix]
      exact fun h => hne (List.IsPrefix.eq_of_length_le hpre h.length_le)
    simp [helloPhr, h, List.isPrefixOf_iff_prefix.mpr hpre]
  headFits := by decide
  accepted := by decide
  bodyLength := by decide
  keepAlive := by decide

/-- A server that answers everything with an empty object. -/
def helloServer : Server Unit :=
  ⟨fun s _ => (some ⟨200, CString.lit "\x7b\x7d", CString.empty, CString.empty⟩, s),
    fun _ => CBuf.zero 160⟩

/-- Both requests arrive in one `read`, the reply goes out in one `write`. -/
def helloEvents : List Event := [.tick false, .ready 100, .took 1000, .ready 0]

/-- Two requests in one `read`: after the first reply the `read` comes back
empty, and the second request is left waiting in the buffer. -/
theorem pipelined_request_left_waiting :
    (∀ e ∈ helloEvents, e.healthy = true) ∧
      ¬Runs.Always (step helloPhr helloServer) (Served [hello, hello])
        (accepted () (wires [hello, hello])) helloEvents := by
  refine ⟨by decide, fun hrun => ?_⟩
  have hwait := hrun.2.2.2.1.noneWaiting (by decide +kernel)
  exact absurd hwait (by decide +kernel)

/-- The two requests in two reads are both served. -/
theorem served_iff_hello :
    Runs.Always (step helloPhr helloServer) (Served [hello, hello])
        (accepted () (wires [hello, hello])) [.tick false, .ready 20, .took 1000] ↔
      Runs.Along (step helloPhr helloServer)
        (fun c e => ¬Stalls helloPhr c e ∧ ¬Overflows helloPhr helloServer c e)
        (accepted () (wires [hello, hello])) [.tick false, .ready 20, .took 1000] :=
  served_iff helloPhr helloServer () [hello, hello] _ (by decide)

end Example

end MoonFlare.Http
