import MoonFlare.HttpFraming
import MoonFlare.HttpPipelining

/-!
# Bodies on a connection

What the header loop makes of the fields decides where on the stream the next request
starts. A connection is followed from its first byte on: as long as every header block is
read as it is written, what is left of the stream starts behind whole requests, and each
request handed on has the body that its fields declare.
-/

namespace MoonFlare.Http

open Runs

variable {σ : Type*} {phr : PhrParse} {srv : Server σ}

/-! ## What is promised -/

/-- What is relied on of `phr_parse_request`: it returns how many of the bytes are the
header block, and the minor version is one digit. -/
structure PhrSound (phr : PhrParse) : Prop where
  length : ∀ b last len req, phr b last = .ok len req → 0 < len ∧ len ≤ b.length
  minor : ∀ b last len req, phr b last = .ok len req → req.minor ≤ 9

/-- A header block stands at the front of some bytes. -/
def HeaderAt (phr : PhrParse) (b : Bytes) (len : ℕ) (req : PhrRequest) : Prop :=
  ∃ k last, phr (b.take k) last = .ok len req

/-- Some bytes of a stream are left behind whole requests. -/
inductive Framed (phr : PhrParse) (stream : Bytes) : Bytes → Prop
  | start : Framed phr stream stream
  | next {rest : Bytes} {len : ℕ} {req : PhrRequest} {n : ℕ} (hrest : Framed phr stream rest)
      (hhead : HeaderAt phr rest len req) (hframing : Framing req.headers n)
      (hwhole : len + n ≤ rest.length) : Framed phr stream (rest.drop (len + n))

/-- The bytes that the client sends from the current request on. -/
def Conn.ahead (c : Conn σ) : Bytes := c.inBuf ++ c.unread

/-- What a request handed on is promised. -/
def BodyPromised (phr : PhrParse) (d : Conn σ) (r : RestRequest) : Prop :=
  ∃ len req n, HeaderAt phr d.ahead len req ∧ Framing req.headers n ∧ len + n ≤ d.ahead.length ∧
    r.body = (d.ahead.drop len).take n

/-- A step answers with an error, hands no request on and closes the connection. -/
def Refused (minor status : ℕ) (c c' : Conn σ) : Prop :=
  c'.dispatched = c.dispatched ∧ c'.closeAfter = true ∧ ∃ (reason : String) (body : CString),
    c'.replies = c.replies ++
      [replyHead minor status reason body.length true CString.empty CString.empty ++ body.bytes]

/-- What a step does with a header block that parses. -/
structure Answered (len : ℕ) (req : PhrRequest) (c c' : Conn σ) : Prop where
  taken : ∀ n, Framing req.headers n → c'.headerLen = len ∧ c'.contentLength = n ∧
    (c'.dispatched = c.dispatched → c'.replies = c.replies)
  tooLong : ¬Ambiguous req.headers → TooLong req.headers → Refused req.minor 413 c c'
  refused : Ambiguous req.headers →
    Refused req.minor 400 c c' ∨ TooLong req.headers ∧ Refused req.minor 413 c c'

/-- The event delivers bytes that complete a header block. -/
def ParsesIn (phr : PhrParse) (c : Conn σ) (e : Event) (len : ℕ) (req : PhrRequest) : Prop :=
  ∃ afterReset n, c.point = .reading afterReset ∧ e = .ready n ∧ c.state = .recvHeaders ∧
    c.delivered e ≠ [] ∧ phr ((c.inBuf ++ c.delivered e).take hdrCap) c.lastLen = .ok len req

/-- What is promised of a step, given the stream that the client sends. -/
structure FramedExactly (phr : PhrParse) (srv : Server σ) (stream : Bytes) (c : Conn σ)
    (e : Event) : Prop where
  answered : ∀ len req, ParsesIn phr c e len req → Answered len req c (step phr srv c e)
  /-- A request handed on has the body that its fields declare. -/
  bodies : ∀ r, (step phr srv c e).dispatched = c.dispatched ++ [r] →
    BodyPromised phr c r
  /-- The next request starts behind whole requests. -/
  position : (step phr srv c e).inUse = true → Framed phr stream (step phr srv c e).ahead

/-- The condition. -/
def ReadsAsWritten (phr : PhrParse) (c : Conn σ) (e : Event) : Prop :=
  ∀ len req, ParsesIn phr c e len req → ReadAsWritten req.headers

/-! ## The invariant -/

/-- The request in front is known, and its header block is in the buffer. -/
structure Current (phr : PhrParse) (c : Conn σ) : Prop where
  header : ∃ req, HeaderAt phr c.ahead c.headerLen req ∧ Framing req.headers c.contentLength
  nonempty : 0 < c.headerLen
  inside : c.headerLen ≤ c.inBuf.length
  small : c.headerLen ≤ hdrCap

/-- Where an open connection stands. -/
inductive Phase (phr : PhrParse) (c : Conn σ) : Prop
  | headers (hstate : c.state = .recvHeaders) (hshort : c.inBuf.length < hdrCap)
      (hpoint : c.point = .waiting ∨ ∃ afterReset, c.point = .reading afterReset)
  | body (hstate : c.state = .recvBody) (hcurrent : Current phr c)
      (hshort : c.inBuf.length < c.headerLen + c.contentLength)
      (hpoint : c.point = .waiting ∨ ∃ afterReset, c.point = .reading afterReset)
  | replying (hstate : c.state = .send) (hcurrent : Current phr c)
      (hwhole : c.headerLen + c.contentLength ≤ c.inBuf.length)
      (hroom : c.inBuf.length ≤ max hdrCap (c.headerLen + c.contentLength))
      (hpoint : c.point = .waiting ∨ c.point = .writing)
  | ending (hstate : c.state = .send) (hclose : c.closeAfter = true)
      (hpoint : c.point = .waiting ∨ c.point = .writing)

/-- What holds of a connection whose header blocks were read as written. -/
structure FramingInv (phr : PhrParse) (stream : Bytes) (c : Conn σ) : Prop where
  position : c.inUse = true → Framed phr stream c.ahead
  closed : c.inUse = false → c.point = .done
  phase : c.inUse = true → Phase phr c

variable {stream : Bytes} {c d y : Conn σ}

/-! ## Replies -/

/-- A connection that has a reply to send, or is closed because the reply does not fit. -/
structure Replied (d y : Conn σ) : Prop where
  headerLen : y.headerLen = d.headerLen
  contentLength : y.contentLength = d.contentLength
  dispatched : y.dispatched = d.dispatched
  outcome : (y.state = .send ∧ y.inUse = d.inUse ∧ y.inBuf = d.inBuf ∧ y.unread = d.unread ∧
    y.outOff < y.out.length) ∨ (y.state = .close ∧ y.inUse = false)

theorem Replied.seen (h : Replied d y) : Replied d y.seen :=
  ⟨h.headerLen, h.contentLength, h.dispatched, h.outcome⟩

theorem httpReplyOrClose_replied (d : Conn σ) (status : ℕ) (reason : String) (body : CString)
    (force : Bool) (location etag : CString) :
    Replied d (httpReplyOrClose d status reason body force location etag) := by
  unfold httpReplyOrClose httpReply
  dsimp only
  split
  · exact ⟨rfl, rfl, rfl, Or.inr ⟨rfl, rfl⟩⟩
  · refine ⟨rfl, rfl, rfl, Or.inl ⟨rfl, rfl, rfl, rfl, ?_⟩⟩
    exact List.length_pos_iff.mpr (by simp [replyHead_ne_nil])

/-- A refusal closes, or is not sent. -/
theorem httpReplyOrClose_forced (d : Conn σ) (status : ℕ) (reason : String) (body : CString) :
    (httpReplyOrClose d status reason body true CString.empty CString.empty).closeAfter = true ∨
      (httpReplyOrClose d status reason body true CString.empty CString.empty).state = .close := by
  unfold httpReplyOrClose httpReply
  dsimp only
  split
  · exact Or.inr rfl
  · exact Or.inl rfl

/-- `conn_do_recv` returns with a reply to send. -/
theorem recvBack_send (hstate : y.state = .send) (hin : y.inUse = true)
    (hout : y.outOff < y.out.length) (afterReset : Bool) :
    ∃ p, recvBack phr srv afterReset y = y.goto p ∧ (p = .waiting ∨ p = .writing) := by
  cases afterReset with
  | true =>
    refine ⟨.waiting, ?_, Or.inl rfl⟩
    simp only [recvBack, if_true]
    exact settle_eq (by rw [hstate]; decide) hin
  | false =>
    refine ⟨.writing, ?_, Or.inr rfl⟩
    simp only [recvBack, Bool.false_eq_true, if_false]
    rw [afterRecv, if_pos hstate, connDoSend, if_pos hout]

/-- `conn_do_recv` returns from a connection that was closed. -/
theorem recvBack_closed (hstate : y.state = .close) (afterReset : Bool) :
    recvBack phr srv afterReset y = y.goto .done := by
  have hsettle : settle y = y.goto .done := by rw [settle, if_pos (Or.inl hstate)]
  cases afterReset with
  | true => exact hsettle
  | false =>
    simp only [recvBack, Bool.false_eq_true, if_false]
    rw [afterRecv, if_neg (by rw [hstate]; decide), hsettle]

/-- A connection that is closed keeps the invariant. -/
theorem framingInv_closed (hin : y.inUse = false) (hpoint : y.point = .done) :
    FramingInv phr stream y :=
  ⟨fun h => absurd (hin.symm.trans h) Bool.false_ne_true, fun _ => hpoint,
    fun h => absurd (hin.symm.trans h) Bool.false_ne_true⟩

/-- The whole request in front is in the buffer, and no more than one `read` behind it. -/
structure Whole (phr : PhrParse) (c : Conn σ) : Prop where
  current : Current phr c
  whole : c.headerLen + c.contentLength ≤ c.inBuf.length
  room : c.inBuf.length ≤ max hdrCap (c.headerLen + c.contentLength)

theorem Current.congr (h : Current phr d) (hhead : y.headerLen = d.headerLen)
    (hlen : y.contentLength = d.contentLength) (hbuf : y.inBuf = d.inBuf)
    (hunread : y.unread = d.unread) : Current phr y := by
  obtain ⟨⟨req, hheader, hframing⟩, hpos, hinside, hsmall⟩ := h
  refine ⟨⟨req, ?_, ?_⟩, ?_, ?_, ?_⟩
  · rw [Conn.ahead, hbuf, hunread, hhead]
    exact hheader
  · rw [hlen]
    exact hframing
  · rw [hhead]
    exact hpos
  · rw [hhead, hbuf]
    exact hinside
  · rw [hhead]
    exact hsmall

/-- The request was answered, and nothing else can have moved. -/
theorem Replied.inv (h : Replied d y) (hin : d.inUse = true) (hpos : Framed phr stream d.ahead)
    (hphase : Whole phr d ∨ y.closeAfter = true ∨ y.state = .close) (afterReset : Bool) :
    FramingInv phr stream (recvBack phr srv afterReset y) := by
  rcases h.outcome with ⟨hstate, hopen, hbuf, hunread, hout⟩ | ⟨hstate, hclosed⟩
  · obtain ⟨p, hback, hp⟩ :=
      @recvBack_send _ phr srv y hstate (hopen.trans hin) hout afterReset
    rw [hback]
    refine ⟨fun _ => ?_, fun hno => ?_, fun _ => ?_⟩
    · have hahead : (y.goto p).ahead = d.ahead := by
        change y.inBuf ++ y.unread = _
        rw [hbuf, hunread, ← Conn.ahead]
      rw [hahead]
      exact hpos
    · exact absurd ((hopen.trans hin).symm.trans hno) Bool.false_ne_true.symm
    · rcases hphase with hwhole | hclose | hclose
      · have hcurrent := hwhole.current.congr h.headerLen h.contentLength hbuf hunread
        refine .replying hstate ⟨hcurrent.header, hcurrent.nonempty, hcurrent.inside,
          hcurrent.small⟩ ?_ ?_ hp
        · change y.headerLen + y.contentLength ≤ y.inBuf.length
          rw [h.headerLen, h.contentLength, hbuf]
          exact hwhole.whole
        · change y.inBuf.length ≤ max hdrCap (y.headerLen + y.contentLength)
          rw [h.headerLen, h.contentLength, hbuf]
          exact hwhole.room
      · exact .ending hstate hclose hp
      · rw [hstate] at hclose
        cases hclose
  · rw [recvBack_closed hstate]
    exact framingInv_closed hclosed rfl

/-! ## Handing a request on -/

theorem dispatched_handleRequest (d : Conn σ) :
    (handleRequest srv d).dispatched = d.dispatched ++ [d.request] := by
  unfold handleRequest
  exact (httpReplyOrClose_replied _ _ _ _ _ _ _).dispatched

/-- A connection after `handle_request`. -/
structure Handed (d y : Conn σ) : Prop where
  headerLen : y.headerLen = d.headerLen
  contentLength : y.contentLength = d.contentLength
  dispatched : y.dispatched = d.dispatched ++ [d.request]
  outcome : (y.state = .send ∧ y.inUse = d.inUse ∧ y.inBuf = d.inBuf ∧ y.unread = d.unread ∧
    y.outOff < y.out.length) ∨ (y.state = .close ∧ y.inUse = false)

theorem handed_handleRequest (d : Conn σ) : Handed d (handleRequest srv d) := by
  have hreplied := httpReplyOrClose_replied
    { d with dispatched := d.dispatched ++ [d.request], server := (answer srv d.server d.request).2.2 }
    (answer srv d.server d.request).1.status (answer srv d.server d.request).2.1
    (answer srv d.server d.request).1.body false (answer srv d.server d.request).1.location
    (answer srv d.server d.request).1.etag
  exact ⟨hreplied.headerLen, hreplied.contentLength, hreplied.dispatched, hreplied.outcome⟩

theorem Handed.seen (h : Handed d y) : Handed d y.seen :=
  ⟨h.headerLen, h.contentLength, h.dispatched, h.outcome⟩

/-- The state behind `handle_request` is final for `conn_do_recv`. -/
theorem Handed.state (h : Handed d y) : y.state = .send ∨ y.state = .close :=
  h.outcome.imp And.left And.left

theorem Handed.inv (h : Handed d y) (hin : d.inUse = true) (hpos : Framed phr stream d.ahead)
    (hwhole : Whole phr d) (afterReset : Bool) :
    FramingInv phr stream (recvBack phr srv afterReset y) := by
  have hreplied : Replied { d with dispatched := d.dispatched ++ [d.request] } y :=
    ⟨h.headerLen, h.contentLength, h.dispatched, h.outcome⟩
  have hwhole' : Whole phr { d with dispatched := d.dispatched ++ [d.request] } :=
    ⟨hwhole.current.congr rfl rfl rfl rfl, hwhole.whole, hwhole.room⟩
  exact hreplied.inv hin hpos (Or.inl hwhole') afterReset

/-- What is read of a connection behind `conn_do_recv`. -/
theorem recvBack_fields (hstate : y.state = .send ∧ y.inUse = true ∧ y.outOff < y.out.length ∨
    y.state = .close) (afterReset : Bool) :
    (recvBack phr srv afterReset y).headerLen = y.headerLen ∧
      (recvBack phr srv afterReset y).contentLength = y.contentLength ∧
      (recvBack phr srv afterReset y).dispatched = y.dispatched ∧
      (recvBack phr srv afterReset y).replies = y.replies ∧
      (recvBack phr srv afterReset y).closeAfter = y.closeAfter := by
  rcases hstate with ⟨hstate, hin, hout⟩ | hstate
  · obtain ⟨p, hback, -⟩ := @recvBack_send _ phr srv y hstate hin hout afterReset
    rw [hback]
    exact ⟨rfl, rfl, rfl, rfl, rfl⟩
  · rw [recvBack_closed hstate]
    exact ⟨rfl, rfl, rfl, rfl, rfl⟩

/-- The body handed on is what the header block says. -/
theorem Whole.body (h : Whole phr d) :
    d.request.body = (d.ahead.drop d.headerLen).take d.contentLength := by
  have hwhole := h.whole
  have htake : (d.ahead.drop d.headerLen).take d.contentLength =
      (d.inBuf.drop d.headerLen).take d.contentLength := by
    rw [Conn.ahead, List.drop_append_of_le_length h.current.inside,
      List.take_append_of_le_length (by rw [List.length_drop]; omega)]
  rw [htake]
  unfold Conn.request
  dsimp only
  split
  · rfl
  · next hno =>
    have hzero : d.contentLength = 0 := by omega
    rw [hzero, List.take_zero]

theorem Whole.promise (h : Whole phr d) : BodyPromised phr d d.request := by
  obtain ⟨req, hheader, hframing⟩ := h.current.header
  refine ⟨d.headerLen, req, d.contentLength, hheader, hframing, ?_, h.body⟩
  have hwhole := h.whole
  rw [Conn.ahead, List.length_append]
  omega

/-! ## A header block that parses -/

/-- What the header loop makes of a block. -/
def fieldsOf (d : Conn σ) (req : PhrRequest) : HeaderFields × Option HeaderReject :=
  headerLoop ⟨0, decide (req.minor < 1), d.ifMatch⟩ req.headers

/-- The connection with what it was told by a header block. -/
def withHeader (d : Conn σ) (len : ℕ) (req : PhrRequest) : Conn σ :=
  { d with
    headerLen := len, minor := req.minor, method := copyToken 16 req.method
    path := (splitQuery (copyToken 128 req.path)).1, query := (splitQuery (copyToken 128 req.path)).2
    contentLength := (fieldsOf d req).1.contentLength, reqClose := (fieldsOf d req).1.reqClose
    ifMatch := (fieldsOf d req).1.ifMatch }

theorem parseHeaders_refused {len : ℕ} {req : PhrRequest} {r : HeaderReject}
    (hphr : phr (d.inBuf.take hdrCap) d.lastLen = .ok len req) (hrej : (fieldsOf d req).2 = some r) :
    (parseHeaders phr srv d).1 = headerReply (withHeader d len req) r := by
  unfold fieldsOf at hrej
  simp only [parseHeaders, hphr, hrej]
  rfl

theorem parseHeaders_taken {len : ℕ} {req : PhrRequest}
    (hphr : phr (d.inBuf.take hdrCap) d.lastLen = .ok len req) (hrej : (fieldsOf d req).2 = none) :
    (parseHeaders phr srv d).1 =
      if (withHeader d len req).contentLength = 0 then handleRequest srv (withHeader d len req)
      else { withHeader d len req with state := .recvBody } := by
  have hlen : (withHeader d len req).contentLength = (fieldsOf d req).1.contentLength := rfl
  rw [hlen]
  unfold fieldsOf at hrej ⊢
  simp only [parseHeaders, hphr, hrej]
  split
  · rfl
  · rfl

/-- The status of a refusal. -/
def HeaderReject.status : HeaderReject → ℕ
  | .chunked => 400
  | .badLength => 400
  | .tooLarge => 413

/-- A refusal fits the output, says its status and closes. -/
theorem headerReply_refused (hminor : d.minor ≤ 9) (r : HeaderReject) :
    (headerReply d r).state = .send ∧ (headerReply d r).inUse = d.inUse ∧
      (headerReply d r).outOff < (headerReply d r).out.length ∧
      Refused d.minor r.status d (headerReply d r) := by
  have hsmall : ∀ (status : ℕ) (reason : String) (body : CString),
      (replyHead d.minor status reason body.length true CString.empty CString.empty).length +
        body.length < outCap →
      (httpReplyOrClose d status reason body true CString.empty CString.empty).state = .send ∧
        (httpReplyOrClose d status reason body true CString.empty CString.empty).inUse = d.inUse ∧
        (httpReplyOrClose d status reason body true CString.empty CString.empty).outOff <
          (httpReplyOrClose d status reason body true CString.empty CString.empty).out.length ∧
        Refused d.minor status d
          (httpReplyOrClose d status reason body true CString.empty CString.empty) := by
    intro status reason body hfits
    have hreply : httpReplyOrClose d status reason body true CString.empty CString.empty = { d with
        out := replyHead d.minor status reason body.length true CString.empty CString.empty ++ body.bytes
        outOff := 0, closeAfter := true, state := .send
        replies := d.replies ++ [replyHead d.minor status reason body.length true CString.empty
          CString.empty ++ body.bytes] } := by
      unfold httpReplyOrClose httpReply
      dsimp only
      rw [Bool.true_or, Bool.true_or, if_neg (not_le.mpr hfits)]
      rfl
    rw [hreply]
    refine ⟨rfl, rfl, ?_, rfl, rfl, reason, body, rfl⟩
    exact List.length_pos_iff.mpr (by simp [replyHead_ne_nil])
  have hfit : ∀ m ≤ 9, (replyHead m 400 "Bad Request"
      (CString.lit "\x7b\"error\":\"chunked not supported\"\x7d").length true CString.empty
        CString.empty).length +
        (CString.lit "\x7b\"error\":\"chunked not supported\"\x7d").length < outCap ∧
      (replyHead m 400 "Bad Request" (CString.lit "\x7b\"error\":\"bad request\"\x7d").length true
        CString.empty CString.empty).length +
        (CString.lit "\x7b\"error\":\"bad request\"\x7d").length < outCap ∧
      (replyHead m 413 "Payload Too Large"
        (CString.lit "\x7b\"error\":\"payload too large\"\x7d").length true CString.empty
        CString.empty).length +
        (CString.lit "\x7b\"error\":\"payload too large\"\x7d").length < outCap := by
    decide +kernel
  obtain ⟨hchunked, hbad, hlarge⟩ := hfit d.minor hminor
  cases r with
  | chunked =>
    simp only [headerReply, HeaderReject.status]
    exact hsmall _ _ _ hchunked
  | badLength =>
    simp only [headerReply, HeaderReject.status]
    exact hsmall _ _ _ hbad
  | tooLarge =>
    simp only [headerReply, HeaderReject.status]
    exact hsmall _ _ _ hlarge

/-- The two refusals are told apart by their status. -/
theorem refused_ne {minor : ℕ} {c' : Conn σ} (h : Refused minor 400 c c') :
    ¬Refused minor 413 c c' := by
  rintro ⟨-, -, reason', body', hreplies'⟩
  obtain ⟨-, -, reason, body, hreplies⟩ := h
  rw [hreplies'] at hreplies
  have htext := List.cons.inj (List.append_cancel_left hreplies)
  have h400 : decimal 400 = [52, 48, 48] := by decide
  have h413 : decimal 413 = [52, 49, 51] := by decide
  simp only [replyHead, List.append_assoc, h400, h413, List.append_cancel_left_eq] at htext
  simp at htext

theorem replies_of_refused {minor status : ℕ} {c' : Conn σ} (h : Refused minor status c c') :
    c'.replies ≠ c.replies := by
  obtain ⟨-, -, reason, body, hreplies⟩ := h
  rw [hreplies]
  simp

/-- A refusal is what the fields ask for exactly when the promise holds. -/
theorem answered_refused {len : ℕ} {req : PhrRequest} {c' : Conn σ} {f : HeaderFields}
    {r : HeaderReject} (h : Refused req.minor r.status c c') :
    Answered len req c c' ↔ Right req.headers (f, some r) := by
  have hreplies := replies_of_refused h
  constructor
  · intro hans
    by_cases hamb : Ambiguous req.headers
    · cases r with
      | chunked => exact hamb
      | badLength => exact hamb
      | tooLarge =>
        rcases hans.refused hamb with h400 | ⟨hlong, -⟩
        · exact absurd h (refused_ne h400)
        · exact hlong
    · obtain ⟨n, hdecl⟩ := declares_of_clear hamb
      have hlong : bodyCap < n := by
        by_contra hfits
        exact hreplies ((hans.taken n ⟨hamb, hdecl, by omega⟩).2.2 h.1)
      have htoo : TooLong req.headers := ⟨n, hdecl, hlong⟩
      have h413 := hans.tooLong hamb htoo
      cases r with
      | chunked => exact absurd h413 (refused_ne h)
      | badLength => exact absurd h413 (refused_ne h)
      | tooLarge => exact htoo
  · intro hright
    cases r with
    | chunked =>
      have hamb : Ambiguous req.headers := hright
      exact ⟨fun n hf => absurd hamb hf.clear, fun hno => absurd hamb hno, fun _ => Or.inl h⟩
    | badLength =>
      have hamb : Ambiguous req.headers := hright
      exact ⟨fun n hf => absurd hamb hf.clear, fun hno => absurd hamb hno, fun _ => Or.inl h⟩
    | tooLarge =>
      have hlong : TooLong req.headers := hright
      refine ⟨fun n hf => ?_, fun _ _ => h, fun _ => Or.inr ⟨hlong, h⟩⟩
      obtain ⟨m, hdecl, hlarge⟩ := hlong
      have hfits := hf.fits
      rw [declares_inj hf.declared hdecl] at hfits
      omega

/-- So is a request that is taken. -/
theorem answered_taken {len : ℕ} {req : PhrRequest} {c' : Conn σ} {f : HeaderFields}
    (hhead : c'.headerLen = len) (hlen : c'.contentLength = f.contentLength)
    (hquiet : c'.dispatched = c.dispatched → c'.replies = c.replies) :
    Answered len req c c' ↔ Right req.headers (f, none) := by
  have hno : ∀ status, ¬Refused req.minor status c c' :=
    fun status href => replies_of_refused href (hquiet href.1)
  constructor
  · intro hans
    have hclear : ¬Ambiguous req.headers := by
      intro hamb
      rcases hans.refused hamb with h400 | ⟨-, h413⟩
      · exact hno 400 h400
      · exact hno 413 h413
    obtain ⟨n, hdecl⟩ := declares_of_clear hclear
    have hfits : n ≤ bodyCap := by
      by_contra hlarge
      exact hno 413 (hans.tooLong hclear ⟨n, hdecl, by omega⟩)
    obtain ⟨-, hn, -⟩ := hans.taken n ⟨hclear, hdecl, hfits⟩
    have hf : f.contentLength = n := hlen.symm.trans hn
    exact ⟨hclear, hf ▸ hdecl, hf ▸ hfits⟩
  · intro hright
    have hframing : Framing req.headers f.contentLength := hright
    refine ⟨fun n hf => ⟨hhead, ?_, hquiet⟩, fun _ hlong => ?_, fun hamb => ?_⟩
    · rw [hlen]
      exact declares_inj hframing.declared hf.declared
    · obtain ⟨m, hdecl, hlarge⟩ := hlong
      have hfits := hframing.fits
      rw [declares_inj hframing.declared hdecl] at hfits
      omega
    · exact absurd hamb hframing.clear

theorem headerReply_replied (d : Conn σ) (r : HeaderReject) : Replied d (headerReply d r) := by
  unfold headerReply
  cases r with
  | chunked => exact httpReplyOrClose_replied _ _ _ _ _ _ _
  | badLength =>
    unfold badRequest
    exact httpReplyOrClose_replied _ _ _ _ _ _ _
  | tooLarge => exact httpReplyOrClose_replied _ _ _ _ _ _ _

/-- A block that is read as written makes its request the current one. -/
theorem current_withHeader (hsound : PhrSound phr) {len : ℕ} {req : PhrRequest}
    (hroom : d.inBuf.length ≤ hdrCap) (hphr : phr (d.inBuf.take hdrCap) d.lastLen = .ok len req)
    (hframing : Framing req.headers (fieldsOf d req).1.contentLength) :
    Current phr (withHeader d len req) := by
  obtain ⟨hpos, hle⟩ := hsound.length _ _ _ _ hphr
  rw [List.length_take] at hle
  have hheader : HeaderAt phr d.ahead len req := by
    refine ⟨d.inBuf.length, d.lastLen, ?_⟩
    rw [Conn.ahead, List.take_left, ← List.take_of_length_le hroom]
    exact hphr
  refine ⟨⟨req, hheader, hframing⟩, hpos, ?_, ?_⟩
  · change len ≤ d.inBuf.length
    omega
  · change len ≤ hdrCap
    omega

/-- What comes of a header block that parses. -/
structure Outcome (phr : PhrParse) (stream : Bytes) (len : ℕ) (req : PhrRequest)
    (d c' : Conn σ) : Prop where
  answered : Answered len req d c' ↔ ReadAsWritten req.headers
  kept : ReadAsWritten req.headers → FramingInv phr stream c'
  bodies : ReadAsWritten req.headers →
    ∀ r, c'.dispatched = d.dispatched ++ [r] → BodyPromised phr d r

/-- The result of the loop as `right_iff` speaks of it. -/
theorem right_fieldsOf (d : Conn σ) (req : PhrRequest) :
    Right req.headers ((fieldsOf d req).1, (fieldsOf d req).2) ↔ ReadAsWritten req.headers :=
  right_iff req.headers ⟨0, decide (req.minor < 1), d.ifMatch⟩ rfl

/-- A block is refused. -/
theorem outcome_refused (hsound : PhrSound phr) {len : ℕ} {req : PhrRequest} {r : HeaderReject}
    (hin : d.inUse = true) (hpos : Framed phr stream d.ahead)
    (hphr : phr (d.inBuf.take hdrCap) d.lastLen = .ok len req) (hrej : (fieldsOf d req).2 = some r)
    (afterReset : Bool) :
    Outcome phr stream len req d
      (recvBack phr srv afterReset (headerReply (withHeader d len req) r).seen) := by
  have hright := right_fieldsOf d req
  rw [hrej] at hright
  have hminor : (withHeader d len req).minor ≤ 9 := hsound.minor _ _ _ _ hphr
  obtain ⟨hsend, hopen, hout, hdisp, hclose, reason, body, hreplies⟩ :=
    headerReply_refused hminor r
  obtain ⟨-, -, hdisp', hreplies', hclose'⟩ :=
    @recvBack_fields _ phr srv (headerReply (withHeader d len req) r).seen
      (Or.inl ⟨hsend, hopen.trans hin, hout⟩) afterReset
  have hrefused : Refused req.minor r.status d
      (recvBack phr srv afterReset (headerReply (withHeader d len req) r).seen) :=
    ⟨hdisp'.trans hdisp, hclose'.trans hclose, reason, body, hreplies'.trans hreplies⟩
  refine ⟨(answered_refused hrefused).trans hright, fun _ => ?_, fun _ q hq => ?_⟩
  · have hreplied := (headerReply_replied (withHeader d len req) r).seen
    exact hreplied.inv hin hpos (Or.inr (Or.inl hclose)) afterReset
  · rw [hrefused.1] at hq
    simp at hq

/-- What a connection in front of `handle_request` has kept of the one that was read. -/
structure Carries (d : Conn σ) (len : ℕ) (req : PhrRequest) (q : Conn σ) : Prop where
  headerLen : q.headerLen = len
  contentLength : q.contentLength = (fieldsOf d req).1.contentLength
  inBuf : q.inBuf = d.inBuf
  unread : q.unread = d.unread
  inUse : q.inUse = d.inUse
  dispatched : q.dispatched = d.dispatched

/-- A request whose body is there, or that has none, is handed on. -/
theorem outcome_handed (hsound : PhrSound phr) {len : ℕ} {req : PhrRequest} {q : Conn σ}
    (hin : d.inUse = true) (hroom : d.inBuf.length ≤ hdrCap) (hpos : Framed phr stream d.ahead)
    (hphr : phr (d.inBuf.take hdrCap) d.lastLen = .ok len req) (hrej : (fieldsOf d req).2 = none)
    (hq : Carries d len req q) (hwhole : q.headerLen + q.contentLength ≤ q.inBuf.length)
    (hy : Handed q y) (afterReset : Bool) :
    Outcome phr stream len req d (recvBack phr srv afterReset y) := by
  have hright := right_fieldsOf d req
  rw [hrej] at hright
  have hqin : q.inUse = true := hq.inUse.trans hin
  have hfinal : y.state = .send ∧ y.inUse = true ∧ y.outOff < y.out.length ∨ y.state = .close := by
    rcases hy.outcome with ⟨hs, ho, -, -, hlt⟩ | ⟨hs, -⟩
    · exact Or.inl ⟨hs, ho.trans hqin, hlt⟩
    · exact Or.inr hs
  obtain ⟨hhead', hlen', hdisp', -, -⟩ := @recvBack_fields _ phr srv y hfinal afterReset
  have hgrown : (recvBack phr srv afterReset y).dispatched = d.dispatched ++ [q.request] := by
    rw [hdisp', hy.dispatched, hq.dispatched]
  have hquiet : (recvBack phr srv afterReset y).dispatched = d.dispatched →
      (recvBack phr srv afterReset y).replies = d.replies := by
    intro hsame
    rw [hgrown] at hsame
    simp at hsame
  have hahead : q.ahead = d.ahead := by rw [Conn.ahead, Conn.ahead, hq.inBuf, hq.unread]
  have hready : ReadAsWritten req.headers → Whole phr q := by
    intro hok
    have hcurrent := current_withHeader hsound hroom hphr (hright.mpr hok)
    refine ⟨hcurrent.congr hq.headerLen hq.contentLength hq.inBuf hq.unread, hwhole, ?_⟩
    rw [hq.inBuf]
    exact hroom.trans (le_max_left _ _)
  refine ⟨(answered_taken (hhead'.trans (hy.headerLen.trans hq.headerLen))
    (hlen'.trans (hy.contentLength.trans hq.contentLength)) hquiet).trans hright,
    fun hok => hy.inv hqin (hahead ▸ hpos) (hready hok) afterReset, fun hok r hr => ?_⟩
  have hreq : r = q.request := by
    rw [hgrown] at hr
    exact (List.singleton_inj.mp (List.append_cancel_left hr)).symm
  rw [hreq, BodyPromised, ← hahead]
  exact (hready hok).promise

/-- The connection that waits for the body of a request. -/
def expecting (d : Conn σ) (len : ℕ) (req : PhrRequest) : Conn σ :=
  ({ withHeader d len req with state := .recvBody } : Conn σ).seen

theorem carries_withHeader (d : Conn σ) (len : ℕ) (req : PhrRequest) :
    Carries d len req (withHeader d len req) := ⟨rfl, rfl, rfl, rfl, rfl, rfl⟩

theorem carries_expecting (d : Conn σ) (len : ℕ) (req : PhrRequest) :
    Carries d len req (expecting d len req) := ⟨rfl, rfl, rfl, rfl, rfl, rfl⟩

/-- A request's body is still to come. -/
theorem outcome_expecting (hsound : PhrSound phr) {len : ℕ} {req : PhrRequest}
    (hin : d.inUse = true) (hroom : d.inBuf.length ≤ hdrCap) (hpos : Framed phr stream d.ahead)
    (hphr : phr (d.inBuf.take hdrCap) d.lastLen = .ok len req) (hrej : (fieldsOf d req).2 = none)
    (hshort : d.inBuf.length < len + (fieldsOf d req).1.contentLength) (afterReset : Bool) :
    Outcome phr stream len req d ((expecting d len req).goto (.reading afterReset)) := by
  have hright := right_fieldsOf d req
  rw [hrej] at hright
  have hans : Answered len req d ((expecting d len req).goto (.reading afterReset)) ↔
      Right req.headers ((fieldsOf d req).1, none) := answered_taken rfl rfl fun _ => rfl
  refine ⟨hans.trans hright, fun hok => ?_, fun _ r hr => ?_⟩
  · have hcurrent := current_withHeader hsound hroom hphr (hright.mpr hok)
    refine ⟨fun _ => hpos, fun hno => absurd (hin.symm.trans hno) Bool.false_ne_true.symm,
      fun _ => ?_⟩
    exact .body rfl ⟨hcurrent.header, hcurrent.nonempty, hcurrent.inside, hcurrent.small⟩ hshort
      (Or.inr ⟨afterReset, rfl⟩)
  · have hsame : d.dispatched = d.dispatched ++ [r] := hr
    simp at hsame

/-- A header block arrives whole. -/
theorem afterRead_parsed (hsound : PhrSound phr) {len : ℕ} {req : PhrRequest}
    (hstate : d.state = .recvHeaders) (hin : d.inUse = true) (hroom : d.inBuf.length ≤ hdrCap)
    (hpos : Framed phr stream d.ahead) (hphr : phr (d.inBuf.take hdrCap) d.lastLen = .ok len req)
    (afterReset : Bool) :
    Outcome phr stream len req d (afterRead phr srv afterReset d) := by
  obtain ⟨-, hbound⟩ := hsound.length _ _ _ _ hphr
  rw [List.length_take] at hbound
  rw [afterRead_headers hstate]
  cases hrej : (fieldsOf d req).2 with
  | some r =>
    have hsend : (headerReply (withHeader d len req) r).seen.state = .send :=
      (headerReply_refused (hsound.minor _ _ _ _ hphr) r).1
    rw [parseHeaders_refused hphr hrej, if_pos (Or.inl hsend)]
    exact outcome_refused hsound hin hpos hphr hrej afterReset
  | none =>
    have hcap : (fieldsOf d req).1.contentLength ≤ bodyCap := headerLoop_le rfl hrej
    rw [parseHeaders_taken hphr hrej]
    by_cases hzero : (withHeader d len req).contentLength = 0
    · have hy := (@handed_handleRequest _ srv (withHeader d len req)).seen
      have hwhole : (withHeader d len req).headerLen + (withHeader d len req).contentLength ≤
          (withHeader d len req).inBuf.length := by
        rw [hzero]
        change len + 0 ≤ d.inBuf.length
        omega
      rw [if_pos hzero, if_pos hy.state]
      exact outcome_handed hsound hin hroom hpos hphr hrej (carries_withHeader d len req) hwhole hy
        afterReset
    · have hbody : (expecting d len req).state = .recvBody := rfl
      have hfold : ({ withHeader d len req with state := .recvBody } : Conn σ).seen =
        expecting d len req := rfl
      rw [if_neg hzero, hfold, if_neg (by rw [hbody]; decide)]
      by_cases hwhole : (expecting d len req).headerLen + (expecting d len req).contentLength ≤
          (expecting d len req).inBuf.length
      · rw [connDoRecv_bodyComplete ⟨by rw [hbody]; decide, hwhole⟩]
        exact outcome_handed hsound hin hroom hpos hphr hrej (carries_expecting d len req) hwhole
          (handed_handleRequest _) afterReset
      · have hshort : d.inBuf.length < len + (fieldsOf d req).1.contentLength := not_le.mp hwhole
        have hreads : ¬(expecting d len req).bodyComplete ∧ (expecting d len req).room ≠ 0 := by
          refine ⟨fun hcomplete => hwhole hcomplete.2, ?_⟩
          rw [Conn.room, hbody, if_neg (by decide)]
          change min (len + (fieldsOf d req).1.contentLength - d.inBuf.length)
            (inCap - d.inBuf.length) ≠ 0
          unfold inCap
          omega
        rw [connDoRecv_reading hreads]
        exact outcome_expecting hsound hin hroom hpos hphr hrej hshort afterReset

/-! ## Steps -/

/-- A step that neither parses a block nor hands a request on. -/
structure Quiet (phr : PhrParse) (stream : Bytes) (c c' : Conn σ) : Prop where
  kept : FramingInv phr stream c'
  dispatched : c'.dispatched = c.dispatched

theorem Quiet.closed (hdisp : d.dispatched = c.dispatched) (hin : d.inUse = false)
    (hpoint : d.point = .done) : Quiet phr stream c d :=
  ⟨framingInv_closed hin hpoint, hdisp⟩

/-- The connection goes on to another point. -/
theorem FramingInv.goto (h : FramingInv phr stream c) (hin : c.inUse = true) {p : Point}
    (hphase : Phase phr (c.goto p)) : Quiet phr stream c (c.goto p) :=
  ⟨⟨fun _ => h.position hin, fun hno => absurd (hin.symm.trans hno) Bool.false_ne_true.symm,
    fun _ => hphase⟩, rfl⟩

/-- With bytes of the body missing there is room to read them. -/
theorem Current.reads (h : Current phr c) (hstate : c.state = .recvBody)
    (hshort : c.inBuf.length < c.headerLen + c.contentLength) :
    ¬c.bodyComplete ∧ c.room ≠ 0 := by
  obtain ⟨req, -, hframing⟩ := h.header
  have hfits := hframing.fits
  have hsmall := h.small
  refine ⟨fun hcomplete => ?_, ?_⟩
  · have hwhole := hcomplete.2
    omega
  · rw [Conn.room, hstate, if_neg (by decide)]
    unfold inCap
    omega

theorem headers_reads (hstate : c.state = .recvHeaders) (hshort : c.inBuf.length < hdrCap) :
    ¬c.bodyComplete ∧ c.room ≠ 0 := by
  refine ⟨fun hcomplete => hcomplete.1 hstate, ?_⟩
  rw [Conn.room, if_pos hstate]
  omega

/-- The reply is out: the request's bytes are taken from the stream. -/
theorem connKeepAliveReset_quiet (hin : c.inUse = true) (hpos : Framed phr stream c.ahead)
    (h : Whole phr c) : Quiet phr stream c (connKeepAliveReset phr srv c) := by
  obtain ⟨req, hheader, hframing⟩ := h.current.header
  have hwhole := h.whole
  have hroom := h.room
  have hnonempty := h.current.nonempty
  have hused : min (c.headerLen + c.contentLength) c.inBuf.length =
    c.headerLen + c.contentLength := by omega
  let d := connResetReq { c with inBuf := c.inBuf.drop (c.headerLen + c.contentLength) }
  have hahead : d.ahead = c.ahead.drop (c.headerLen + c.contentLength) := by
    rw [Conn.ahead, Conn.ahead, List.drop_append_of_le_length hwhole]
    rfl
  have hframed : Framed phr stream d.ahead := by
    rw [hahead]
    refine .next hpos hheader hframing ?_
    rw [Conn.ahead, List.length_append]
    omega
  have hshort : d.inBuf.length < hdrCap := by
    have hlen : d.inBuf.length = c.inBuf.length - (c.headerLen + c.contentLength) :=
      List.length_drop
    have hcap : 0 < hdrCap := by decide
    omega
  have hinv : FramingInv phr stream (d.goto .waiting) ∧
      FramingInv phr stream (d.goto (.reading true)) := by
    constructor
    · exact ⟨fun _ => hframed, fun hno => absurd (hin.symm.trans hno) Bool.false_ne_true.symm,
        fun _ => .headers rfl hshort (Or.inl rfl)⟩
    · exact ⟨fun _ => hframed, fun hno => absurd (hin.symm.trans hno) Bool.false_ne_true.symm,
        fun _ => .headers rfl hshort (Or.inr ⟨true, rfl⟩)⟩
  have hreset : connKeepAliveReset phr srv c =
      if d.inBuf ≠ [] then connDoRecv phr srv true settle d else settle d := by
    rw [connKeepAliveReset, hused]
  rw [hreset]
  split
  · rw [connDoRecv_reading (headers_reads rfl hshort)]
    exact ⟨hinv.2, rfl⟩
  · have hsettle : settle d = d.goto .waiting := settle_eq (fun hno => (by cases hno)) hin
    rw [hsettle]
    exact ⟨hinv.1, rfl⟩

/-- What `conn_do_send` makes of a connection with a reply. -/
theorem connDoSend_quiet (hin : c.inUse = true) (hpos : Framed phr stream c.ahead)
    (hstate : c.state = .send) (hphase : Whole phr c ∨ c.closeAfter = true) :
    Quiet phr stream c (connDoSend phr srv c) := by
  unfold connDoSend
  split
  · refine ⟨⟨fun _ => hpos, fun hno => absurd (hin.symm.trans hno) Bool.false_ne_true.symm,
      fun _ => ?_⟩, rfl⟩
    rcases hphase with hwhole | hclose
    · have hcurrent := hwhole.current
      exact .replying hstate ⟨hcurrent.header, hcurrent.nonempty, hcurrent.inside, hcurrent.small⟩
        hwhole.whole hwhole.room (Or.inr rfl)
    · exact .ending hstate hclose (Or.inr rfl)
  · split
    · exact Quiet.closed rfl rfl rfl
    · next hopen =>
      rcases hphase with hwhole | hclose
      · exact connKeepAliveReset_quiet hin hpos hwhole
      · exact absurd hclose hopen

/-- A reply that is under way. -/
theorem Phase.send (h : Phase phr c) (hstate : c.state = .send) :
    Whole phr c ∨ c.closeAfter = true := by
  cases h with
  | headers hs hshort hpoint => rw [hstate] at hs; cases hs
  | body hs hcurrent hshort hpoint => rw [hstate] at hs; cases hs
  | replying hs hcurrent hwhole hroom hpoint => exact Or.inl ⟨hcurrent, hwhole, hroom⟩
  | ending hs hclose hpoint => exact Or.inr hclose

/-- An error was answered. -/
theorem Replied.quiet (h : Replied d y) (hin : d.inUse = true) (hpos : Framed phr stream d.ahead)
    (hforced : y.closeAfter = true ∨ y.state = .close) (afterReset : Bool) :
    Quiet phr stream d
      (if y.state = .send ∨ y.state = .close then recvBack phr srv afterReset y
      else connDoRecv phr srv afterReset (recvBack phr srv afterReset) y) := by
  have hsettled : y.state = .send ∧ y.inUse = true ∧ y.outOff < y.out.length ∨
      y.state = .close := by
    rcases h.outcome with ⟨hs, ho, -, -, hlt⟩ | ⟨hs, -⟩
    · exact Or.inl ⟨hs, ho.trans hin, hlt⟩
    · exact Or.inr hs
  rw [if_pos (h.outcome.imp And.left And.left)]
  refine ⟨h.inv hin hpos (Or.inr hforced) afterReset, ?_⟩
  exact (@recvBack_fields _ phr srv y hsettled afterReset).2.2.1.trans h.dispatched

theorem badRequest_quiet (hin : d.inUse = true) (hpos : Framed phr stream d.ahead)
    (afterReset : Bool) : Quiet phr stream d
      (if (badRequest d).seen.state = .send ∨ (badRequest d).seen.state = .close then
        recvBack phr srv afterReset (badRequest d).seen
      else connDoRecv phr srv afterReset (recvBack phr srv afterReset) (badRequest d).seen) := by
  have hreplied : Replied d (badRequest d) := by
    unfold badRequest
    exact httpReplyOrClose_replied _ _ _ _ _ _ _
  have hforced : (badRequest d).closeAfter = true ∨ (badRequest d).state = .close := by
    unfold badRequest
    exact httpReplyOrClose_forced _ _ _ _
  generalize badRequest d = y at hreplied hforced
  exact hreplied.seen.quiet hin hpos hforced afterReset

/-- A step delivers bytes while the header block is incomplete or malformed. -/
theorem afterRead_unparsed (hstate : d.state = .recvHeaders) (hin : d.inUse = true)
    (hpos : Framed phr stream d.ahead)
    (hphr : ∀ len req, phr (d.inBuf.take hdrCap) d.lastLen ≠ .ok len req) (afterReset : Bool) :
    Quiet phr stream d (afterRead phr srv afterReset d) := by
  have hbad := @badRequest_quiet _ phr srv stream d hin hpos afterReset
  rw [afterRead_headers hstate]
  cases hresult : phr (d.inBuf.take hdrCap) d.lastLen with
  | ok len req => exact absurd hresult (hphr len req)
  | malformed =>
    have hparse : (parseHeaders phr srv d).1 = badRequest d := by
      simp only [parseHeaders, hresult]
    rw [hparse]
    exact hbad
  | incomplete =>
    by_cases hfull : hdrCap ≤ d.inBuf.length
    · have hparse : (parseHeaders phr srv d).1 = badRequest d := by
        simp only [parseHeaders, hresult, if_pos hfull]
      rw [hparse]
      exact hbad
    · have hparse : (parseHeaders phr srv d).1 = d := by
        simp only [parseHeaders, hresult, if_neg hfull]
      have hseen : d.seen.state = .recvHeaders := hstate
      have hshort : d.seen.inBuf.length < hdrCap := not_le.mp hfull
      rw [hparse, if_neg (by rw [hseen]; decide), connDoRecv_reading (headers_reads hseen hshort)]
      exact ⟨⟨fun _ => hpos, fun hno => absurd (hin.symm.trans hno) Bool.false_ne_true.symm,
        fun _ => .headers hstate hshort (Or.inr ⟨afterReset, rfl⟩)⟩, rfl⟩

/-! ## The step of the connection -/

/-- What comes of a step. -/
inductive StepCase (phr : PhrParse) (stream : Bytes) (c : Conn σ) (e : Event) (c' : Conn σ) : Prop
  | parsed {len : ℕ} {req : PhrRequest} (hparses : ParsesIn phr c e len req)
      (houtcome : Outcome phr stream len req c c')
  | quiet (hno : ∀ len req, ¬ParsesIn phr c e len req) (hquiet : Quiet phr stream c c')
  | handed (hno : ∀ len req, ¬ParsesIn phr c e len req) (hkept : FramingInv phr stream c')
      {r : RestRequest} (hgrown : c'.dispatched = c.dispatched ++ [r])
      (hbody : BodyPromised phr c r)

theorem ahead_receive {b : Bytes} (hb : b <+: c.unread) : (c.receive b).ahead = c.ahead :=
  stream_receive hb rfl

/-- Bytes that were only received change nothing that is promised. -/
theorem Outcome.received {b : Bytes} (hb : b <+: c.unread) {len : ℕ} {req : PhrRequest}
    (h : Outcome phr stream len req (c.receive b) d) : Outcome phr stream len req c d := by
  have hsame := ahead_receive hb
  refine ⟨?_, h.kept, fun hok r hr => ?_⟩
  · rw [← h.answered]
    constructor
    · exact fun ha => ⟨ha.taken, ha.tooLong, ha.refused⟩
    · exact fun ha => ⟨ha.taken, ha.tooLong, ha.refused⟩
  · have hbody := h.bodies hok r hr
    rw [BodyPromised, hsame] at hbody
    exact hbody

theorem not_parsesIn {e : Event} (hno : ∀ afterReset n, c.point = .reading afterReset →
    e = .ready n → c.state = .recvHeaders → c.delivered e = []) (len : ℕ) (req : PhrRequest) :
    ¬ParsesIn phr c e len req := by
  rintro ⟨afterReset, n, hpoint, he, hstate, hne, -⟩
  exact hne (hno afterReset n hpoint he hstate)

theorem not_parsesIn_of_point {e : Event} (hpoint : ∀ afterReset, c.point ≠ .reading afterReset)
    (len : ℕ) (req : PhrRequest) : ¬ParsesIn phr c e len req :=
  not_parsesIn (fun afterReset _ hp => absurd hp (hpoint afterReset)) len req

theorem not_parsesIn_of_state {e : Event} (hstate : c.state ≠ .recvHeaders) (len : ℕ)
    (req : PhrRequest) : ¬ParsesIn phr c e len req :=
  not_parsesIn (fun _ _ _ _ hs => absurd hs hstate) len req

/-- A connection that waits for the tick. -/
theorem step_waiting (h : FramingInv phr stream c) (hin : c.inUse = true) (hp : c.point = .waiting)
    (e : Event) : Quiet phr stream c (step phr srv c e) := by
  cases e with
  | tick idle =>
    cases idle with
    | true =>
      have hstep : step phr srv c (.tick true) = settle (connClose c) := by simp only [step, hp]
      rw [hstep]
      exact Quiet.closed rfl rfl rfl
    | false =>
      cases h.phase hin with
      | headers hstate hshort hpoint =>
        have hstep : step phr srv c (.tick false) = c.goto (.reading false) := by
          simp only [step, hp, hstate, true_or, if_true]
          exact connDoRecv_reading (headers_reads hstate hshort)
        rw [hstep]
        exact h.goto hin (.headers hstate hshort (Or.inr ⟨false, rfl⟩))
      | body hstate hcurrent hshort hpoint =>
        have hstep : step phr srv c (.tick false) = c.goto (.reading false) := by
          simp only [step, hp, hstate, or_true, if_true]
          exact connDoRecv_reading (hcurrent.reads hstate hshort)
        rw [hstep]
        exact h.goto hin (.body hstate ⟨hcurrent.header, hcurrent.nonempty, hcurrent.inside,
          hcurrent.small⟩ hshort (Or.inr ⟨false, rfl⟩))
      | replying hstate hcurrent hwhole hroom hpoint =>
        have hstep : step phr srv c (.tick false) = connDoSend phr srv c := by
          simp only [step, hp, hstate, reduceCtorEq, or_self, if_false]
          rw [afterRecv, if_pos hstate]
        rw [hstep]
        exact connDoSend_quiet hin (h.position hin) hstate (Or.inl ⟨hcurrent, hwhole, hroom⟩)
      | ending hstate hclose hpoint =>
        have hstep : step phr srv c (.tick false) = connDoSend phr srv c := by
          simp only [step, hp, hstate, reduceCtorEq, or_self, if_false]
          rw [afterRecv, if_pos hstate]
        rw [hstep]
        exact connDoSend_quiet hin (h.position hin) hstate (Or.inr hclose)
  | ready n =>
    have hidle : step phr srv c (.ready n) = c := by simp only [step, hp]
    rw [hidle]
    exact ⟨h, rfl⟩
  | readClosed =>
    have hidle : step phr srv c .readClosed = c := by simp only [step, hp]
    rw [hidle]
    exact ⟨h, rfl⟩
  | took n =>
    have hidle : step phr srv c (.took n) = c := by simp only [step, hp]
    rw [hidle]
    exact ⟨h, rfl⟩
  | writeFailed =>
    have hidle : step phr srv c .writeFailed = c := by simp only [step, hp]
    rw [hidle]
    exact ⟨h, rfl⟩

/-- Some of the reply was written. -/
def Conn.wrote (c : Conn σ) (b : Bytes) : Conn σ :=
  { c with outOff := c.outOff + b.length, sent := c.sent ++ b }

theorem wrote_phase (h : Whole phr c ∨ c.closeAfter = true) (b : Bytes) :
    Whole phr (c.wrote b) ∨ (c.wrote b).closeAfter = true := by
  rcases h with hwhole | hclose
  · have hcurrent := hwhole.current
    exact Or.inl ⟨⟨hcurrent.header, hcurrent.nonempty, hcurrent.inside, hcurrent.small⟩,
      hwhole.whole, hwhole.room⟩
  · exact Or.inr hclose

/-- A connection in front of its `write`. -/
theorem step_writing (h : FramingInv phr stream c) (hin : c.inUse = true) (hp : c.point = .writing)
    (e : Event) : Quiet phr stream c (step phr srv c e) := by
  have hstate : c.state = .send := by
    cases h.phase hin with
    | headers hs hshort hpoint =>
      rw [hp] at hpoint
      rcases hpoint with hno | ⟨_, hno⟩ <;> cases hno
    | body hs hcurrent hshort hpoint =>
      rw [hp] at hpoint
      rcases hpoint with hno | ⟨_, hno⟩ <;> cases hno
    | replying hs hcurrent hwhole hroom hpoint => exact hs
    | ending hs hclose hpoint => exact hs
  have hsend := (h.phase hin).send hstate
  cases e with
  | tick idle =>
    have hidle : step phr srv c (.tick idle) = c := by simp only [step, hp]
    rw [hidle]
    exact ⟨h, rfl⟩
  | ready n =>
    have hidle : step phr srv c (.ready n) = c := by simp only [step, hp]
    rw [hidle]
    exact ⟨h, rfl⟩
  | readClosed =>
    have hidle : step phr srv c .readClosed = c := by simp only [step, hp]
    rw [hidle]
    exact ⟨h, rfl⟩
  | took n =>
    have hstep : step phr srv c (.took n) =
        if (c.out.drop c.outOff).take n = [] then settle c
        else connDoSend phr srv (c.wrote ((c.out.drop c.outOff).take n)) := by
      simp only [step, hp, Conn.wrote]
    rw [hstep]
    generalize (c.out.drop c.outOff).take n = b
    split
    · rw [settle_eq (by rw [hstate]; decide) hin]
      refine h.goto hin ?_
      rcases hsend with hwhole | hclose
      · have hcurrent := hwhole.current
        exact .replying hstate ⟨hcurrent.header, hcurrent.nonempty, hcurrent.inside,
          hcurrent.small⟩ hwhole.whole hwhole.room (Or.inl rfl)
      · exact .ending hstate hclose (Or.inl rfl)
    · have hpos : Framed phr stream (c.wrote b).ahead := h.position hin
      have hquiet := @connDoSend_quiet _ phr srv stream (c.wrote b) hin hpos hstate
        (wrote_phase hsend b)
      have hsame : (c.wrote b).dispatched = c.dispatched := rfl
      exact ⟨hquiet.kept, hquiet.dispatched.trans hsame⟩
  | writeFailed =>
    have hstep : step phr srv c .writeFailed = settle (connClose c) := by simp only [step, hp]
    rw [hstep]
    exact Quiet.closed rfl rfl rfl

/-- A connection in front of its `read`. -/
theorem step_reading (hsound : PhrSound phr) (h : FramingInv phr stream c) (hin : c.inUse = true)
    {afterReset : Bool} (hp : c.point = .reading afterReset) (e : Event) :
    StepCase phr stream c e (step phr srv c e) := by
  have hrest : (∀ n, e ≠ .ready n) → ∀ len req, ¬ParsesIn phr c e len req :=
    fun hno => not_parsesIn fun _ n _ he => absurd he (hno n)
  cases e with
  | tick idle =>
    have hidle : step phr srv c (.tick idle) = c := by simp only [step, hp]
    rw [hidle]
    exact .quiet (hrest fun _ he => by cases he) ⟨h, rfl⟩
  | readClosed =>
    have hstep : step phr srv c .readClosed = recvBack phr srv afterReset (connClose c) := by
      simp only [step, hp]
    rw [hstep, recvBack_closed rfl]
    exact .quiet (hrest fun _ he => by cases he) (Quiet.closed rfl rfl rfl)
  | took n =>
    have hidle : step phr srv c (.took n) = c := by simp only [step, hp]
    rw [hidle]
    exact .quiet (hrest fun _ he => by cases he) ⟨h, rfl⟩
  | writeFailed =>
    have hidle : step phr srv c .writeFailed = c := by simp only [step, hp]
    rw [hidle]
    exact .quiet (hrest fun _ he => by cases he) ⟨h, rfl⟩
  | ready n =>
    have hpre := delivered_prefix c n
    have hle := length_delivered_le c n
    have hlen := length_receive c (c.delivered (.ready n))
    have hahead := ahead_receive hpre
    have hpos : Framed phr stream (c.receive (c.delivered (.ready n))).ahead := by
      rw [hahead]
      exact h.position hin
    by_cases hnone : c.delivered (.ready n) = []
    · have hno : ∀ len req, ¬ParsesIn phr c (.ready n) len req := not_parsesIn fun _ _ _ _ _ => hnone
      have hwait : c.state = .recvHeaders ∨ c.state = .recvBody := by
        cases h.phase hin with
        | headers hs hshort hpoint => exact Or.inl hs
        | body hs hcurrent hshort hpoint => exact Or.inr hs
        | replying hs hcurrent hwhole hroom hpoint =>
          rw [hp] at hpoint
          rcases hpoint with hno | hno <;> cases hno
        | ending hs hclose hpoint =>
          rw [hp] at hpoint
          rcases hpoint with hno | hno <;> cases hno
      have hstep : step phr srv c (.ready n) = c.goto .waiting := by
        simp only [step, hp, if_pos hnone]
        exact recvBack_waiting hwait hin afterReset
      rw [hstep]
      refine .quiet hno (h.goto hin ?_)
      cases h.phase hin with
      | headers hs hshort hpoint => exact .headers hs hshort (Or.inl rfl)
      | body hs hcurrent hshort hpoint =>
        exact .body hs ⟨hcurrent.header, hcurrent.nonempty, hcurrent.inside, hcurrent.small⟩ hshort
          (Or.inl rfl)
      | replying hs hcurrent hwhole hroom hpoint => rcases hwait with hw | hw <;> simp [hs] at hw
      | ending hs hclose hpoint => rcases hwait with hw | hw <;> simp [hs] at hw
    · have hstep : step phr srv c (.ready n) =
          afterRead phr srv afterReset (c.receive (c.delivered (.ready n))) := by
        simp only [step, hp, if_neg hnone]
      rw [hstep]
      cases h.phase hin with
      | headers hs hshort hpoint =>
        rw [Conn.room, if_pos hs] at hle
        have hroom : (c.receive (c.delivered (.ready n))).inBuf.length ≤ hdrCap := by omega
        by_cases hparse : ∃ len req, phr ((c.receive (c.delivered (.ready n))).inBuf.take hdrCap)
            (c.receive (c.delivered (.ready n))).lastLen = .ok len req
        · obtain ⟨len, req, hphr⟩ := hparse
          have houtcome := @afterRead_parsed _ phr srv stream (c.receive (c.delivered (.ready n)))
            hsound len req hs hin hroom hpos hphr afterReset
          exact .parsed ⟨afterReset, n, hp, rfl, hs, hnone, hphr⟩ (houtcome.received hpre)
        · have hnoparse : ∀ len req, phr ((c.receive (c.delivered (.ready n))).inBuf.take hdrCap)
              (c.receive (c.delivered (.ready n))).lastLen ≠ .ok len req :=
            fun len req hok => hparse ⟨len, req, hok⟩
          have hquiet := @afterRead_unparsed _ phr srv stream (c.receive (c.delivered (.ready n)))
            hs hin hpos hnoparse afterReset
          refine .quiet ?_ ⟨hquiet.kept, hquiet.dispatched⟩
          rintro len req ⟨-, m, -, he, -, -, hok⟩
          exact hnoparse len req hok
      | body hs hcurrent hshort hpoint =>
        have hno : ∀ len req, ¬ParsesIn phr c (.ready n) len req :=
          not_parsesIn_of_state (by rw [hs]; decide)
        obtain ⟨req, hheader, hframing⟩ := hcurrent.header
        have hsmall := hcurrent.small
        have hinside := hcurrent.inside
        rw [Conn.room, hs, if_neg (by decide)] at hle
        have hcur : Current phr (c.receive (c.delivered (.ready n))) := by
          refine ⟨⟨req, ?_, hframing⟩, hcurrent.nonempty, ?_, hsmall⟩
          · rw [hahead]
            exact hheader
          · change c.headerLen ≤ (c.receive (c.delivered (.ready n))).inBuf.length
            omega
        have hstate : (c.receive (c.delivered (.ready n))).state = .recvBody := hs
        rw [afterRead, if_neg (by rw [hstate]; decide)]
        by_cases hwhole : (c.receive (c.delivered (.ready n))).headerLen +
            (c.receive (c.delivered (.ready n))).contentLength ≤
            (c.receive (c.delivered (.ready n))).inBuf.length
        · rw [if_pos hwhole]
          have hneed : (c.receive (c.delivered (.ready n))).inBuf.length ≤
              (c.receive (c.delivered (.ready n))).headerLen +
                (c.receive (c.delivered (.ready n))).contentLength := by
            change _ ≤ c.headerLen + c.contentLength
            omega
          have hready : Whole phr (c.receive (c.delivered (.ready n))) :=
            ⟨hcur, hwhole, hneed.trans (le_max_right _ _)⟩
          have hy := @handed_handleRequest _ srv (c.receive (c.delivered (.ready n)))
          have hfinal : (handleRequest srv (c.receive (c.delivered (.ready n)))).state = .send ∧
              (handleRequest srv (c.receive (c.delivered (.ready n)))).inUse = true ∧
              (handleRequest srv (c.receive (c.delivered (.ready n)))).outOff <
                (handleRequest srv (c.receive (c.delivered (.ready n)))).out.length ∨
              (handleRequest srv (c.receive (c.delivered (.ready n)))).state = .close := by
            rcases hy.outcome with ⟨hst, ho, -, -, hlt⟩ | ⟨hst, -⟩
            · exact Or.inl ⟨hst, ho.trans hin, hlt⟩
            · exact Or.inr hst
          have hgrown := (@recvBack_fields _ phr srv _ hfinal afterReset).2.2.1.trans hy.dispatched
          have hbody := hready.promise
          rw [BodyPromised, hahead] at hbody
          exact .handed hno (hy.inv hin hpos hready afterReset) hgrown hbody
        · rw [if_neg hwhole, connDoRecv_reading (hcur.reads hstate (not_le.mp hwhole))]
          refine .quiet hno ⟨⟨fun _ => hpos,
            fun hclosed => absurd (hin.symm.trans hclosed) Bool.false_ne_true.symm, fun _ => ?_⟩, rfl⟩
          exact .body hstate ⟨hcur.header, hcur.nonempty, hcur.inside, hcur.small⟩
            (not_le.mp hwhole) (Or.inr ⟨afterReset, rfl⟩)
      | replying hs hcurrent hwhole hroom hpoint =>
        rw [hp] at hpoint
        rcases hpoint with hno | hno <;> cases hno
      | ending hs hclose hpoint =>
        rw [hp] at hpoint
        rcases hpoint with hno | hno <;> cases hno

/-- What a step can do. -/
theorem step_cases (hsound : PhrSound phr) (h : FramingInv phr stream c) (e : Event) :
    StepCase phr stream c e (step phr srv c e) := by
  have hdone : c.point = .done → StepCase phr stream c e (step phr srv c e) := by
    intro hp
    have hidle : step phr srv c e = c := by cases e <;> simp only [step, hp]
    rw [hidle]
    exact .quiet (not_parsesIn_of_point fun _ hno => by rw [hp] at hno; cases hno) ⟨h, rfl⟩
  cases hin : c.inUse with
  | false => exact hdone (h.closed hin)
  | true =>
    cases hp : c.point with
    | waiting =>
      exact .quiet (not_parsesIn_of_point fun _ hno => by rw [hp] at hno; cases hno)
        (step_waiting h hin hp e)
    | reading afterReset => exact step_reading hsound h hin hp e
    | writing =>
      exact .quiet (not_parsesIn_of_point fun _ hno => by rw [hp] at hno; cases hno)
        (step_writing h hin hp e)
    | done => exact hdone hp

/-- A step keeps the invariant under the condition. -/
theorem framingInv_step (hsound : PhrSound phr) (h : FramingInv phr stream c) {e : Event}
    (hok : ReadsAsWritten phr c e) : FramingInv phr stream (step phr srv c e) := by
  cases @step_cases _ phr srv stream c hsound h e with
  | parsed hparses houtcome => exact houtcome.kept (hok _ _ hparses)
  | quiet hno hquiet => exact hquiet.kept
  | handed hno hkept hgrown hbody => exact hkept

theorem parsesIn_unique {e : Event} {len len' : ℕ} {req req' : PhrRequest}
    (h : ParsesIn phr c e len req) (h' : ParsesIn phr c e len' req') : len' = len ∧ req' = req := by
  obtain ⟨-, n, -, -, -, -, hphr⟩ := h
  obtain ⟨-, n', -, -, -, -, hphr'⟩ := h'
  rw [hphr, PhrResult.ok.injEq] at hphr'
  exact ⟨hphr'.1.symm, hphr'.2.symm⟩

theorem framedExactly_iff (hsound : PhrSound phr) (h : FramingInv phr stream c) (e : Event) :
    FramedExactly phr srv stream c e ↔ ReadsAsWritten phr c e := by
  constructor
  · intro hframed len req hparses
    cases @step_cases _ phr srv stream c hsound h e with
    | parsed hparses' houtcome =>
      obtain ⟨rfl, rfl⟩ := parsesIn_unique hparses' hparses
      exact houtcome.answered.mp (hframed.answered _ _ hparses)
    | quiet hno hquiet => exact absurd hparses (hno len req)
    | handed hno hkept hgrown hbody => exact absurd hparses (hno len req)
  · intro hok
    have hkept := @framingInv_step _ phr srv stream c hsound h e hok
    refine ⟨fun len req hparses => ?_, fun r hr => ?_, hkept.position⟩
    · cases @step_cases _ phr srv stream c hsound h e with
      | parsed hparses' houtcome =>
        obtain ⟨rfl, rfl⟩ := parsesIn_unique hparses' hparses
        exact houtcome.answered.mpr (hok _ _ hparses)
      | quiet hno hquiet => exact absurd hparses (hno len req)
      | handed hno hkept hgrown hbody => exact absurd hparses (hno len req)
    · cases @step_cases _ phr srv stream c hsound h e with
      | parsed hparses houtcome => exact houtcome.bodies (hok _ _ hparses) r hr
      | quiet hno hquiet =>
        rw [hquiet.dispatched] at hr
        simp at hr
      | handed hno hkept hgrown hbody =>
        rw [hgrown] at hr
        rw [← List.singleton_inj.mp (List.append_cancel_left hr)]
        exact hbody

theorem hdrCap_pos : 0 < hdrCap := by decide

theorem framingInv_accepted (server : σ) (stream : Bytes) :
    FramingInv phr stream (accepted server stream) :=
  ⟨fun _ => .start, fun hno => (by cases hno),
    fun _ => .headers rfl hdrCap_pos (Or.inl rfl)⟩

/-- In every run of a connection each header block that parses is answered as its fields
ask, each request handed on has the body they declare, and what is left of the stream starts
behind whole requests, exactly when every block that parses is read as it is written. -/
theorem framed_exactly_iff (hsound : PhrSound phr) (srv : Server σ) (server : σ) (stream : Bytes)
    (events : List Event) :
    Along (step phr srv) (FramedExactly phr srv stream) (accepted server stream) events ↔
      Along (step phr srv) (ReadsAsWritten phr) (accepted server stream) events := by
  have hstep : ∀ c e, FramingInv phr stream c → True → ReadsAsWritten phr c e →
      FramingInv phr stream (step phr srv c e) := fun _ _ h _ hok => framingInv_step hsound h hok
  have hiff : ∀ c e, FramingInv phr stream c → True →
      (FramedExactly phr srv stream c e ↔ ReadsAsWritten phr c e) :=
    fun _ e h _ => framedExactly_iff hsound h e
  exact @along_congr _ _ _ (FramingInv phr stream) _ _ (fun _ => True) hstep hiff _
    (framingInv_accepted server stream) _ fun _ _ => trivial

section Example

/-- A request with a `Content-Length` of that text. -/
def postHead (v : Bytes) : Bytes :=
  ascii "POST /a HTTP/1.1\r\nContent-Length: " ++ v ++ ascii "\r\n\r\n"

/-- The parser on buffers of that request. -/
def postPhr (v : Bytes) : PhrParse := fun b _ =>
  if (postHead v).isPrefixOf b then
    .ok (postHead v).length ⟨ascii "POST", ascii "/a", 1, [⟨some (ascii "Content-Length"), v⟩]⟩
  else if b.isPrefixOf (postHead v) then .incomplete else .malformed

theorem postPhr_sound (v : Bytes) : PhrSound (postPhr v) := by
  have hok : ∀ b last len req, postPhr v b last = .ok len req →
      len = (postHead v).length ∧ req.minor = 1 ∧ postHead v <+: b := by
    intro b last len req h
    unfold postPhr at h
    split_ifs at h with hpre
    cases h
    exact ⟨rfl, rfl, List.isPrefixOf_iff_prefix.mp hpre⟩
  constructor
  · intro b last len req h
    obtain ⟨rfl, -, hpre⟩ := hok b last len req h
    refine ⟨?_, hpre.length_le⟩
    have hlen : (ascii "POST /a HTTP/1.1\r\nContent-Length: ").length ≤ (postHead v).length := by
      rw [postHead, List.append_assoc, List.length_append]
      exact Nat.le_add_right _ _
    have hpos : 0 < (ascii "POST /a HTTP/1.1\r\nContent-Length: ").length := by decide
    omega
  · intro b last len req h
    rw [(hok b last len req h).2.1]
    decide

/-- A request and its body arrive in one `read`. -/
def postEvents : List Event := [.tick false, .ready 100]

theorem framed_exactly_iff_five :
    Along (step (postPhr (ascii "5")) helloServer)
        (FramedExactly (postPhr (ascii "5")) helloServer (postHead (ascii "5") ++ ascii "hello"))
        (accepted () (postHead (ascii "5") ++ ascii "hello")) postEvents ↔
      Along (step (postPhr (ascii "5")) helloServer) (ReadsAsWritten (postPhr (ascii "5")))
        (accepted () (postHead (ascii "5") ++ ascii "hello")) postEvents :=
  framed_exactly_iff (postPhr_sound (ascii "5")) helloServer () _ postEvents

/-- A length of `5x` is taken for five bytes. -/
theorem length_with_tail_taken :
    ¬Along (step (postPhr (ascii "5x")) helloServer)
      (FramedExactly (postPhr (ascii "5x")) helloServer (postHead (ascii "5x") ++ ascii "hello"))
      (accepted () (postHead (ascii "5x") ++ ascii "hello")) postEvents := by
  rintro ⟨-, hread, -⟩
  have hparses : ParsesIn (postPhr (ascii "5x"))
      (step (postPhr (ascii "5x")) helloServer
        (accepted () (postHead (ascii "5x") ++ ascii "hello")) (.tick false)) (.ready 100)
      (postHead (ascii "5x")).length
      ⟨ascii "POST", ascii "/a", 1, [⟨some (ascii "Content-Length"), ascii "5x"⟩]⟩ :=
    ⟨false, 100, by decide +kernel, rfl, by decide +kernel, by decide +kernel, by decide +kernel⟩
  have hamb : Ambiguous [⟨some (ascii "Content-Length"), ascii "5x"⟩] := by
    refine Or.inr (Or.inl ⟨ascii "5x", by decide +kernel, fun hdigits => ?_⟩)
    have hx := hdigits.2 120 (by decide)
    revert hx
    decide
  have hgrown : (step (postPhr (ascii "5x")) helloServer (step (postPhr (ascii "5x")) helloServer
      (accepted () (postHead (ascii "5x") ++ ascii "hello")) (.tick false))
      (.ready 100)).dispatched ≠ (step (postPhr (ascii "5x")) helloServer
      (accepted () (postHead (ascii "5x") ++ ascii "hello")) (.tick false)).dispatched := by
    decide +kernel
  rcases (hread.answered _ _ hparses).refused hamb with hrefused | ⟨-, hrefused⟩
  · exact hgrown hrefused.1
  · exact hgrown hrefused.1

end Example

end MoonFlare.Http
