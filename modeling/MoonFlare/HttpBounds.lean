import MoonFlare.HttpBodies

/-!
# The bounds of a connection's buffers

Reading, parsing, answering, writing and keeping alive move the same few lengths around.
One bound carries them all: what is buffered is never more than the header block may take,
or than the request in front takes. Which connections are handed to `handle_request` on the
way of a step is recorded beside the step.
-/

namespace MoonFlare.Http

open Runs

variable {σ : Type*} (phr : PhrParse) (srv : Server σ)

/-! ## The requests handed on in a step -/

/-- What `parse_headers` hands to `handle_request`. -/
def parseHands (c : Conn σ) : List (Conn σ) :=
  match phr (c.inBuf.take hdrCap) c.lastLen with
  | .ok len req =>
    if (fieldsOf c req).2 = none ∧ (fieldsOf c req).1.contentLength = 0 then [withHeader c len req]
    else []
  | _ => []

/-- What `conn_do_recv` hands on up to its next `read`, or through its return. -/
def recvHands (back : Conn σ → List (Conn σ)) (c : Conn σ) : List (Conn σ) :=
  if c.bodyComplete then c :: back (handleRequest srv c)
  else if c.room = 0 then
    if c.state = .recvHeaders then
      let (c', progressed) := parseHeaders phr srv c
      parseHands phr c ++ back (if progressed then c' else badRequest c')
    else back (badRequest c)
  else []

/-- What `conn_keep_alive_reset` hands on. -/
def resetHands (c : Conn σ) : List (Conn σ) :=
  let used := min (c.headerLen + c.contentLength) c.inBuf.length
  let c := connResetReq { c with inBuf := c.inBuf.drop used }
  if c.inBuf ≠ [] then recvHands phr srv (fun _ => []) c else []

/-- What `conn_do_send` hands on up to its next `write`, or through its end. -/
def sendHands (c : Conn σ) : List (Conn σ) :=
  if c.outOff < c.out.length then []
  else if c.closeAfter then []
  else resetHands phr srv c

/-- What is handed on behind a `conn_do_recv`. -/
def backHands (afterReset : Bool) (c : Conn σ) : List (Conn σ) :=
  if afterReset then [] else if c.state = .send then sendHands phr srv c else []

/-- What the rest of a round of `conn_do_recv` hands on. -/
def readHands (afterReset : Bool) (c : Conn σ) : List (Conn σ) :=
  let back := backHands phr srv afterReset
  if c.state = .recvHeaders then
    let c' := (parseHeaders phr srv c).1.seen
    parseHands phr c ++
      if c'.state = .send ∨ c'.state = .close then back c' else recvHands phr srv back c'
  else if c.headerLen + c.contentLength ≤ c.inBuf.length then c :: back (handleRequest srv c)
  else recvHands phr srv back c

/-- The connections that a step hands to `handle_request`. -/
def handedOn (c : Conn σ) (e : Event) : List (Conn σ) :=
  match c.point, e with
  | .waiting, .tick false =>
    if c.state = .recvHeaders ∨ c.state = .recvBody then
      recvHands phr srv (backHands phr srv false) c
    else backHands phr srv false c
  | .reading afterReset, .ready n =>
    let b := c.delivered (.ready n)
    if b = [] then backHands phr srv afterReset c else readHands phr srv afterReset (c.receive b)
  | .reading afterReset, .readClosed => backHands phr srv afterReset (connClose c)
  | .writing, .took n =>
    let b := (c.out.drop c.outOff).take n
    if b = [] then [] else sendHands phr srv (c.wrote b)
  | _, _ => []

variable {phr srv} {c d : Conn σ}

/-- A continuation hands on what is recorded for it. -/
def Hands (back : Conn σ → Conn σ) (hands : Conn σ → List (Conn σ)) : Prop :=
  ∀ c, (back c).dispatched = c.dispatched ++ (hands c).map Conn.request

theorem dispatched_settle (c : Conn σ) : (settle c).dispatched = c.dispatched := rfl

theorem dispatched_badRequest (c : Conn σ) : (badRequest c).dispatched = c.dispatched :=
  (httpReplyOrClose_replied _ _ _ _ _ _ _).dispatched

theorem dispatched_parseHeaders (c : Conn σ) : (parseHeaders phr srv c).1.dispatched =
    c.dispatched ++ (parseHands phr c).map Conn.request := by
  cases hphr : phr (c.inBuf.take hdrCap) c.lastLen with
  | incomplete =>
    simp only [parseHeaders, parseHands, hphr, List.map_nil, List.append_nil]
    split
    · exact dispatched_badRequest c
    · rfl
  | malformed =>
    simp only [parseHeaders, parseHands, hphr, List.map_nil, List.append_nil]
    exact dispatched_badRequest c
  | ok len req =>
    have hhands : parseHands phr c =
        if (fieldsOf c req).2 = none ∧ (fieldsOf c req).1.contentLength = 0 then
          [withHeader c len req] else [] := by rw [parseHands, hphr]
    cases hrej : (fieldsOf c req).2 with
    | some r =>
      rw [parseHeaders_refused hphr hrej, hhands, hrej, if_neg (by simp), List.map_nil,
        List.append_nil]
      exact (headerReply_replied _ r).dispatched
    | none =>
      have hlen : (withHeader c len req).contentLength = (fieldsOf c req).1.contentLength := rfl
      rw [parseHeaders_taken hphr hrej, hhands, hrej, hlen]
      split
      case isTrue hzero =>
        rw [if_pos ⟨rfl, hzero⟩]
        exact dispatched_handleRequest _
      case isFalse hno =>
        rw [if_neg (fun hand => hno hand.2), List.map_nil, List.append_nil]
        rfl

theorem dispatched_connDoRecv {back : Conn σ → Conn σ} {hands : Conn σ → List (Conn σ)}
    (hback : Hands back hands) (afterReset : Bool) :
    Hands (connDoRecv phr srv afterReset back) (recvHands phr srv hands) := by
  intro c
  unfold connDoRecv recvHands
  split
  · rw [hback, dispatched_handleRequest, List.map_cons, List.append_assoc, List.singleton_append]
  · split
    · split
      · dsimp only
        rw [hback, List.map_append, ← List.append_assoc, ← @dispatched_parseHeaders _ phr srv]
        split
        · rfl
        · rw [dispatched_badRequest]
      · rw [hback, dispatched_badRequest]
    · rw [List.map_nil, List.append_nil]
      rfl

theorem hands_settle : Hands (settle : Conn σ → Conn σ) fun _ => [] := fun c => by
  rw [dispatched_settle, List.map_nil, List.append_nil]

theorem dispatched_connKeepAliveReset :
    Hands (connKeepAliveReset phr srv) (resetHands phr srv) := by
  intro c
  unfold connKeepAliveReset resetHands
  dsimp only
  split
  · rw [dispatched_connDoRecv hands_settle true]
    rfl
  · rw [dispatched_settle, List.map_nil, List.append_nil]
    rfl

theorem dispatched_connDoSend : Hands (connDoSend phr srv) (sendHands phr srv) := by
  intro c
  unfold connDoSend sendHands
  split
  · rw [List.map_nil, List.append_nil]
    rfl
  · split
    · rw [dispatched_settle, List.map_nil, List.append_nil]
      rfl
    · exact dispatched_connKeepAliveReset c

theorem dispatched_recvBack (afterReset : Bool) :
    Hands (recvBack phr srv afterReset) (backHands phr srv afterReset) := by
  intro c
  unfold recvBack backHands
  cases afterReset with
  | true => exact hands_settle c
  | false =>
    simp only [Bool.false_eq_true, if_false]
    unfold afterRecv
    split
    · exact dispatched_connDoSend c
    · exact hands_settle c

theorem dispatched_afterRead (afterReset : Bool) :
    Hands (afterRead phr srv afterReset) (readHands phr srv afterReset) := by
  intro c
  unfold afterRead readHands
  dsimp only
  split
  · rw [List.map_append, ← List.append_assoc, ← @dispatched_parseHeaders _ phr srv]
    split
    · rw [dispatched_recvBack]
      rfl
    · rw [dispatched_connDoRecv (dispatched_recvBack afterReset)]
      rfl
  · split
    · rw [dispatched_recvBack, dispatched_handleRequest, List.map_cons, List.append_assoc,
        List.singleton_append]
    · exact dispatched_connDoRecv (dispatched_recvBack afterReset) afterReset c

/-- What a step comes to, with what it hands on. -/
inductive Course (phr : PhrParse) (srv : Server σ) (c : Conn σ) : Conn σ → List (Conn σ) → Prop
  | stays : Course phr srv c c []
  | settles : Course phr srv c (settle c) []
  | closes : Course phr srv c (settle (connClose c)) []
  | receives :
      Course phr srv c (connDoRecv phr srv false (recvBack phr srv false) c)
        (recvHands phr srv (backHands phr srv false) c)
  | returns (afterReset : Bool) :
      Course phr srv c (recvBack phr srv afterReset c) (backHands phr srv afterReset c)
  | hangsUp (afterReset : Bool) :
      Course phr srv c (recvBack phr srv afterReset (connClose c))
        (backHands phr srv afterReset (connClose c))
  | reads (afterReset : Bool) (n : ℕ) :
      Course phr srv c (afterRead phr srv afterReset (c.receive (c.delivered (.ready n))))
        (readHands phr srv afterReset (c.receive (c.delivered (.ready n))))
  | writes (b : Bytes) (hb : b.length ≤ c.out.length - c.outOff) :
      Course phr srv c (connDoSend phr srv (c.wrote b)) (sendHands phr srv (c.wrote b))

theorem course_waiting (hpoint : c.point = .waiting) (e : Event) :
    Course phr srv c (step phr srv c e) (handedOn phr srv c e) := by
  cases e with
  | tick idle =>
    cases idle with
    | true =>
      simp only [step, handedOn, hpoint]
      exact .closes
    | false =>
      simp only [step, handedOn, hpoint]
      split
      · exact .receives
      · exact .returns false
  | _ =>
    simp only [step, handedOn, hpoint]
    exact .stays

theorem course_reading {afterReset : Bool} (hpoint : c.point = .reading afterReset) (e : Event) :
    Course phr srv c (step phr srv c e) (handedOn phr srv c e) := by
  cases e with
  | ready n =>
    simp only [step, handedOn, hpoint]
    split
    · exact .returns afterReset
    · exact .reads afterReset n
  | readClosed =>
    simp only [step, handedOn, hpoint]
    exact .hangsUp afterReset
  | _ =>
    simp only [step, handedOn, hpoint]
    exact .stays

theorem course_writing (hpoint : c.point = .writing) (e : Event) :
    Course phr srv c (step phr srv c e) (handedOn phr srv c e) := by
  cases e with
  | took n =>
    have hlen : ((c.out.drop c.outOff).take n).length ≤ c.out.length - c.outOff := by
      rw [List.length_take, List.length_drop]
      exact Nat.min_le_right _ _
    have hstep : step phr srv c (.took n) = if (c.out.drop c.outOff).take n = [] then settle c
        else connDoSend phr srv (c.wrote ((c.out.drop c.outOff).take n)) := by
      simp only [step, hpoint, Conn.wrote]
    have hhands : handedOn phr srv c (.took n) = if (c.out.drop c.outOff).take n = [] then []
        else sendHands phr srv (c.wrote ((c.out.drop c.outOff).take n)) := by
      simp only [handedOn, hpoint]
    rw [hstep, hhands]
    split
    · exact .settles
    · exact .writes _ hlen
  | writeFailed =>
    simp only [step, handedOn, hpoint]
    exact .closes
  | _ =>
    simp only [step, handedOn, hpoint]
    exact .stays

theorem course_step (c : Conn σ) (e : Event) :
    Course phr srv c (step phr srv c e) (handedOn phr srv c e) := by
  cases hpoint : c.point with
  | waiting => exact course_waiting hpoint e
  | reading afterReset => exact course_reading hpoint e
  | writing => exact course_writing hpoint e
  | done =>
    simp only [step, handedOn, hpoint]
    exact .stays

/-- The record is complete: a step hands on the requests of these connections and no other. -/
theorem dispatched_step (c : Conn σ) (e : Event) :
    (step phr srv c e).dispatched = c.dispatched ++ (handedOn phr srv c e).map Conn.request := by
  have hcourse := @course_step _ phr srv c e
  generalize step phr srv c e = y at hcourse ⊢
  generalize handedOn phr srv c e = hands at hcourse ⊢
  cases hcourse with
  | stays => rw [List.map_nil, List.append_nil]
  | settles => rw [dispatched_settle, List.map_nil, List.append_nil]
  | closes =>
    rw [dispatched_settle, List.map_nil, List.append_nil]
    rfl
  | receives => exact @dispatched_connDoRecv _ phr srv _ _ (dispatched_recvBack false) false c
  | returns afterReset => exact @dispatched_recvBack _ phr srv afterReset c
  | hangsUp afterReset => exact @dispatched_recvBack _ phr srv afterReset (connClose c)
  | reads afterReset n =>
    exact @dispatched_afterRead _ phr srv afterReset (c.receive (c.delivered (.ready n)))
  | writes b hb => exact @dispatched_connDoSend _ phr srv _

/-! ## The lengths -/

/-- The bounds of a connection's lengths. -/
structure Bounds (c : Conn σ) : Prop where
  inLen : c.inBuf.length ≤ inCap
  headerLen : c.headerLen ≤ hdrCap
  contentLength : c.contentLength ≤ bodyCap
  outOff : c.outOff ≤ c.out.length
  outLen : c.out.length < outCap
  headers : c.state = .recvHeaders → c.inBuf.length ≤ hdrCap

/-- The bounds as every path keeps them: no more is buffered than the header block may
take, or than the request in front takes. -/
structure Kept (c : Conn σ) : Prop where
  inLen : c.inBuf.length ≤ max hdrCap (c.headerLen + c.contentLength)
  headerLen : c.headerLen ≤ hdrCap
  contentLength : c.contentLength ≤ bodyCap
  outOff : c.outOff ≤ c.out.length
  outLen : c.out.length < outCap
  headers : c.state = .recvHeaders → c.inBuf.length ≤ hdrCap

theorem Kept.bounds (h : Kept c) : Bounds c := by
  refine ⟨?_, h.headerLen, h.contentLength, h.outOff, h.outLen, h.headers⟩
  have hin := h.inLen
  have hhead := h.headerLen
  have hbody := h.contentLength
  unfold inCap
  omega

/-- A connection in front of `read` has room. -/
def HasRoom (c : Conn σ) : Prop := ∀ afterReset, c.point = .reading afterReset → 0 < c.room

/-- A continuation keeps the bounds. -/
def Keeps (back : Conn σ → Conn σ) : Prop := ∀ c, Kept c → Kept (back c) ∧ HasRoom (back c)

theorem Kept.goto (h : Kept c) (p : Point) : Kept (c.goto p) :=
  ⟨h.inLen, h.headerLen, h.contentLength, h.outOff, h.outLen, h.headers⟩

theorem Kept.seen (h : Kept c) : Kept c.seen :=
  ⟨h.inLen, h.headerLen, h.contentLength, h.outOff, h.outLen, h.headers⟩

theorem kept_connClose (h : Kept c) : Kept (connClose c) :=
  ⟨Nat.zero_le _, h.headerLen, h.contentLength, h.outOff, h.outLen, fun hno => by cases hno⟩

theorem hasRoom_goto {p : Point} (hp : ∀ afterReset, p ≠ .reading afterReset) :
    HasRoom (c.goto p) := fun afterReset h => absurd h (hp afterReset)

theorem keeps_settle : Keeps (settle : Conn σ → Conn σ) := fun c h =>
  ⟨h.goto _, hasRoom_goto fun afterReset => by split <;> exact fun hno => by cases hno⟩

/-- A reply fits `out`, or the connection is closed. -/
theorem kept_httpReplyOrClose (h : Kept c) (status : ℕ) (reason : String) (body : CString)
    (force : Bool) (location etag : CString) :
    Kept (httpReplyOrClose c status reason body force location etag) := by
  unfold httpReplyOrClose httpReply
  dsimp only
  split
  · exact kept_connClose h
  · next hfits =>
    refine ⟨h.inLen, h.headerLen, h.contentLength, Nat.zero_le _, ?_, fun hno => by cases hno⟩
    change (_ ++ body.bytes).length < outCap
    rw [List.length_append]
    exact not_le.mp hfits

theorem kept_badRequest (h : Kept c) : Kept (badRequest c) := kept_httpReplyOrClose h _ _ _ _ _ _

theorem kept_headerReply (h : Kept c) (r : HeaderReject) : Kept (headerReply c r) := by
  cases r with
  | chunked => exact kept_httpReplyOrClose h _ _ _ _ _ _
  | badLength => exact kept_badRequest h
  | tooLarge => exact kept_httpReplyOrClose h _ _ _ _ _ _

theorem kept_handleRequest (h : Kept c) : Kept (handleRequest srv c) := by
  have hserved : Kept { c with
      dispatched := c.dispatched ++ [c.request], server := (answer srv c.server c.request).2.2 } :=
    ⟨h.inLen, h.headerLen, h.contentLength, h.outOff, h.outLen, h.headers⟩
  exact kept_httpReplyOrClose hserved _ _ _ _ _ _

/-- The header loop takes no length above the cap, refused or not. -/
theorem headerLoop_cap {f : HeaderFields} (hf : f.contentLength ≤ bodyCap) (hs : List PhrHeader) :
    (headerLoop f hs).1.contentLength ≤ bodyCap := by
  have hround (f : HeaderFields) (hf : f.contentLength ≤ bodyCap) (h : PhrHeader) :
      (headerStep f h).1.contentLength ≤ bodyCap := by
    unfold headerStep
    split
    · exact hf
    split
    · split
      · exact hf
      · split_ifs with hover hlarge
        · exact hf
        · exact hf
        · exact not_lt.mp hlarge
    split_ifs <;> exact hf
  induction hs generalizing f with
  | nil => exact hf
  | cons h hs ih =>
    have hfirst := hround f hf h
    rw [headerLoop]
    split
    · next heq =>
      rw [heq] at hfirst
      exact ih hfirst
    · next heq =>
      rw [heq] at hfirst
      exact hfirst

theorem kept_withHeader (hsound : PhrSound phr) (h : Kept c) (hshort : c.inBuf.length ≤ hdrCap)
    {len : ℕ} {req : PhrRequest} (hphr : phr (c.inBuf.take hdrCap) c.lastLen = .ok len req) :
    Kept (withHeader c len req) := by
  have hlen := (hsound.length _ _ _ _ hphr).2
  refine ⟨hshort.trans (le_max_left _ _), ?_, headerLoop_cap (Nat.zero_le _) _, h.outOff,
    h.outLen, fun _ => hshort⟩
  exact hlen.trans (List.length_take_le _ _)

theorem kept_parseHeaders (hsound : PhrSound phr) (h : Kept c) (hstate : c.state = .recvHeaders) :
    Kept (parseHeaders phr srv c).1 := by
  have hshort := h.headers hstate
  cases hphr : phr (c.inBuf.take hdrCap) c.lastLen with
  | incomplete =>
    simp only [parseHeaders, hphr]
    split
    · dsimp only
      exact kept_badRequest h
    · exact h
  | malformed =>
    simp only [parseHeaders, hphr]
    exact kept_badRequest h
  | ok len req =>
    have hheader := kept_withHeader hsound h hshort hphr
    cases hrej : (fieldsOf c req).2 with
    | some r =>
      rw [parseHeaders_refused hphr hrej]
      exact kept_headerReply hheader r
    | none =>
      rw [parseHeaders_taken hphr hrej]
      split
      · exact kept_handleRequest hheader
      · exact ⟨hheader.inLen, hheader.headerLen, hheader.contentLength, hheader.outOff,
          hheader.outLen, fun hno => by cases hno⟩

/-- `read` fills no more than the room it was asked for. -/
theorem Kept.receive (h : Kept c) {b : Bytes} (hb : b.length ≤ c.room) : Kept (c.receive b) := by
  have hin := h.inLen
  have hlen : (c.receive b).inBuf.length = c.inBuf.length + b.length := List.length_append
  unfold Conn.room at hb
  refine ⟨?_, h.headerLen, h.contentLength, h.outOff, h.outLen, fun hstate => ?_⟩
  · rw [hlen]
    change _ ≤ max hdrCap (c.headerLen + c.contentLength)
    split at hb
    · next hstate =>
      have hshort := h.headers hstate
      omega
    · omega
  · have hshort := h.headers hstate
    rw [if_pos (show c.state = .recvHeaders from hstate)] at hb
    rw [hlen]
    omega

/-- `write` takes no more than is left. -/
theorem Kept.wrote (h : Kept c) {b : Bytes} (hb : c.outOff + b.length ≤ c.out.length) :
    Kept (c.wrote b) :=
  ⟨h.inLen, h.headerLen, h.contentLength, hb, h.outLen, h.headers⟩

/-- What is left behind the request in front is no more than a header block may take. -/
theorem Kept.reset (h : Kept c) : Kept (connResetReq
    { c with inBuf := c.inBuf.drop (min (c.headerLen + c.contentLength) c.inBuf.length) }) := by
  have hin := h.inLen
  have hout : 0 < outCap := by decide
  have hlen : (c.inBuf.drop (min (c.headerLen + c.contentLength) c.inBuf.length)).length ≤
      hdrCap := by
    rw [List.length_drop]
    omega
  exact ⟨hlen.trans (le_max_left _ _), Nat.zero_le _, Nat.zero_le _, le_rfl, hout, fun _ => hlen⟩

/-! ## A step -/

theorem keeps_connDoRecv (hsound : PhrSound phr) {back : Conn σ → Conn σ} (hback : Keeps back)
    (afterReset : Bool) : Keeps (connDoRecv phr srv afterReset back) := by
  intro c h
  unfold connDoRecv
  split
  · exact hback _ (kept_handleRequest h)
  · split
    · split
      · next hstate =>
        have hparsed := @kept_parseHeaders _ phr srv c hsound h hstate
        dsimp only
        split
        · exact hback _ hparsed
        · exact hback _ (kept_badRequest hparsed)
      · exact hback _ (kept_badRequest h)
    · next hroom => exact ⟨h.goto _, fun _ _ => Nat.pos_of_ne_zero hroom⟩

theorem keeps_connKeepAliveReset (hsound : PhrSound phr) : Keeps (connKeepAliveReset phr srv) := by
  intro c h
  unfold connKeepAliveReset
  dsimp only
  split
  · exact keeps_connDoRecv hsound keeps_settle true _ h.reset
  · exact keeps_settle _ h.reset

theorem keeps_connDoSend (hsound : PhrSound phr) : Keeps (connDoSend phr srv) := by
  intro c h
  unfold connDoSend
  split
  · exact ⟨h.goto _, hasRoom_goto fun _ hno => by cases hno⟩
  · split
    · exact keeps_settle _ (kept_connClose h)
    · exact keeps_connKeepAliveReset hsound c h

theorem keeps_recvBack (hsound : PhrSound phr) (afterReset : Bool) :
    Keeps (recvBack phr srv afterReset) := by
  intro c h
  unfold recvBack
  cases afterReset with
  | true => exact keeps_settle c h
  | false =>
    simp only [Bool.false_eq_true, if_false]
    unfold afterRecv
    split
    · exact keeps_connDoSend hsound c h
    · exact keeps_settle c h

theorem keeps_afterRead (hsound : PhrSound phr) (afterReset : Bool) :
    Keeps (afterRead phr srv afterReset) := by
  intro c h
  unfold afterRead
  dsimp only
  split
  · next hstate =>
    have hparsed := (@kept_parseHeaders _ phr srv c hsound h hstate).seen
    split
    · exact keeps_recvBack hsound afterReset _ hparsed
    · exact keeps_connDoRecv hsound (keeps_recvBack hsound afterReset) afterReset _ hparsed
  · split
    · exact keeps_recvBack hsound afterReset _ (kept_handleRequest h)
    · exact keeps_connDoRecv hsound (keeps_recvBack hsound afterReset) afterReset _ h

theorem kept_step (hsound : PhrSound phr) (h : Kept c) (hroom : HasRoom c) (e : Event) :
    Kept (step phr srv c e) ∧ HasRoom (step phr srv c e) := by
  have hcourse := @course_step _ phr srv c e
  generalize step phr srv c e = y at hcourse ⊢
  generalize handedOn phr srv c e = hands at hcourse
  cases hcourse with
  | stays => exact ⟨h, hroom⟩
  | settles => exact keeps_settle c h
  | closes => exact keeps_settle _ (kept_connClose h)
  | receives => exact keeps_connDoRecv hsound (keeps_recvBack hsound false) false c h
  | returns afterReset => exact keeps_recvBack hsound afterReset c h
  | hangsUp afterReset => exact keeps_recvBack hsound afterReset _ (kept_connClose h)
  | reads afterReset n =>
    exact keeps_afterRead hsound afterReset _ (h.receive (length_delivered_le c n))
  | writes b hb =>
    have hout := h.outOff
    exact keeps_connDoSend hsound _ (h.wrote (by omega))

/-! ## The requests handed on -/

/-- A request with a body is handed on with the whole of it buffered. -/
def Complete (d : Conn σ) : Prop :=
  0 < d.contentLength → d.headerLen + d.contentLength ≤ d.inBuf.length

/-- A continuation hands on whole requests only, from connections within the bounds. -/
def HandsWhole (hands : Conn σ → List (Conn σ)) : Prop :=
  ∀ c, Kept c → ∀ d ∈ hands c, Kept d ∧ Complete d

theorem handsWhole_nil : HandsWhole fun _ : Conn σ => [] := fun _ _ _ hd => by cases hd

/-- A request without a body is handed on by `parse_headers`. -/
theorem handsWhole_parse (hsound : PhrSound phr) (h : Kept c) (hstate : c.state = .recvHeaders) :
    ∀ d ∈ parseHands phr c, Kept d ∧ Complete d := by
  intro d hd
  unfold parseHands at hd
  split at hd
  · next len req hphr =>
    split at hd
    · next hnone =>
      obtain rfl := List.mem_singleton.mp hd
      refine ⟨kept_withHeader hsound h (h.headers hstate) hphr, fun hpos => ?_⟩
      exact absurd hnone.2 (Nat.pos_iff_ne_zero.mp hpos)
    · cases hd
  · cases hd

theorem handsWhole_recv (hsound : PhrSound phr) {hands : Conn σ → List (Conn σ)}
    (hhands : HandsWhole hands) : HandsWhole (recvHands phr srv hands) := by
  intro c h d hd
  unfold recvHands at hd
  split at hd
  · next hwhole =>
    rcases List.mem_cons.mp hd with rfl | hrest
    · exact ⟨h, fun _ => hwhole.2⟩
    · exact hhands _ (kept_handleRequest h) d hrest
  · split at hd
    · split at hd
      · next hstate =>
        have hparsed := @kept_parseHeaders _ phr srv c hsound h hstate
        dsimp only at hd
        rcases List.mem_append.mp hd with hparse | hrest
        · exact handsWhole_parse hsound h hstate d hparse
        · split at hrest
          · exact hhands _ hparsed d hrest
          · exact hhands _ (kept_badRequest hparsed) d hrest
      · exact hhands _ (kept_badRequest h) d hd
    · cases hd

theorem handsWhole_send (hsound : PhrSound phr) : HandsWhole (sendHands phr srv) := by
  intro c h d hd
  unfold sendHands resetHands at hd
  split at hd
  · cases hd
  · split at hd
    · cases hd
    · dsimp only at hd
      split at hd
      · exact handsWhole_recv hsound handsWhole_nil _ h.reset d hd
      · cases hd

theorem handsWhole_back (hsound : PhrSound phr) (afterReset : Bool) :
    HandsWhole (backHands phr srv afterReset) := by
  intro c h d hd
  unfold backHands at hd
  split at hd
  · cases hd
  · split at hd
    · exact handsWhole_send hsound c h d hd
    · cases hd

theorem handsWhole_read (hsound : PhrSound phr) (afterReset : Bool) :
    HandsWhole (readHands phr srv afterReset) := by
  intro c h d hd
  unfold readHands at hd
  dsimp only at hd
  split at hd
  · next hstate =>
    have hparsed := (@kept_parseHeaders _ phr srv c hsound h hstate).seen
    rcases List.mem_append.mp hd with hparse | hrest
    · exact handsWhole_parse hsound h hstate d hparse
    · split at hrest
      · exact handsWhole_back hsound afterReset _ hparsed d hrest
      · exact handsWhole_recv hsound (handsWhole_back hsound afterReset) _ hparsed d hrest
  · split at hd
    · next hwhole =>
      rcases List.mem_cons.mp hd with rfl | hrest
      · exact ⟨h, fun _ => hwhole⟩
      · exact handsWhole_back hsound afterReset _ (kept_handleRequest h) d hrest
    · exact handsWhole_recv hsound (handsWhole_back hsound afterReset) _ h d hd

theorem handedOn_whole (hsound : PhrSound phr) (h : Kept c) (e : Event) :
    ∀ d ∈ handedOn phr srv c e, Kept d ∧ Complete d := by
  have hcourse := @course_step _ phr srv c e
  generalize step phr srv c e = y at hcourse
  generalize handedOn phr srv c e = hands at hcourse ⊢
  intro d hd
  cases hcourse with
  | stays => cases hd
  | settles => cases hd
  | closes => cases hd
  | receives => exact handsWhole_recv hsound (handsWhole_back hsound false) c h d hd
  | returns afterReset => exact handsWhole_back hsound afterReset c h d hd
  | hangsUp afterReset => exact handsWhole_back hsound afterReset _ (kept_connClose h) d hd
  | reads afterReset n =>
    exact handsWhole_read hsound afterReset _ (h.receive (length_delivered_le c n)) d hd
  | writes b hb =>
    have hout := h.outOff
    exact handsWhole_send hsound _ (h.wrote (by omega)) d hd

/-! ## Runs -/

/-- What is promised of a connection at any moment, and of its next step. -/
structure WithinBounds (phr : PhrParse) (srv : Server σ) (c : Conn σ) : Prop where
  bounds : Bounds c
  /-- `read` is asked for a byte or more. -/
  room : ∀ afterReset, c.point = .reading afterReset → 0 < c.room
  /-- The next step hands on the requests of the connections recorded. -/
  recorded : ∀ e, (step phr srv c e).dispatched =
    c.dispatched ++ (handedOn phr srv c e).map Conn.request
  /-- A request with a body is handed on with the whole of it buffered. -/
  handed : ∀ e, ∀ d ∈ handedOn phr srv c e, Bounds d ∧
    (0 < d.contentLength → d.headerLen + d.contentLength ≤ d.inBuf.length)

theorem kept_accepted (server : σ) (unread : Bytes) : Kept (accepted server unread) := by
  have hout : 0 < outCap := by decide
  exact ⟨Nat.zero_le _, Nat.zero_le _, Nat.zero_le _, le_rfl, hout, fun _ => Nat.zero_le _⟩

/-- In every run of a connection the lengths stay within their bounds, `read` is never
asked for nothing, and no request is handed on before its body is there. -/
theorem run_withinBounds (hsound : PhrSound phr) (srv : Server σ) (server : σ) (unread : Bytes)
    (events : List Event) :
    WithinBounds phr srv (run (step phr srv) (accepted server unread) events) := by
  have hstart : Kept (accepted server unread) ∧ HasRoom (accepted server unread) :=
    ⟨kept_accepted server unread, fun _ hno => by cases hno⟩
  have hstep (c : Conn σ) (e : Event) (h : Kept c ∧ HasRoom c) (_ : True) :
      Kept (step phr srv c e) ∧ HasRoom (step phr srv c e) := kept_step hsound h.1 h.2 e
  have hany : Along (step phr srv) (fun _ _ => True) (accepted server unread) events :=
    along_of_mem _ fun _ _ => trivial
  obtain ⟨hkept, hroom⟩ := invariant_run hstep hstart hany
  refine ⟨hkept.bounds, hroom, dispatched_step _, fun e d hd => ?_⟩
  obtain ⟨hd, hwhole⟩ := handedOn_whole hsound hkept e d hd
  exact ⟨hd.bounds, hwhole⟩

theorem run_withinBounds_five :
    WithinBounds (postPhr (ascii "5")) helloServer
      (run (step (postPhr (ascii "5")) helloServer)
        (accepted () (postHead (ascii "5") ++ ascii "hello")) postEvents) :=
  run_withinBounds (postPhr_sound (ascii "5")) helloServer () _ postEvents

end MoonFlare.Http
