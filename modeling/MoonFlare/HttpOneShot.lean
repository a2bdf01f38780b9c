import MoonFlare.HttpPipelining
import MoonFlare.PicoHttpStreaming

/-!
# A connection with one request

The command line's client sends one request and asks for the connection to be
closed. Whatever the kernel and the clock do, the daemon takes up that request or
none, and what it has sent is a beginning of the reply; when nothing fails and
the connection ends, it has sent the whole reply.
-/

namespace MoonFlare.Http

open Pico Runs

/-- A request without a body after which the connection closes, as the parser and the header loop
take it. -/
structure CloseRequest where
  head : Bytes
  parsed : PhrRequest
  fields : HeaderFields
  grammar : RequestHead httpMaxHeaders head parsed
  fits : head.length ≤ hdrCap
  accepted : headerLoop (headerStart parsed) parsed.headers = (fields, none)
  bodyless : fields.contentLength = 0
  closes : fields.reqClose = true

variable {σ : Type*} {srv : Server σ} {s₀ : σ} {r : CloseRequest} {c : Conn σ}

namespace CloseRequest

/-- The request as it is dispatched. -/
def request (r : CloseRequest) : RestRequest :=
  { method := copyToken 16 r.parsed.method
    path := (splitQuery (copyToken 128 r.parsed.path)).1
    query := (splitQuery (copyToken 128 r.parsed.path)).2
    ifMatch := r.fields.ifMatch
    body := [] }

/-- The bytes that answer it; nothing is sent of a reply that does not fit `out`. -/
def reply (r : CloseRequest) (srv : Server σ) (s : σ) : Bytes :=
  let (resp, reason, _) := answer srv s r.request
  let head := replyHead r.parsed.minor resp.status reason resp.body.length true resp.location
    resp.etag
  if outCap ≤ head.length + resp.body.length then [] else head ++ resp.body.bytes

theorem head_pos (r : CloseRequest) : 0 < r.head.length := by
  obtain ⟨body, eol, eol', heq, -, heol, -⟩ := r.grammar.endsTwice
  obtain ⟨x, xs, rfl, -⟩ := heol.head
  rw [heq]
  simp

end CloseRequest

/-! ## The states of the connection -/

/-- The head is on its way. -/
structure Arriving (s₀ : σ) (r : CloseRequest) (c : Conn σ) : Prop where
  inUse : c.inUse = true
  state : c.state = .recvHeaders
  stream : c.inBuf ++ c.unread = r.head
  short : c.inBuf.length < r.head.length
  last : c.lastLen ≤ c.inBuf.length
  ifMatch : c.ifMatch = CString.empty
  server : c.server = s₀
  dispatched : c.dispatched = []
  sent : c.sent = []

/-- The reply is on its way. -/
structure Replying (srv : Server σ) (s₀ : σ) (r : CloseRequest) (c : Conn σ) : Prop where
  inUse : c.inUse = true
  state : c.state = .send
  closeAfter : c.closeAfter = true
  out : c.out = r.reply srv s₀
  bound : c.outOff ≤ c.out.length
  dispatched : c.dispatched = [r.request]
  sent : c.sent = c.out.take c.outOff

/-- The connection is over, and whole if nothing failed. -/
structure Ended (srv : Server σ) (s₀ : σ) (r : CloseRequest) (fine : Prop) (c : Conn σ) : Prop where
  state : c.state = .close
  sent : c.sent <+: r.reply srv s₀
  answered : c.sent ≠ [] → c.dispatched = [r.request]
  dispatched : c.dispatched <+: [r.request]
  whole : fine → c.dispatched = [r.request] ∧ c.sent = r.reply srv s₀

/-- The connection of one request, none of whose events so far failed if `fine`. -/
inductive OneShot (srv : Server σ) (s₀ : σ) (r : CloseRequest) (fine : Prop) (c : Conn σ) : Prop
  | arriving (h : Arriving s₀ r c) (hpoint : c.point = .waiting ∨ c.point = .reading false)
  | replying (h : Replying srv s₀ r c) (hpoint : c.point = .waiting ∨ c.point = .writing)
  | ended (h : Ended srv s₀ r fine c) (hpoint : c.point = .done)

theorem Arriving.goto (h : Arriving s₀ r c) (p : Point) : Arriving s₀ r (c.goto p) :=
  ⟨h.inUse, h.state, h.stream, h.short, h.last, h.ifMatch, h.server, h.dispatched, h.sent⟩

theorem Replying.goto (h : Replying srv s₀ r c) (p : Point) : Replying srv s₀ r (c.goto p) :=
  ⟨h.inUse, h.state, h.closeAfter, h.out, h.bound, h.dispatched, h.sent⟩

theorem settle_ended {fine : Prop} (h : Ended srv s₀ r fine c) :
    OneShot srv s₀ r fine (settle c) := by
  have hdone : settle c = c.goto .done := by simp [settle, h.state]
  rw [hdone]
  exact .ended ⟨h.state, h.sent, h.answered, h.dispatched, h.whole⟩ rfl

/-- A connection that is closed in front of the request. -/
theorem Arriving.close (h : Arriving s₀ r c) : Ended srv s₀ r False (connClose c) where
  state := rfl
  sent := by
    change c.sent <+: _
    rw [h.sent]
    exact List.nil_prefix
  answered hne := absurd h.sent hne
  dispatched := by
    change c.dispatched <+: _
    rw [h.dispatched]
    exact List.nil_prefix
  whole hfine := hfine.elim

/-- A connection that is closed in the middle of the reply, or at its end. -/
theorem Replying.close (h : Replying srv s₀ r c) {fine : Prop}
    (hfine : fine → c.outOff = c.out.length) : Ended srv s₀ r fine (connClose c) where
  state := rfl
  sent := by
    change c.sent <+: _
    rw [h.sent, ← h.out]
    exact List.take_prefix _ _
  answered _ := h.dispatched
  dispatched := by
    change c.dispatched <+: _
    rw [h.dispatched]
  whole hall := by
    refine ⟨h.dispatched, ?_⟩
    change c.sent = _
    rw [h.sent, hfine hall, List.take_length, h.out]

/-! ## Steps -/

theorem Arriving.reads (h : Arriving s₀ r c) : ¬c.bodyComplete ∧ c.room ≠ 0 := by
  have hshort := h.short
  have hfits := r.fits
  refine ⟨fun hb => hb.1 h.state, ?_⟩
  simp only [Conn.room, h.state, if_true]
  omega

/-- What the parser says about the bytes that are there. -/
theorem Arriving.parse {b : Bytes} (h : Arriving s₀ r c) (hb : b <+: c.unread) :
    daemonParse ((c.receive b).inBuf.take hdrCap) (c.receive b).lastLen =
      if c.inBuf.length + b.length < r.head.length then .incomplete
      else .ok r.head.length r.parsed := by
  have hfits := r.fits
  have hlen := length_receive c b
  have hstream := stream_receive hb h.stream
  have hpre : (c.receive b).inBuf <+: r.head := ⟨_, hstream⟩
  have hle := hpre.length_le
  have hlast : c.lastLen ≤ c.inBuf.length := h.last
  rw [List.take_of_length_le (by omega)]
  split_ifs with hshort
  · refine phr_part r.grammar hpre ?_ ?_
    · intro heq
      rw [← heq] at hshort
      omega
    · change c.lastLen ≤ _
      omega
  · have hwhole : (c.receive b).inBuf = r.head := hpre.eq_of_length (by omega)
    have hshort := h.short
    have hread : daemonParse (r.head ++ []) c.lastLen = .ok r.head.length r.parsed :=
      phr_whole r.grammar (by omega) []
    rw [List.append_nil] at hread
    rw [hwhole]
    exact hread

/-- The request is taken up: its reply is queued, or the connection closes. -/
theorem handleRequest_oneShot {fine : Prop} (hserver : c.server = s₀) (hinUse : c.inUse = true)
    (hrequest : c.request = r.request) (hminor : c.minor = r.parsed.minor)
    (hclose : c.reqClose = true) (hdispatched : c.dispatched = []) (hsent : c.sent = []) :
    (Replying srv s₀ r (handleRequest srv c) ∧
        (handleRequest srv c).outOff < (handleRequest srv c).out.length) ∨
      Ended srv s₀ r fine (handleRequest srv c) := by
  simp only [handleRequest, hrequest, hserver, httpReplyOrClose, httpReply, hclose, hminor,
    Bool.false_or, Bool.true_or]
  split_ifs with hroom
  · refine Or.inr ⟨rfl, ?_, ?_, ?_, fun _ => ⟨?_, ?_⟩⟩
    all_goals
      simp [connClose, hdispatched, hsent, CloseRequest.reply, hroom]
  · refine Or.inl ⟨⟨hinUse, rfl, rfl, ?_, Nat.zero_le _, by simp [hdispatched],
      by simp [hsent]⟩, ?_⟩
    · simp only [Option.getD_some, CloseRequest.reply]
      rw [if_neg hroom]
    · exact List.length_pos_iff.mpr (by simp [replyHead_ne_nil])

theorem Replying.seen (h : Replying srv s₀ r c) : Replying srv s₀ r c.seen :=
  ⟨h.inUse, h.state, h.closeAfter, h.out, h.bound, h.dispatched, h.sent⟩

theorem Ended.seen {fine : Prop} (h : Ended srv s₀ r fine c) : Ended srv s₀ r fine c.seen :=
  ⟨h.state, h.sent, h.answered, h.dispatched, h.whole⟩

/-- `conn_do_send` goes to its `write`, or closes at the end of the reply. -/
theorem Replying.send (h : Replying srv s₀ r c) (fine : Prop) :
    OneShot srv s₀ r fine (connDoSend daemonParse srv c) := by
  rw [connDoSend]
  by_cases hmore : c.outOff < c.out.length
  · rw [if_pos hmore]
    exact .replying (h.goto _) (Or.inr rfl)
  · have hbound := h.bound
    rw [if_neg hmore, if_pos h.closeAfter]
    exact settle_ended (h.close fun _ => by omega)

/-- A `write` takes some of what is left of the reply. -/
theorem Replying.took (h : Replying srv s₀ r c) (n : ℕ) : Replying srv s₀ r
    { c with
      outOff := c.outOff + ((c.out.drop c.outOff).take n).length
      sent := c.sent ++ (c.out.drop c.outOff).take n } where
  inUse := h.inUse
  state := h.state
  closeAfter := h.closeAfter
  out := h.out
  bound := by
    have hbound := h.bound
    simp only [List.length_take, List.length_drop]
    omega
  dispatched := h.dispatched
  sent := by
    have htook := List.prefix_iff_eq_take.mp (List.take_prefix n (c.out.drop c.outOff))
    rw [List.take_add, ← htook, h.sent]

/-- What follows the reading of a whole head. -/
theorem afterRecv_oneShot {fine : Prop} (h : Replying srv s₀ r c ∨ Ended srv s₀ r fine c) :
    OneShot srv s₀ r fine (afterRecv daemonParse srv c) := by
  rcases h with h | h
  · rw [afterRecv, if_pos h.state]
    exact h.send fine
  · rw [afterRecv, if_neg (by rw [h.state]; decide)]
    exact settle_ended h

theorem Arriving.receive {b : Bytes} (h : Arriving s₀ r c) (hb : b <+: c.unread)
    (hshort : c.inBuf.length + b.length < r.head.length) : Arriving s₀ r (c.receive b).seen := by
  have hin := length_receive c b
  refine ⟨h.inUse, h.state, stream_receive hb h.stream, ?_, min_le_left _ _, h.ifMatch, h.server,
    h.dispatched, h.sent⟩
  change (c.receive b).inBuf.length < r.head.length
  omega

/-- A `read` delivers bytes of the head. -/
theorem Arriving.read {b : Bytes} (h : Arriving s₀ r c) (hb : b <+: c.unread) (fine : Prop) :
    OneShot srv s₀ r fine (afterRead daemonParse srv false (c.receive b)) := by
  have hparse := h.parse hb
  have hstate : (c.receive b).state = .recvHeaders := h.state
  have hin := length_receive c b
  have hfits := r.fits
  rw [afterRead_headers hstate]
  by_cases hshort : c.inBuf.length + b.length < r.head.length
  · have hmore : parseHeaders daemonParse srv (c.receive b) = (c.receive b, false) := by
      rw [parseHeaders, hparse, if_pos hshort]
      exact if_neg (by omega)
    have harrives := h.receive hb hshort
    rw [hmore]
    simp only
    rw [if_neg (by rw [harrives.state]; decide), connDoRecv_reading harrives.reads]
    exact .arriving (harrives.goto _) (Or.inr rfl)
  · have hloop := r.accepted
    rw [headerStart, ← h.ifMatch] at hloop
    have hloop' : headerLoop ⟨0, decide (r.parsed.minor < 1), (c.receive b).ifMatch⟩
        r.parsed.headers = (r.fields, none) := hloop
    rw [parseHeaders, hparse, if_neg hshort]
    simp only [hloop', r.bodyless, if_true]
    generalize hc' : ({ c.receive b with
      headerLen := r.head.length, minor := r.parsed.minor, method := copyToken 16 r.parsed.method
      path := (splitQuery (copyToken 128 r.parsed.path)).1
      query := (splitQuery (copyToken 128 r.parsed.path)).2
      contentLength := 0, reqClose := r.fields.reqClose,
      ifMatch := r.fields.ifMatch } : Conn σ) = c'
    have hrequest : c'.request = r.request := by
      rw [← hc']
      simp [Conn.request, CloseRequest.request]
    have htaken : Replying srv s₀ r (handleRequest srv c').seen ∨
        Ended srv s₀ r fine (handleRequest srv c').seen := by
      refine (handleRequest_oneShot (by rw [← hc']; exact h.server) (by rw [← hc']; exact h.inUse)
        hrequest (by rw [← hc']) (by rw [← hc']; exact r.closes) (by rw [← hc']; exact h.dispatched)
        (by rw [← hc']; exact h.sent)).imp (fun ht => ht.1.seen) Ended.seen
    have hover : (handleRequest srv c').seen.state = .send ∨
        (handleRequest srv c').seen.state = .close := htaken.imp (·.state) (·.state)
    rw [if_pos hover]
    exact afterRecv_oneShot htaken

theorem Ended.weaken {fine fine' : Prop} (h : Ended srv s₀ r fine c) (himp : fine' → fine) :
    Ended srv s₀ r fine' c :=
  ⟨h.state, h.sent, h.answered, h.dispatched, fun hf => h.whole (himp hf)⟩

/-- A `write` and what follows it. -/
theorem step_took (hpoint : c.point = .writing) (n : ℕ) : step daemonParse srv c (.took n) =
    if (c.out.drop c.outOff).take n = [] then settle c
    else connDoSend daemonParse srv { c with
      outOff := c.outOff + ((c.out.drop c.outOff).take n).length
      sent := c.sent ++ (c.out.drop c.outOff).take n } := by
  cases c
  simp only at hpoint
  subst hpoint
  rfl

/-- Every event keeps the connection of one request. -/
theorem step_oneShot {fine : Prop} (h : OneShot srv s₀ r fine c) (e : Event) :
    OneShot srv s₀ r (fine ∧ e.healthy = true) (step daemonParse srv c e) := by
  have hfailed : ∀ {e : Event}, e.healthy = false → ∀ {c' : Conn σ}, Ended srv s₀ r False c' →
      Ended srv s₀ r (fine ∧ e.healthy = true) c' := by
    intro e he c' hc'
    exact hc'.weaken fun hall => by simp [he] at hall
  cases h with
  | ended h hpoint =>
    have hidle : step daemonParse srv c e = c := by
      cases e <;> simp only [step, hpoint]
    rw [hidle]
    exact .ended (h.weaken And.left) hpoint
  | arriving h hpoint =>
    rcases hpoint with hpoint | hpoint
    · cases e with
      | tick idle =>
        cases idle with
        | true =>
          simp only [step, hpoint]
          exact settle_ended (hfailed (e := .tick true) rfl h.close)
        | false =>
          simp only [step, hpoint, h.state, true_or, if_true]
          rw [connDoRecv_reading h.reads]
          exact .arriving (h.goto _) (Or.inr rfl)
      | ready n | readClosed | took n | writeFailed =>
        simp only [step, hpoint]
        exact .arriving h (Or.inl hpoint)
    · cases e with
      | ready n =>
        simp only [step, hpoint]
        split_ifs with hnone
        · have hback : recvBack daemonParse srv false c = c.goto .waiting :=
            recvBack_waiting (Or.inl h.state) h.inUse false
          rw [hback]
          exact .arriving (h.goto _) (Or.inl rfl)
        · exact h.read ( delivered_prefix c n) _
      | readClosed =>
        simp only [step, hpoint]
        exact afterRecv_oneShot (Or.inr (hfailed (e := .readClosed) rfl h.close))
      | tick idle | took n | writeFailed =>
        simp only [step, hpoint]
        exact .arriving h (Or.inr hpoint)
  | replying h hpoint =>
    rcases hpoint with hpoint | hpoint
    · cases e with
      | tick idle =>
        cases idle with
        | true =>
          simp only [step, hpoint]
          refine settle_ended (hfailed (e := .tick true) rfl (h.close False.elim))
        | false =>
          simp only [step, hpoint, h.state, reduceCtorEq, or_self, if_false]
          exact afterRecv_oneShot (Or.inl h)
      | ready n | readClosed | took n | writeFailed =>
        simp only [step, hpoint]
        exact .replying h (Or.inl hpoint)
    · cases e with
      | took n =>
        rw [step_took hpoint]
        split_ifs with hnone
        · rw [settle_eq (by rw [h.state]; decide) h.inUse]
          exact .replying (h.goto _) (Or.inl rfl)
        · exact (h.took n).send _
      | writeFailed =>
        simp only [step, hpoint]
        exact settle_ended (hfailed (e := .writeFailed) rfl (h.close False.elim))
      | tick idle | ready n | readClosed =>
        simp only [step, hpoint]
        exact .replying h (Or.inr hpoint)

theorem run_oneShot {fine : Prop} (h : OneShot srv s₀ r fine c) (es : List Event) :
    OneShot srv s₀ r (fine ∧ ∀ e ∈ es, e.healthy = true) (run (step daemonParse srv) c es) := by
  induction es generalizing fine c with
  | nil => simpa using h
  | cons e es ih =>
    have hrun := ih (step_oneShot h e)
    simpa [and_assoc] using hrun

/-- A connection just accepted, with the request on its way. -/
theorem accepted_oneShot (srv : Server σ) (s₀ : σ) (r : CloseRequest) :
    OneShot srv s₀ r True (accepted s₀ r.head) :=
  .arriving ⟨rfl, rfl, rfl, r.head_pos, Nat.le_refl 0, rfl, rfl, rfl, rfl⟩ (Or.inl rfl)

namespace OneShot

variable {fine : Prop}

theorem sent (h : OneShot srv s₀ r fine c) : c.sent <+: r.reply srv s₀ := by
  cases h with
  | arriving h hpoint =>
    rw [h.sent]
    exact List.nil_prefix
  | replying h hpoint =>
    rw [h.sent, h.out]
    exact List.take_prefix _ _
  | ended h hpoint => exact h.sent

theorem dispatched (h : OneShot srv s₀ r fine c) : c.dispatched <+: [r.request] := by
  cases h with
  | arriving h hpoint =>
    rw [h.dispatched]
    exact List.nil_prefix
  | replying h hpoint => rw [h.dispatched]
  | ended h hpoint => exact h.dispatched

theorem answered (h : OneShot srv s₀ r fine c) (hne : c.sent ≠ []) :
    c.dispatched = [r.request] := by
  cases h with
  | arriving h hpoint => exact absurd h.sent hne
  | replying h hpoint => exact h.dispatched
  | ended h hpoint => exact h.answered hne

theorem whole (h : OneShot srv s₀ r fine c) (hdone : c.point = .done) (hfine : fine) :
    c.dispatched = [r.request] ∧ c.sent = r.reply srv s₀ := by
  cases h with
  | arriving h hpoint =>
    rw [hdone] at hpoint
    simp at hpoint
  | replying h hpoint =>
    rw [hdone] at hpoint
    simp at hpoint
  | ended h hpoint => exact h.whole hfine

end OneShot

/-- What the client of one request can see, in every run of events: what the daemon sent is a
beginning of the reply, and it sent nothing without taking up the request once; when the
connection is over and no event failed, it is the whole reply. -/
theorem one_request_answered (srv : Server σ) (s₀ : σ) (r : CloseRequest) (es : List Event) :
    let c := run (step daemonParse srv) (accepted s₀ r.head) es
    c.sent <+: r.reply srv s₀ ∧ c.dispatched <+: [r.request] ∧
      (c.sent ≠ [] → c.dispatched = [r.request]) ∧
      (c.point = .done → (∀ e ∈ es, e.healthy = true) →
        c.dispatched = [r.request] ∧ c.sent = r.reply srv s₀) := by
  intro c
  have hrun := run_oneShot (accepted_oneShot srv s₀ r) es
  exact ⟨hrun.sent, hrun.dispatched, hrun.answered,
    fun hdone hall => hrun.whole hdone ⟨trivial, hall⟩⟩

end MoonFlare.Http
