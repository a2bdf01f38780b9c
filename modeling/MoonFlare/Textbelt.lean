import MoonFlare.DecimalText
import MoonFlare.Plugin
import MoonFlare.RecentTimes
import MoonFlare.RingBuffer

/-!
# The Textbelt module

Texts are accepted by the `test` and `notify` actions, as many as there is room for
in the queue and under the cap on texts per hour, and go out one at a time, a second
apart, as the module is stepped. What was accepted, what was handed to the transfer
and how each text ended are logged beside the counters the module keeps itself.
-/

namespace MoonFlare.Textbelt

open CJson

instance neZero20 : NeZero 20 := ⟨by decide⟩

instance neZero112 : NeZero 112 := ⟨by decide⟩

instance neZero321 : NeZero 321 := ⟨by decide⟩

/-! ## Phone numbers -/

/-- `isdigit`. -/
def isDigit (b : UInt8) : Bool := 48 ≤ b && b ≤ 57

/-- The digits of a number, without the signs between them, or nothing when another
sign is there or they do not fit in `digits[32]`. -/
def phoneDigits : ℕ → Bytes → Option Bytes
  | _, [] => some []
  | n, b :: rest =>
    if isDigit b then
      if 32 ≤ n + 1 then none else (phoneDigits (n + 1) rest).map (b :: ·)
    else if b ∈ ascii " -.()" then phoneDigits n rest
    else none

/-- `tb_phone_norm`. -/
def tbPhoneNorm (text : CString) : Option (CBuf 20) :=
  let p := text.bytes.dropWhile Double.isSpace
  let plus := p.head? = some 43
  let international (digits : Bytes) := some (CBuf.copy 20 (CString.ofBytes (43 :: digits)))
  match phoneDigits 0 (if plus then p.tail else p) with
  | none => none
  | some digits =>
    if plus then
      if digits.length < 8 ∨ 15 < digits.length ∨ digits.head? = some 48 then none
      else international digits
    else if digits.length = 11 ∧ digits.head? = some 49 then international digits
    else if digits.length ≠ 10 then none
    else some (CBuf.copy 20 (CString.ofBytes digits))

/-- `tb_phone_mask`. -/
def tbPhoneMask (phone : CString) : CBuf 16 :=
  let n := phone.length
  if n < 4 then CBuf.copy 16 (CString.lit "***")
  else CBuf.copy 16 (CString.lit "***" ++ phone.drop (n - 4))

/-- `TB_TO_MAX`. -/
def tbToMax : ℕ := 8

/-- An entry of a list as `tb_recipients` copies and trims it. -/
def trimmed (item : Bytes) : CString :=
  CString.ofBytes (((item.take 63).dropWhile Double.isSpace).rdropWhile Double.isSpace)

/-- `tb_recipients`: the numbers, or the entry that is not one. -/
def tbRecipients (list : CString) (max : ℕ) : Except CString (List (CBuf 20)) :=
  (list.bytes.splitOnP fun b => b == 44 || b == 59).foldlM (fun out item =>
    let s := trimmed item
    if s.nonempty then
      if max ≤ out.length then .error (CString.lit "too many numbers")
      else match tbPhoneNorm s with
        | some phone => .ok (out ++ [phone])
        | none => .error s
    else .ok out) []

/-! ## The text of a notification -/

/-- `TB_MSG_MAX`. -/
def tbMsgMax : ℕ := 320

/-- `put_text`: a text behind what is there, controls as spaces and runs of them
collapsed. -/
def putText (cap : ℕ) : Bytes → Bytes → Bytes
  | out, [] => out
  | out, b :: rest =>
    if out.length + 1 < cap then
      let ch := if b < 32 then 32 else b
      if ch = 32 ∧ (out = [] ∨ out.getLast? = some 32) then putText cap out rest
      else putText cap (out ++ [ch]) rest
    else out

/-- A byte inside a UTF-8 character. -/
def isContinuation (b : UInt8) : Bool := b &&& 0xC0 == 0x80

/-- The last place from one on, going back, where a character starts. -/
def charStart (buf : Bytes) : ℕ → ℕ
  | 0 => 0
  | off + 1 => if isContinuation (buf.getD (off + 1) 0) then charStart buf off else off + 1

/-- `while (off && buf[off - 1] == ' ')`. -/
def trimEnd (buf : Bytes) : Bytes := buf.rdropWhile (· == 32)

/-- `tb_message`. -/
def tbMessage (title : Option CString) (message : CString) : CBuf 321 :=
  let size := 2 * tbMsgMax + 8
  let body := putText size [] message.bytes
  if body = [] ∨ body = [32] then CBuf.zero 321
  else
    let head := match title with
      | some t => trimEnd (putText size [] t.bytes)
      | none => []
    let head := if head ≠ [] ∧ head.length + 2 < size then head ++ ascii ": " else head
    let buf := trimEnd (putText size head message.bytes)
    let buf := if tbMsgMax < buf.length then
      trimEnd (buf.take (charStart buf (tbMsgMax - 3))) ++ ascii "..." else buf
    CBuf.copy 321 (CString.ofBytes buf)

/-! ## Replies -/

/-- `tb_reply_t`. -/
structure TbReply where
  success : Bool
  quota : ℤ
  textId : CBuf 32
  error : CBuf 96

/-- `%.0f`. -/
def wholeText : Double → CString
  | .nan => CString.lit "nan"
  | .inf neg => CString.lit (if neg then "-inf" else "inf")
  | .fin d =>
    (if d.val < 0 then CString.lit "-" else CString.empty) ++ intText (Binary.roundHalfEven |d.val|)

/-- `tb_parse_reply`. -/
def tbParseReply (body : CString) : Option TbReply :=
  let root := CJson.parse body
  match (getCase? root "success").bind bool? with
  | none => none
  | some success => some
      { success := success
        quota := match (getCase? root "quotaRemaining").bind number? with
          | some q => q.toLong
          | none => -1
        textId := match getCase? root "textId" with
          | some (.string s) => CBuf.copy 32 s
          | some (.number d) => CBuf.copy 32 (wholeText d)
          | _ => CBuf.zero 32
        error := match getCase? root "error" with
          | some (.string s) => CBuf.copy 96 s
          | _ => CBuf.zero 96 }

/-! ## State -/

/-- `TB_QUEUE`. -/
def tbQueue : ℕ := 16

/-- `TB_RATE_MAX`. -/
def tbRateMax : ℕ := 100

/-- `TB_HOUR_S`. -/
def tbHourS : Double := Double.ofInt 3600

/-- `TB_RETRY_S`. -/
def tbRetryS : Double := Double.ofInt 60

/-- `TB_GAP_S`. -/
def tbGapS : Double := Double.one

/-- The request that runs, `REQ_QUOTA` or `REQ_SEND`. -/
inductive Req where
  | quota
  | send
  deriving DecidableEq

/-- `JOB_TEST` and `JOB_NOTIFY`, and what a zeroed job has. -/
inductive JobKind where
  | unset
  | test
  | notify
  deriving DecidableEq

/-- `tb_job_t`. -/
structure TbJob where
  kind : JobKind
  to_ : CBuf 20
  msg : CBuf 321
  deriving DecidableEq

/-- What Textbelt said of the key. -/
inductive KeyState where
  | unknown
  | refused
  | good
  deriving DecidableEq

/-- The last text, as the reading shows it. -/
structure LastText where
  kind : JobKind
  to_ : CBuf 16
  ok : Bool
  textId : CBuf 32
  error : CBuf 96
  atTime : ℤ

/-- `ACT_NONE` and so on. -/
inductive ActState where
  | none
  | running
  | done
  | failed
  deriving DecidableEq

/-- How an accepted text ended: whether it was handed to the transfer, and whether
Textbelt took it. -/
structure Ended where
  job : TbJob
  posted : Bool
  ok : Bool

/-- `tb_ctx_t`: a transfer and its request are one, and `last` is there once `have` is
set. -/
structure TbCtx where
  name : CBuf 64
  key : CBuf 128
  /-- No limit when it is zero. -/
  maxPerHour : ℕ
  checkEvery : Double
  req : Option Req
  queue : RingBuffer TbJob tbQueue
  /-- The send in flight. -/
  cur : TbJob
  queuedAt : RecentTimes FinDouble tbRateMax
  nextCheck : Double
  nextSend : Double
  keyState : KeyState
  credits : ℤ
  creditsAt : ℤ
  netErr : CBuf 112
  sent : UInt32
  failed : UInt32
  last : Option LastText
  actSeq : UInt32
  actState : ActState
  actText : CBuf 128
  changed : Bool
  err : CBuf 128
  /-- Every text accepted, with the time. -/
  accepted : List (FinDouble × TbJob)
  /-- Every text handed to a transfer. -/
  posted : List TbJob
  /-- Every text that is done with. -/
  ended : List Ended

/-- A zeroed job. -/
def zeroJob : TbJob := ⟨.unset, CBuf.zero 20, CBuf.zero 321⟩

theorem tbQueue_pos : 0 < tbQueue := by decide

/-- The context that `tb_open` makes. -/
def tbOpened (name : CBuf 64) (key : CBuf 128) (rate : ℕ) (checkEvery : Double) : TbCtx :=
  { name := name, key := key, maxPerHour := rate, checkEvery := checkEvery, req := none
    queue := { slots := fun _ => zeroJob, head := ⟨0, tbQueue_pos⟩, count := 0 }
    cur := zeroJob, queuedAt := RecentTimes.empty
    nextCheck := Double.zero, nextSend := Double.zero
    keyState := .unknown, credits := -1, creditsAt := 0, netErr := CBuf.zero 112
    sent := 0, failed := 0, last := none
    actSeq := 0, actState := .none, actText := CBuf.zero 128, changed := false
    err := CBuf.zero 128, accepted := [], posted := [], ended := [] }

/-! ## The queue and the cap -/

/-- `now - t < TB_HOUR_S`. -/
def InHour (now t : FinDouble) : Prop := ((Double.fin now).sub (.fin t)).lt tbHourS = true

instance : DecidableRel InHour := fun _ _ => inferInstanceAs (Decidable (_ = _))

namespace TbCtx

variable (c : TbCtx)

/-- `texts_in_hour`. -/
def textsInHour (now : FinDouble) : ℕ := c.queuedAt.count InHour now

/-- `note_queued`. -/
def noteQueued (now : FinDouble) : TbCtx := { c with queuedAt := c.queuedAt.note now }

/-- `admit`: whether so many more texts can go out, or the error for the action. -/
def admitTexts (n : ℕ) (now : FinDouble) : Except (MfErr × CString) Unit :=
  if !c.key.str.nonempty then
    .error (.inval, CString.lit "set the Textbelt API key first")
  else if c.keyState = .refused then
    .error (.offline, CString.lit "Textbelt does not know this API key")
  else if tbQueue - c.queue.count < n then
    .error (.busy, CString.lit "too many texts waiting to go out")
  else if 0 < c.maxPerHour ∧ c.maxPerHour < c.textsInHour now + n then
    .error (.busy, CString.lit "over the limit of " ++ intText c.maxPerHour ++
      CString.lit " texts an hour (textbelt.max_per_hour)")
  else .ok ()

/-- `queue_push`. -/
def queuePush (kind : JobKind) (to_ msg : CString) (now : FinDouble) : TbCtx :=
  let job : TbJob := ⟨kind, CBuf.copy 20 to_, CBuf.copy 321 msg⟩
  noteQueued { c with
    queue := c.queue.pushBack job, accepted := c.accepted ++ [(now, job)] } now

/-- `queue_pop`. -/
def queuePop : Option (TbJob × TbCtx) :=
  if c.queue.count = 0 then none else some (c.queue.front, { c with queue := c.queue.popFront })

/-! ## Requests -/

/-- `end_request`. -/
def endRequest : TbCtx := { c with req := none }

/-- `set_credits`. -/
def setCredits (q wall : ℤ) : TbCtx :=
  if q < 0 then c else { c with credits := q, creditsAt := wall }

/-- What `finish_send` reports of a text: nothing when it went out. -/
def sendError (r : Option TbReply) (why : CString) : CBuf 96 :=
  match r with
  | some r =>
    if r.success then CBuf.zero 96
    else if r.error.str.nonempty then r.error
    else CBuf.copy 96 (CString.lit "Textbelt did not send it")
  | none => CBuf.copy 96 why

/-- The form's answer to a test that is over. -/
def answerTest (last : LastText) : TbCtx :=
  if last.kind = .test ∧ c.actState = .running then
    if last.ok then
      { c with
        actState := .done
        actText := CBuf.copy 128 (CString.lit "Sent to " ++ last.to_.str ++ CString.lit "." ++
          if 0 ≤ c.credits then
            CString.lit " " ++ intText c.credits ++ CString.lit " credits left."
          else CString.empty) }
    else { c with actState := .failed, actText := CBuf.copy 128 last.error.str }
  else c

/-- `finish_send`, of a text that was handed to a transfer or was not. -/
def finishSend (r : Option TbReply) (why : CString) (wall : ℤ) (posted : Bool) : TbCtx :=
  let ok := r.any (·.success)
  let last : LastText :=
    { kind := c.cur.kind, to_ := tbPhoneMask c.cur.to_.str, ok := ok
      textId := match r with
        | some r => if r.success then r.textId else CBuf.zero 32
        | none => CBuf.zero 32
      error := sendError r why, atTime := wall }
  let c := { c with last := some last, ended := c.ended ++ [(⟨c.cur, posted, ok⟩ : Ended)] }
  let c := match r with
    | some r => setCredits { c with netErr := CBuf.zero 112 } r.quota wall
    | none => { c with netErr := CBuf.copy 112 why }
  let c := if ok then { c with sent := c.sent + 1, keyState := .good }
    else { c with failed := c.failed + 1 }
  { c.answerTest last with changed := true }

end TbCtx

/-- How a transfer ends. -/
structure Transfer where
  /-- `mono_now` in `finish`. -/
  now : FinDouble
  /-- `curl_easy_strerror`, when it fails. -/
  failure : Option CString
  code : ℤ
  body : CString

/-- The reply of a transfer, or why there is none. -/
def Transfer.reply (t : Transfer) : Except CString TbReply :=
  match t.failure with
  | some e => .error (CString.lit "can't reach Textbelt: " ++ e.take 80)
  | none =>
    match tbParseReply t.body with
    | some r => .ok r
    | none => .error (CString.lit "Textbelt answered HTTP " ++ intText t.code ++
        CString.lit ", not a reply")

/-- What the surroundings decide in a step. -/
structure TbEnv where
  /-- `mono_now`. -/
  now : FinDouble
  /-- `time`. -/
  wall : ℤ
  /-- The transfer that is reported done, if one runs. -/
  ended : Option Transfer
  /-- `tb_form` and `tb_escape` get their memory. -/
  formed : Bool
  /-- `start` starts a transfer. -/
  starts : Bool

namespace TbCtx

variable (c : TbCtx)

/-- `finish`. -/
def finish (t : Transfer) (wall : ℤ) : TbCtx :=
  let req := c.req
  let c := c.endRequest
  if req = some .send then
    match t.reply with
    | .ok r => c.finishSend (some r) CString.empty wall true
    | .error why => c.finishSend none (CBuf.copy 112 why).str wall true
  else
    match t.reply with
    | .error why =>
      { c with
        netErr := CBuf.copy 112 why, nextCheck := (Double.fin t.now).add tbRetryS, changed := true }
    | .ok r =>
      let c := { c with
        netErr := CBuf.zero 112, keyState := if r.success then .good else .refused }
      let c := if r.success then c.setCredits r.quota wall else c
      { c with nextCheck := (Double.fin t.now).add c.checkEvery, changed := true }

/-- `start_check`. -/
def startCheck (e : TbEnv) : TbCtx :=
  let c := { c with nextCheck := (Double.fin e.now).add tbRetryS }
  if e.formed then
    if e.starts then { c with req := some .quota }
    else { c with netErr := CBuf.copy 112 (CString.lit "could not start a request") }
  else c

/-- `start_send`. -/
def startSend (e : TbEnv) : TbCtx :=
  match c.queuePop with
  | none => c
  | some (job, c) =>
    let c := { c with cur := job, nextSend := (Double.fin e.now).add tbGapS }
    if e.formed && e.starts then { c with req := some .send, posted := c.posted ++ [job] }
    else c.finishSend none (CString.lit "could not start a request") e.wall false

/-- `offline`: why the module is offline. -/
def offlineWhy : Option CString :=
  if !c.key.str.nonempty then some (CString.lit "no API key: set it in the module's settings")
  else if c.keyState = .refused then some (CString.lit "Textbelt does not know this API key")
  else if c.netErr.str.nonempty then some c.netErr.str
  else if c.keyState = .unknown then some (CString.lit "checking the API key with Textbelt")
  else if c.credits = 0 then some (CString.lit "no Textbelt credits left")
  else none

/-- The request that is over ends. -/
def endings (e : TbEnv) : TbCtx :=
  match c.req, e.ended with
  | some _, some t => c.finish t e.wall
  | _, _ => c

/-- The requests of a step: the one that is over ends, and the next one starts. -/
def requests (e : TbEnv) : TbCtx :=
  let c := c.endings e
  if c.req = none ∧ c.key.str.nonempty = true then
    if 0 < c.queue.count ∧ (Double.fin e.now).ge c.nextSend = true then c.startSend e
    else if (Double.fin e.now).ge c.nextCheck then c.startCheck e
    else c
  else c

end TbCtx

/-- `tb_step`. -/
def tbStep (c : TbCtx) (e : TbEnv) : TbCtx × MfStep :=
  let c := c.requests e
  match c.offlineWhy with
  | some why => ({ c with err := CBuf.copy 128 why }, .error)
  | none =>
    let c := { c with err := CBuf.zero 128 }
    if c.changed then ({ c with changed := false }, .updated) else (c, .idle)

/-! ## Actions -/

/-- `to_parse`. -/
def toParse (list : CString) : Except CString (List (CBuf 20)) :=
  match tbRecipients list tbToMax with
  | .ok out => .ok out
  | .error bad =>
    let what := if bad = CString.lit "too many numbers" then "\"to\": " else "not a phone number: "
    .error (CString.lit what ++ bad.take 60)

/-- `notify_to`. -/
def notifyTo : Option CJson → Except CString (List (CBuf 20))
  | none => .error (CString.lit "notify needs \"to\": a phone number or a list")
  | some (.string s) => toParse s
  | some (.array items) =>
    items.foldlM (fun out it =>
      if tbToMax ≤ out.length then .error (CString.lit "\"to\": too many numbers")
      else match it.string?.bind tbPhoneNorm with
        | some phone => .ok (out ++ [phone])
        | none => .error (CString.lit "not a phone number: " ++
            (it.string?.getD (CString.lit "(not text)")).take 60)) []
  | some _ => .error (CString.lit "\"to\" must be a phone number or a list")

namespace TbCtx

variable (c : TbCtx)

/-- The `test` action. -/
def testAction (b : Option CJson) (now : FinDouble) : TbCtx × MfErr × CString :=
  let to_ := (getCase? b "to").bind string?
  match to_.bind tbPhoneNorm with
  | none => (c, .inval, CString.lit "not a phone number: " ++
      (to_.getD (CString.lit "(none given)")).take 60)
  | some phone =>
    match c.admitTexts 1 now with
    | .error (rc, err) => (c, rc, err)
    | .ok () =>
      let msg := CString.lit "Moon Flare test from " ++ c.name.str.take 60 ++
        CString.lit ": SMS alerts work."
      let c := c.queuePush .test phone.str msg now
      ({ c with
        actSeq := c.actSeq + 1, actState := .running
        actText := CBuf.copy 128 (CString.lit "Sending a test to " ++
          (tbPhoneMask phone.str).str ++ CString.lit "...")
        changed := true }, .ok, CString.empty)

/-- A text is queued for every number. -/
def queueAll (text : CString) (now : FinDouble) (list : List (CBuf 20)) : TbCtx :=
  list.foldl (fun c to_ => c.queuePush .notify to_.str text now) c

/-- The `notify` action. -/
def notifyAction (b : Option CJson) (now : FinDouble) : TbCtx × MfErr × CString :=
  let title := (getCase? b "title").bind string?
  let text := ((getCase? b "message").bind string?).map (tbMessage title)
  match text with
  | none => (c, .inval, CString.lit "notify needs a \"message\"")
  | some text =>
    if !text.str.nonempty then (c, .inval, CString.lit "notify needs a \"message\"")
    else match notifyTo (getCase? b "to") with
      | .error err => (c, .inval, err)
      | .ok [] => (c, .inval, CString.lit "notify needs at least one number in \"to\"")
      | .ok list =>
        match c.admitTexts list.length now with
        | .error (rc, err) => (c, rc, err)
        | .ok () => ({ c.queueAll text.str now list with changed := true }, .ok, CString.empty)

end TbCtx

/-- `tb_action`. -/
def tbAction (c : TbCtx) (action json : Option CString) (now : FinDouble) :
    TbCtx × MfErr × CString :=
  let b := json.bind CJson.parse
  if action = some (CString.lit "refresh") then
    ({ c with nextCheck := Double.zero }, .ok, CString.empty)
  else if action = some (CString.lit "test") then c.testAction b now
  else if action = some (CString.lit "notify") then c.notifyAction b now
  else (c, .unsupported, CString.lit "unknown action: " ++ (action.getD CString.empty).take 40)

/-- What happens to the module. -/
inductive TbEvent where
  | action (now : FinDouble) (action json : Option CString)
  | step (e : TbEnv)

/-- The clock at an event. -/
def TbEvent.clock : TbEvent → FinDouble
  | .action now _ _ => now
  | .step e => e.now

/-- One event. -/
def tbEvent (c : TbCtx) : TbEvent → TbCtx
  | .action now action json => (tbAction c action json now).1
  | .step e => (tbStep c e).1

end MoonFlare.Textbelt
