import MoonFlare.TextbeltCap

/-!
# The outcome of a test

A test is a text like any other: it waits in the queue, is sent, and ends. What the
settings form is told of tests is one number, one state and one text. They are those of the
last test when no test is accepted while another one waits or is in flight.
-/

namespace MoonFlare.Textbelt

open Runs CJson

/-! ## What the form is told -/

/-- `_action` in the settings. -/
structure ActionShown where
  seq : ℕ
  state : CString
  text : CString

/-- What `tb_get_settings` publishes of the tests, once there was one. -/
def TbCtx.actionShown (c : TbCtx) : Option ActionShown :=
  if c.actSeq = 0 then none
  else some
    { seq := c.actSeq.toNat
      state := CString.lit (if c.actState = .running then "running"
        else if c.actState = .done then "done" else "failed")
      text := c.actText.str }

/-! ## What became of a text -/

/-- The end of a text. -/
structure Report where
  job : TbJob
  /-- The reply, or why there is none. -/
  result : Except CString TbReply
  /-- The credits that are known of then. -/
  credits : ℤ

/-- Whether Textbelt took the text. -/
def Report.sent (r : Report) : Bool :=
  match r.result with
  | .ok reply => reply.success
  | .error _ => false

/-- The outcome in words: to whom it went and what is left, or what went wrong. -/
def Report.text (r : Report) : CString :=
  let words := match r.result with
    | .error why => why.take 95
    | .ok reply =>
      if reply.success then
        CString.lit "Sent to " ++ (tbPhoneMask r.job.to_.str).str ++ CString.lit "." ++
          if 0 ≤ r.credits then
            CString.lit " " ++ intText r.credits ++ CString.lit " credits left."
          else CString.empty
      else if reply.error.str.nonempty then reply.error.str
      else CString.lit "Textbelt did not send it"
  words.take 127

/-- The credits after a reply. -/
def creditsAfter (credits : ℤ) : Except CString TbReply → ℤ
  | .ok reply => if reply.quota < 0 then credits else reply.quota
  | .error _ => credits

/-- The text whose transfer ends in a step. -/
def endingReports (c : TbCtx) (e : TbEnv) : List Report :=
  if c.req = some .send then
    match e.ended with
    | some t =>
      let result := t.reply.mapError fun why => (CBuf.copy 112 why).str
      [⟨c.cur, result, creditsAfter c.credits result⟩]
    | none => []
  else []

/-- The text that is due in a step and whose transfer is not started. -/
def startReports (c : TbCtx) (e : TbEnv) : List Report :=
  if (c.req = none ∧ c.key.str.nonempty = true) ∧
      (0 < c.queue.count ∧ (Double.fin e.now).ge c.nextSend = true) ∧
      (e.formed && e.starts) = false then
    [⟨c.queue.front, .error (CString.lit "could not start a request"), c.credits⟩]
  else []

/-- The module and the ends of its texts. -/
structure Told where
  ctx : TbCtx
  reports : List Report

/-- The texts that end in an event. -/
def eventReports (c : TbCtx) : TbEvent → List Report
  | .action _ _ _ => []
  | .step e => endingReports c e ++ startReports (c.endings e) e

/-- One event. -/
def toldEvent (w : Told) (ev : TbEvent) : Told :=
  ⟨tbEvent w.ctx ev, w.reports ++ eventReports w.ctx ev⟩

/-- Before the first event. -/
def toldOpened (name : CBuf 64) (key : CBuf 128) (rate : ℕ) (checkEvery : Double) : Told :=
  ⟨tbOpened name key rate checkEvery, []⟩

/-! ## Tests -/

/-- The texts that are tests. -/
def tests (jobs : List TbJob) : List TbJob := jobs.filter fun j => decide (j.kind = .test)

/-- The tests accepted, in order. -/
def testsAccepted (c : TbCtx) : List TbJob := tests (c.accepted.map Prod.snd)

/-- The tests that wait in the queue or are in flight. -/
def testsPending (c : TbCtx) : List TbJob := tests (c.inFlight ++ c.queue.contents)

/-- What became of the tests that are over, in order. -/
def testReports (w : Told) : List Report := w.reports.filter fun r => decide (r.job.kind = .test)

/-- A `test` action that is accepted: it names a phone number and a text can go out. -/
def AcceptsTest (c : TbCtx) (json : Option CString) (now : FinDouble) : Prop :=
  (((getCase? (json.bind CJson.parse) "to").bind string?).bind tbPhoneNorm).isSome = true ∧
    c.admitTexts 1 now = .ok ()

/-- A test is accepted only when no other one waits or is in flight, and as long as its
number fits 32 bits. -/
def OneTest (w : Told) (ev : TbEvent) : Prop :=
  ∀ now json, ev = .action now (some (CString.lit "test")) json → AcceptsTest w.ctx json now →
    testsPending w.ctx = [] ∧ w.ctx.actSeq.toNat + 1 < 2 ^ 32

/-! ## What holds between two events -/

/-- What the form is told agrees with what became of the tests; `flying` is what is between
the queue and the end. -/
structure TestInv (flying : List TbJob) (c : TbCtx) (reports : List Report) : Prop where
  room : c.queue.count ≤ tbQueue
  /-- Every text accepted is over, between, or in the queue. -/
  order : c.accepted.map Prod.snd = reports.map Report.job ++ flying ++ c.queue.contents
  ended : c.ended.map (fun x => (x.job, x.ok)) = reports.map fun r => (r.job, r.sent)
  number : c.actSeq.toNat = (testsAccepted c).length
  waiting : tests (flying ++ c.queue.contents) ≠ [] →
    (tests (flying ++ c.queue.contents)).length = 1 ∧ c.actState = .running
  answered : tests (flying ++ c.queue.contents) = [] →
    ∀ r, (reports.filter fun r => decide (r.job.kind = .test)).getLast? = some r →
      c.actState = (if r.sent then .done else .failed) ∧ c.actText.str = r.text

/-- What the invariant is about is the same in two states. -/
structure SameTest (c c' : TbCtx) : Prop where
  queue : c'.queue = c.queue
  accepted : c'.accepted = c.accepted
  ended : c'.ended = c.ended
  actSeq : c'.actSeq = c.actSeq
  actState : c'.actState = c.actState
  actText : c'.actText = c.actText

variable {c c' : TbCtx} {flying : List TbJob} {reports : List Report}

theorem SameTest.inv (h : SameTest c c') (hc : TestInv flying c reports) :
    TestInv flying c' reports where
  room := by simpa only [h.queue] using hc.room
  order := by simpa only [h.accepted, h.queue] using hc.order
  ended := by simpa only [h.ended] using hc.ended
  number := by simpa only [h.actSeq, testsAccepted, h.accepted] using hc.number
  waiting := by simpa only [h.queue, h.actState] using hc.waiting
  answered := by simpa only [h.queue, h.actState, h.actText] using hc.answered

/-- The end that `finish_send` makes of the text in `cur`. -/
def reportOf (c : TbCtx) (r : Option TbReply) (why : CString) : Report :=
  let result := match r with
    | some r => .ok r
    | none => .error why
  ⟨c.cur, result, creditsAfter c.credits result⟩

/-- What `finish_send` changes. -/
theorem finishSend_spec (c : TbCtx) (r : Option TbReply) (why : CString) (wall : ℤ)
    (posted : Bool) :
    let d := c.finishSend r why wall posted
    d.queue = c.queue ∧ d.accepted = c.accepted ∧
      d.ended = c.ended ++ [(⟨c.cur, posted, (reportOf c r why).sent⟩ : Ended)] ∧
      d.actSeq = c.actSeq ∧ d.req = c.req := by
  have hsame := finishSend_sameTexts c r why wall posted
  have hsent : (reportOf c r why).sent = r.any TbReply.success := by cases r <;> rfl
  dsimp only at hsame ⊢
  refine ⟨hsame.queue, hsame.accepted, ?_, ?_, hsame.req⟩
  · rw [hsent]
    exact hsame.ended
  · unfold TbCtx.finishSend TbCtx.answerTest TbCtx.setCredits
    cases r with
    | none =>
      dsimp only
      split_ifs <;> rfl
    | some r =>
      dsimp only
      split_ifs <;> rfl

/-- How the form is answered. -/
theorem answerTest_spec {last : LastText} (hkind : last.kind = .test)
    (hstate : c.actState = .running) :
    (c.answerTest last).actState = (if last.ok then .done else .failed) ∧
      (c.answerTest last).actText.str = (if last.ok then
        CString.lit "Sent to " ++ last.to_.str ++ CString.lit "." ++
          (if 0 ≤ c.credits then
            CString.lit " " ++ intText c.credits ++ CString.lit " credits left."
          else CString.empty)
        else last.error.str).take 127 := by
  unfold TbCtx.answerTest
  rw [if_pos ⟨hkind, hstate⟩]
  cases hok : last.ok
  · exact ⟨rfl, rfl⟩
  · exact ⟨rfl, rfl⟩

/-- A text that is no test, or that the form does not wait for, leaves the form as it is. -/
theorem answerTest_other {last : LastText} (h : last.kind ≠ .test) : c.answerTest last = c :=
  if_neg fun hboth => h hboth.1

theorem setCredits_spec (c : TbCtx) (q wall : ℤ) :
    (c.setCredits q wall).actState = c.actState ∧ (c.setCredits q wall).actText = c.actText ∧
      (c.setCredits q wall).credits = if q < 0 then c.credits else q := by
  unfold TbCtx.setCredits
  split_ifs <;> exact ⟨rfl, rfl, rfl⟩

/-- What `finish_send` answers the form with, and what it knows then. -/
theorem finishSend_eq (c : TbCtx) (r : Option TbReply) (why : CString) (wall : ℤ)
    (posted : Bool) :
    ∃ (d : TbCtx) (last : LastText),
      c.finishSend r why wall posted = { d.answerTest last with changed := true } ∧
      d.actState = c.actState ∧ d.actText = c.actText ∧
      d.credits = (reportOf c r why).credits ∧ last.kind = c.cur.kind ∧
      last.to_ = tbPhoneMask c.cur.to_.str ∧ last.ok = (reportOf c r why).sent ∧
      last.error = TbCtx.sendError r why := by
  cases r with
  | none => exact ⟨_, _, rfl, rfl, rfl, rfl, rfl, rfl, rfl, rfl⟩
  | some r =>
    refine ⟨_, _, rfl, ?_, ?_, ?_, rfl, rfl, rfl, rfl⟩
    · dsimp only [Option.any_some]
      split_ifs
      · exact (setCredits_spec _ _ _).1
      · exact (setCredits_spec _ _ _).1
    · dsimp only [Option.any_some]
      split_ifs
      · exact (setCredits_spec _ _ _).2.1
      · exact (setCredits_spec _ _ _).2.1
    · dsimp only [Option.any_some]
      split_ifs
      · exact (setCredits_spec _ _ _).2.2
      · exact (setCredits_spec _ _ _).2.2

/-- The answer to a test that the form waits for is its outcome. -/
theorem finishSend_test (r : Option TbReply) (why : CString) (wall : ℤ) (posted : Bool)
    (hkind : c.cur.kind = .test) (hstate : c.actState = .running) :
    (c.finishSend r why wall posted).actState =
        (if (reportOf c r why).sent then .done else .failed) ∧
      (c.finishSend r why wall posted).actText.str = (reportOf c r why).text := by
  obtain ⟨d, last, heq, hdstate, -, hcredits, hlast, hto, hok, herror⟩ :=
    finishSend_eq c r why wall posted
  have hspec := answerTest_spec (hlast.trans hkind) (hdstate.trans hstate)
  rw [heq]
  refine ⟨hspec.1.trans (by rw [hok]), hspec.2.trans ?_⟩
  rw [hok, hto, hcredits, herror]
  have hshort : (CString.lit "Textbelt did not send it").take 95 =
      CString.lit "Textbelt did not send it" := by decide
  unfold Report.text TbCtx.sendError
  cases r with
  | none => rfl
  | some r =>
    dsimp only [reportOf, Report.sent]
    by_cases hsuccess : r.success = true
    · simp only [hsuccess, if_true]
    · by_cases hnonempty : r.error.str.nonempty = true
      · simp only [hsuccess, hnonempty, if_true, if_false, Bool.false_eq_true]
      · simp only [hsuccess, hnonempty, if_false, Bool.false_eq_true, CBuf.str_copy,
          Nat.reduceSub, hshort]

/-! ## Events -/

theorem tests_append (a b : List TbJob) : tests (a ++ b) = tests a ++ tests b :=
  List.filter_append _ _

/-- A text ends: a test is answered for, and any other text leaves the form as it is. -/
theorem finishSend_inv (h : TestInv [c.cur] c reports) (r : Option TbReply) (why : CString)
    (wall : ℤ) (posted : Bool) :
    TestInv [] (c.finishSend r why wall posted) (reports ++ [reportOf c r why]) := by
  obtain ⟨hqueue, haccepted, hended, hseq, -⟩ := finishSend_spec c r why wall posted
  have hjob : (reportOf c r why).job = c.cur := rfl
  refine ⟨?_, ?_, ?_, ?_, ?_, ?_⟩
  · rw [hqueue]
    exact h.room
  · rw [haccepted, hqueue, h.order, List.map_append, List.append_nil]
    rfl
  · rw [hended, List.map_append, List.map_append, h.ended]
    rfl
  · rw [hseq, testsAccepted, haccepted]
    exact h.number
  · rw [hqueue, List.nil_append]
    intro hpending
    by_cases hkind : c.cur.kind = .test
    · -- The test that ends is the only one there is.
      have hcur : tests [c.cur] = [c.cur] := List.filter_eq_self.mpr (by simp [hkind])
      have hone := h.waiting
      rw [tests_append, hcur] at hone
      obtain ⟨hlength, -⟩ := hone (List.cons_ne_nil _ _)
      rw [List.singleton_append, List.length_cons] at hlength
      exact absurd (List.length_eq_zero_iff.mp (by omega)) hpending
    · have hcur : tests [c.cur] = [] := by simp [tests, hkind]
      obtain ⟨hlength, hstate⟩ := h.waiting (by rwa [tests_append, hcur, List.nil_append])
      rw [tests_append, hcur, List.nil_append] at hlength
      obtain ⟨d, last, heq, hdstate, -, -, hlast, -⟩ := finishSend_eq c r why wall posted
      refine ⟨hlength, ?_⟩
      rw [heq, answerTest_other (hlast ▸ hkind)]
      exact hdstate.trans hstate
  · rw [hqueue, List.nil_append]
    intro hnone report hreport
    by_cases hkind : c.cur.kind = .test
    · have hcur : tests [c.cur] = [c.cur] := List.filter_eq_self.mpr (by simp [hkind])
      obtain ⟨-, hstate⟩ := h.waiting (by rw [tests_append, hcur]; simp)
      rw [List.filter_append, List.filter_cons_of_pos (by simp [hjob, hkind]), List.filter_nil,
        List.getLast?_concat] at hreport
      obtain rfl := Option.some.inj hreport
      exact finishSend_test r why wall posted hkind hstate
    · have hcur : tests [c.cur] = [] := by simp [tests, hkind]
      rw [List.filter_append, List.filter_cons_of_neg (by simp [hjob, hkind]), List.filter_nil,
        List.append_nil] at hreport
      obtain ⟨d, last, heq, hdstate, hdtext, -, hlast, -⟩ := finishSend_eq c r why wall posted
      rw [heq, answerTest_other (hlast ▸ hkind)]
      have hanswered := h.answered (by rw [tests_append, hcur, List.nil_append, hnone]) _ hreport
      exact ⟨hdstate.trans hanswered.1, (congrArg CBuf.str hdtext).trans hanswered.2⟩

/-- The transfer that runs ends, if it does. -/
theorem endings_inv (h : TestInv c.inFlight c reports) (e : TbEnv) :
    TestInv (c.endings e).inFlight (c.endings e) (reports ++ endingReports c e) := by
  unfold TbCtx.endings
  split
  · next hreq hended =>
    unfold TbCtx.finish
    dsimp only
    by_cases hsend : c.req = some .send
    · have hflying : c.inFlight = [c.endRequest.cur] := if_pos hsend
      have hidle : ∀ r why posted, TbCtx.inFlight (c.endRequest.finishSend r why e.wall posted) =
          [] := by
        intro r why posted
        have hnone := (finishSend_spec c.endRequest r why e.wall posted).2.2.2.2
        exact if_neg (by rw [hnone]; exact nofun)
      have hsame : SameTest c c.endRequest := ⟨rfl, rfl, rfl, rfl, rfl, rfl⟩
      have hinv := hsame.inv h
      rw [hflying] at hinv
      rw [if_pos hsend]
      unfold endingReports
      rw [if_pos hsend, hended]
      dsimp only
      split
      · next r hreply =>
        rw [hidle, hreply]
        exact finishSend_inv hinv (some r) _ e.wall true
      · next why hreply =>
        rw [hidle, hreply]
        exact finishSend_inv hinv none _ e.wall true
    · have hflying : c.inFlight = [] := if_neg hsend
      have hreports : endingReports c e = [] := if_neg hsend
      have hchecked : ∀ d : TbCtx, SameTest c d → d.req = none → TestInv d.inFlight d reports := by
        intro d hsame hreq
        have hidle : d.inFlight = c.inFlight :=
          (if_neg (by rw [hreq]; exact Option.some_ne_none _ ∘ Eq.symm)).trans hflying.symm
        rw [hidle]
        exact hsame.inv h
      rw [if_neg hsend, hreports, List.append_nil]
      split
      · exact hchecked _ ⟨rfl, rfl, rfl, rfl, rfl, rfl⟩ rfl
      · unfold TbCtx.setCredits
        split_ifs
        all_goals exact hchecked _ ⟨rfl, rfl, rfl, rfl, rfl, rfl⟩ rfl
  · next hnone =>
    have hreports : endingReports c e = [] := by
      unfold endingReports
      split_ifs with hsend
      · split
        · next t ht => exact absurd ht (hnone _ _ hsend)
        · rfl
      · rfl
    rw [hreports, List.append_nil]
    exact h

/-- The next text leaves the queue and is in flight, or ends at once. -/
theorem startSend_inv (h : TestInv [] c reports) (hreq : c.req = none)
    (hcount : 0 < c.queue.count) (e : TbEnv) :
    TestInv (c.startSend e).inFlight (c.startSend e)
      (reports ++ if (e.formed && e.starts) = false then
        [⟨c.queue.front, .error (CString.lit "could not start a request"), c.credits⟩]
        else []) := by
  have hpop : c.queuePop = some (c.queue.front, { c with queue := c.queue.popFront }) :=
    if_neg (by omega)
  have hcons := RingBuffer.contents_eq_cons hcount
  have htaken : ∀ d : TbCtx, d.queue = c.queue.popFront → d.accepted = c.accepted →
      d.ended = c.ended → d.actSeq = c.actSeq → d.actState = c.actState →
        d.actText = c.actText → TestInv [c.queue.front] d reports := by
    intro d hqueue haccepted hended hseq hstate htext
    have hall : [c.queue.front] ++ d.queue.contents = [] ++ c.queue.contents := by
      rw [hqueue, hcons]
      rfl
    refine ⟨?_, ?_, ?_, ?_, ?_, ?_⟩
    · have hroom := h.room
      rw [hqueue, RingBuffer.count_popFront]
      omega
    · rw [haccepted, h.order, List.append_assoc, List.append_assoc, hall]
    · rw [hended]
      exact h.ended
    · rw [hseq, testsAccepted, haccepted]
      exact h.number
    · rw [hall, hstate]
      exact h.waiting
    · rw [hall, hstate, htext]
      exact h.answered
  simp only [TbCtx.startSend, hpop]
  by_cases hstarts : (e.formed && e.starts) = true
  · have hsend : ∀ d : TbCtx, d.req = some .send → d.inFlight = [d.cur] := fun d hd => if_pos hd
    rw [if_pos hstarts, if_neg (by rw [hstarts]; simp), List.append_nil, hsend _ rfl]
    exact htaken _ rfl rfl rfl rfl rfl rfl
  · rw [if_neg hstarts, if_pos (by simpa using hstarts)]
    have hfails : ∀ d : TbCtx, d.req = none → TestInv [d.cur] d reports → d.credits = c.credits →
        d.cur = c.queue.front → ∀ why,
          TestInv (d.finishSend none why e.wall false).inFlight
            (d.finishSend none why e.wall false)
            (reports ++ [⟨c.queue.front, .error why, c.credits⟩]) := by
      intro d hidle hd hcredits hcur why
      have hnone := (finishSend_spec d none why e.wall false).2.2.2.2
      have hflying : (d.finishSend none why e.wall false).inFlight = [] :=
        if_neg (by rw [hnone, hidle]; exact Option.some_ne_none _ ∘ Eq.symm)
      have hinv := finishSend_inv hd none why e.wall false
      rw [hflying]
      simp only [reportOf, hcur, creditsAfter, hcredits] at hinv
      exact hinv
    refine hfails _ ?_ ?_ ?_ ?_ _
    · exact hreq
    · exact htaken _ rfl rfl rfl rfl rfl rfl
    · rfl
    · rfl

/-- The check of the key is about no text. -/
theorem startCheck_inv (h : TestInv c.inFlight c reports) (hreq : c.req = none) (e : TbEnv) :
    TestInv (c.startCheck e).inFlight (c.startCheck e) reports := by
  have hflying : c.inFlight = [] := if_neg (by rw [hreq]; exact Option.some_ne_none _ ∘ Eq.symm)
  have hstill : (c.startCheck e).inFlight = [] := by
    unfold TbCtx.startCheck
    split_ifs <;> simp [TbCtx.inFlight, hreq]
  have hsame : SameTest c (c.startCheck e) := by
    unfold TbCtx.startCheck
    split_ifs <;> exact ⟨rfl, rfl, rfl, rfl, rfl, rfl⟩
  rw [hstill, ← hflying]
  exact hsame.inv h

/-- A step answers for every text that ends in it. -/
theorem requests_inv (h : TestInv c.inFlight c reports) (e : TbEnv) :
    TestInv (c.requests e).inFlight (c.requests e) (reports ++ eventReports c (.step e)) := by
  have hend := endings_inv h e
  unfold eventReports
  rw [← List.append_assoc]
  generalize reports ++ endingReports c e = told at hend
  unfold TbCtx.requests
  dsimp only
  generalize c.endings e = d at hend
  by_cases hidle : d.req = none ∧ d.key.str.nonempty = true
  · rw [if_pos hidle]
    by_cases hdue : 0 < d.queue.count ∧ (Double.fin e.now).ge d.nextSend = true
    · have hflying : d.inFlight = [] := if_neg (by rw [hidle.1]; exact nofun)
      have hstart := startSend_inv (hflying ▸ hend) hidle.1 hdue.1 e
      unfold startReports
      simp only [hidle, hdue, and_self, true_and, if_true] at hstart ⊢
      exact hstart
    · have hreports : startReports d e = [] := if_neg fun hall => hdue hall.2.1
      rw [if_neg hdue, hreports, List.append_nil]
      split
      · exact startCheck_inv hend hidle.1 e
      · exact hend
  · have hreports : startReports d e = [] := if_neg fun hall => hidle hall.1
    rw [if_neg hidle, hreports, List.append_nil]
    exact hend

theorem tbStep_inv (h : TestInv c.inFlight c reports) (e : TbEnv) :
    TestInv (tbStep c e).1.inFlight (tbStep c e).1 (reports ++ eventReports c (.step e)) := by
  have hreq := requests_inv h e
  have hshown : ∀ d : TbCtx, SameTest (c.requests e) d → d.inFlight = (c.requests e).inFlight →
      TestInv d.inFlight d (reports ++ eventReports c (.step e)) := by
    intro d hsame hflying
    rw [hflying]
    exact hsame.inv hreq
  unfold tbStep
  dsimp only
  split
  · exact hshown _ ⟨rfl, rfl, rfl, rfl, rfl, rfl⟩ rfl
  · split <;> exact hshown _ ⟨rfl, rfl, rfl, rfl, rfl, rfl⟩ rfl

/-- What is queued stands behind the texts that are there. -/
theorem contents_queuePush (hroom : c.queue.count < tbQueue) (kind : JobKind) (dest msg : CString)
    (now : FinDouble) :
    (c.queuePush kind dest msg now).queue.contents =
      c.queue.contents ++ [⟨kind, CBuf.copy 20 dest, CBuf.copy 321 msg⟩] :=
  RingBuffer.contents_pushBack hroom _

/-- A notification changes nothing for the tests. -/
theorem queuePush_notify_inv (h : TestInv flying c reports) (hroom : c.queue.count < tbQueue)
    (dest msg : CString) (now : FinDouble) :
    TestInv flying (c.queuePush .notify dest msg now) reports := by
  have hcontents := contents_queuePush hroom .notify dest msg now
  have htests : ∀ jobs,
      tests (jobs ++ [(⟨.notify, CBuf.copy 20 dest, CBuf.copy 321 msg⟩ : TbJob)]) =
        tests jobs := by
    intro jobs
    rw [tests_append]
    exact List.append_nil _
  have haccepted : (c.queuePush .notify dest msg now).accepted.map Prod.snd =
      c.accepted.map Prod.snd ++ [⟨.notify, CBuf.copy 20 dest, CBuf.copy 321 msg⟩] := by
    simp [TbCtx.queuePush, TbCtx.noteQueued]
  refine ⟨hroom, ?_, h.ended, ?_, ?_, ?_⟩
  · rw [haccepted, hcontents, h.order, List.append_assoc _ c.queue.contents]
  · rw [testsAccepted, haccepted, htests]
    exact h.number
  · rw [hcontents, ← List.append_assoc, htests]
    exact h.waiting
  · rw [hcontents, ← List.append_assoc, htests]
    exact h.answered

theorem queueAll_inv (text : CString) (now : FinDouble) (list : List (CBuf 20))
    (h : TestInv flying c reports) (hroom : c.queue.count + list.length ≤ tbQueue) :
    TestInv flying (c.queueAll text now list) reports ∧
      (c.queueAll text now list).inFlight = c.inFlight := by
  induction list generalizing c with
  | nil => exact ⟨h, rfl⟩
  | cons dest list ih =>
    rw [List.length_cons] at hroom
    have hpush := queuePush_notify_inv h (by omega) dest.str text now
    have hcount : (c.queuePush .notify dest.str text now).queue.count + list.length ≤ tbQueue := by
      have hsucc : (c.queuePush .notify dest.str text now).queue.count = c.queue.count + 1 := rfl
      omega
    exact ih hpush hcount

/-- A test that is accepted while no other one is under way is the one the form is told of. -/
theorem testAction_inv (h : TestInv c.inFlight c reports) (json : Option CString)
    (now : FinDouble)
    (hone : AcceptsTest c json now → testsPending c = [] ∧ c.actSeq.toNat + 1 < 2 ^ 32) :
    TestInv (c.testAction (json.bind CJson.parse) now).1.inFlight
      (c.testAction (json.bind CJson.parse) now).1 reports := by
  unfold TbCtx.testAction
  dsimp only
  split
  · exact h
  · next phone hphone =>
    split
    · exact h
    · next hadmit =>
      obtain ⟨hpending, hsmall⟩ := hone ⟨by rw [hphone]; rfl, hadmit⟩
      have hroom := (admit_ok hadmit).1
      have hlt : c.queue.count < tbQueue := by omega
      have hcontents := contents_queuePush hlt .test phone.str
        (CString.lit "Moon Flare test from " ++ c.name.str.take 60 ++
          CString.lit ": SMS alerts work.") now
      generalize CString.lit "Moon Flare test from " ++ c.name.str.take 60 ++
        CString.lit ": SMS alerts work." = msg at hcontents
      have haccepted : (c.queuePush .test phone.str msg now).accepted.map Prod.snd =
          c.accepted.map Prod.snd ++ [⟨.test, CBuf.copy 20 phone.str, CBuf.copy 321 msg⟩] := by
        simp [TbCtx.queuePush, TbCtx.noteQueued]
      have hjob : tests [(⟨.test, CBuf.copy 20 phone.str, CBuf.copy 321 msg⟩ : TbJob)] =
          [⟨.test, CBuf.copy 20 phone.str, CBuf.copy 321 msg⟩] := rfl
      have hlast : tests (c.inFlight ++ (c.queuePush .test phone.str msg now).queue.contents) =
          [⟨.test, CBuf.copy 20 phone.str, CBuf.copy 321 msg⟩] := by
        rw [hcontents, ← List.append_assoc, tests_append, hjob]
        unfold testsPending at hpending
        rw [hpending, List.nil_append]
      refine ⟨hlt, ?_, h.ended, ?_, ?_, ?_⟩
      · rw [haccepted, hcontents, h.order, List.append_assoc _ c.queue.contents]
        rfl
      · have hseq : (c.actSeq + 1).toNat = c.actSeq.toNat + 1 := by
          rw [UInt32.toNat_add]
          exact Nat.mod_eq_of_lt hsmall
        rw [testsAccepted, haccepted, tests_append, hjob, List.length_append,
          List.length_singleton]
        exact hseq.trans (congrArg (· + 1) h.number)
      · intro _
        exact ⟨congrArg List.length hlast, rfl⟩
      · intro hnone
        exact absurd (hlast.symm.trans hnone) (List.cons_ne_nil _ _)

/-- An event keeps what the form is told in agreement. -/
theorem toldEvent_inv {w : Told} (h : TestInv w.ctx.inFlight w.ctx w.reports) {ev : TbEvent}
    (hone : OneTest w ev) :
    TestInv (toldEvent w ev).ctx.inFlight (toldEvent w ev).ctx (toldEvent w ev).reports := by
  cases ev with
  | step e => exact tbStep_inv h e
  | action now action json =>
    have hreports : (toldEvent w (.action now action json)).reports = w.reports :=
      List.append_nil _
    rw [hreports]
    change TestInv (tbAction w.ctx action json now).1.inFlight (tbAction w.ctx action json now).1
      w.reports
    unfold tbAction
    dsimp only
    split_ifs with hrefresh htest hnotify
    · have hsame : SameTest w.ctx { w.ctx with nextCheck := Double.zero } :=
        ⟨rfl, rfl, rfl, rfl, rfl, rfl⟩
      exact hsame.inv h
    · exact testAction_inv h json now (hone now json (by rw [htest]))
    · unfold TbCtx.notifyAction
      dsimp only
      split
      · exact h
      · next text htext =>
        split
        · exact h
        · split
          · exact h
          · exact h
          · next list _ _ =>
            split
            · exact h
            · next hadmit =>
              have hroom := (admit_ok hadmit).1
              have hfits := h.room
              have hall := queueAll_inv text.str now list h (by omega)
              have hsame : ∀ d : TbCtx, SameTest d { d with changed := true } := fun _ =>
                ⟨rfl, rfl, rfl, rfl, rfl, rfl⟩
              have hinv := (hsame _).inv hall.1
              rw [← hall.2] at hinv
              exact hinv
    · exact h

theorem toldOpened_inv (name : CBuf 64) (key : CBuf 128) (rate : ℕ) (checkEvery : Double) :
    TestInv (toldOpened name key rate checkEvery).ctx.inFlight
      (toldOpened name key rate checkEvery).ctx (toldOpened name key rate checkEvery).reports := by
  have hempty : (tbOpened name key rate checkEvery).queue.contents = [] :=
    RingBuffer.contents_of_count_zero rfl
  have hnone : tests ((tbOpened name key rate checkEvery).inFlight ++
      (tbOpened name key rate checkEvery).queue.contents) = [] := by
    rw [hempty]
    rfl
  refine ⟨Nat.zero_le _, ?_, rfl, rfl, fun hpending => absurd hnone hpending, fun _ r hr => ?_⟩
  · change [] = [] ++ [] ++ (tbOpened name key rate checkEvery).queue.contents
    rw [hempty]
    rfl
  · cases hr

/-! ## Runs -/

/-- What the form is told of a test is true of the test with that number. -/
structure Truthful (w : Told) : Prop where
  /-- Every text accepted is over, in flight or in the queue, in this order. -/
  order : w.ctx.accepted.map Prod.snd =
    w.reports.map Report.job ++ w.ctx.inFlight ++ w.ctx.queue.contents
  /-- The texts that are over are those the module ended. -/
  ended : w.ctx.ended.map (fun x => (x.job, x.ok)) = w.reports.map fun r => (r.job, r.sent)
  /-- The number is that of an accepted test. -/
  known : ∀ a, w.ctx.actionShown = some a → 0 < a.seq ∧ a.seq ≤ (testsAccepted w.ctx).length
  /-- A test that is told to be over is over, and what is told is its outcome. -/
  outcome : ∀ a, w.ctx.actionShown = some a →
    a.state = CString.lit "done" ∨ a.state = CString.lit "failed" →
      ∃ r, (testReports w)[a.seq - 1]? = some r ∧
        (testsAccepted w.ctx)[a.seq - 1]? = some r.job ∧
        (a.state = CString.lit "done" ↔ r.sent = true) ∧ a.text = r.text
  /-- A test that is not over is told to be running. -/
  running : ∀ a, w.ctx.actionShown = some a → (testReports w).length < a.seq →
    a.state = CString.lit "running"

/-- The tests accepted are those that are over and those that are under way. -/
theorem testsAccepted_eq (h : TestInv flying c reports) :
    testsAccepted c = (reports.filter fun r => decide (r.job.kind = .test)).map Report.job ++
      tests (flying ++ c.queue.contents) := by
  unfold testsAccepted
  rw [h.order, List.append_assoc, tests_append]
  unfold tests
  rw [List.filter_map]
  rfl

theorem truthful_of_inv {w : Told} (h : TestInv w.ctx.inFlight w.ctx w.reports) : Truthful w := by
  have haccepted := testsAccepted_eq h
  have hlength := congrArg List.length haccepted
  rw [List.length_append, List.length_map] at hlength
  have hshown : ∀ a, w.ctx.actionShown = some a → a.seq = (testsAccepted w.ctx).length ∧
      0 < a.seq ∧ a.text = w.ctx.actText.str ∧
      a.state = CString.lit (if w.ctx.actState = .running then "running"
        else if w.ctx.actState = .done then "done" else "failed") := by
    intro a ha
    unfold TbCtx.actionShown at ha
    by_cases hzero : w.ctx.actSeq = 0
    · rw [if_pos hzero] at ha
      cases ha
    rw [if_neg hzero] at ha
    obtain rfl := Option.some.inj ha
    refine ⟨h.number, Nat.pos_of_ne_zero fun hnat => hzero ?_, rfl, rfl⟩
    exact UInt32.toNat_inj.mp hnat
  refine ⟨h.order, h.ended, ?_, ?_, ?_⟩
  · intro a ha
    obtain ⟨hseq, hpos, -⟩ := hshown a ha
    exact ⟨hpos, hseq.le⟩
  · intro a ha hover
    obtain ⟨hseq, hpos, htext, hstate⟩ := hshown a ha
    have hidle : w.ctx.actState ≠ .running := by
      intro hrunning
      rw [hstate, if_pos hrunning] at hover
      revert hover
      decide
    have hnone : tests (w.ctx.inFlight ++ w.ctx.queue.contents) = [] := by
      by_contra hpending
      exact hidle (h.waiting hpending).2
    rw [hnone, List.length_nil, Nat.add_zero] at hlength
    have hlast : (testReports w)[a.seq - 1]? = (testReports w).getLast? := by
      rw [List.getLast?_eq_getElem?, hseq, hlength]
      rfl
    have hne : testReports w ≠ [] := by
      intro hnil
      rw [hseq, hlength] at hpos
      unfold testReports at hnil
      rw [hnil] at hpos
      exact absurd hpos (Nat.lt_irrefl 0)
    obtain ⟨r, hr⟩ : ∃ r, (testReports w).getLast? = some r :=
      ⟨_, List.getLast?_eq_some_getLast hne⟩
    obtain ⟨hanswer, hwords⟩ := h.answered hnone r hr
    refine ⟨r, hlast.trans hr, ?_, ?_, htext.trans hwords⟩
    · rw [haccepted, hnone, List.append_nil, List.getElem?_map]
      have hget := hlast.trans hr
      unfold testReports at hget
      rw [hget]
      rfl
    · rw [hstate, if_neg hidle, hanswer]
      cases r.sent <;> decide
  · intro a ha hopen
    obtain ⟨hseq, -, -, hstate⟩ := hshown a ha
    have hpending : tests (w.ctx.inFlight ++ w.ctx.queue.contents) ≠ [] := by
      intro hnone
      rw [hnone, List.length_nil, Nat.add_zero] at hlength
      rw [hseq, hlength] at hopen
      exact absurd hopen (Nat.lt_irrefl _)
    rw [hstate, if_pos (h.waiting hpending).2]

/-- When no test is accepted while another one is queued or in flight, and fewer than 2^32
are, what the form is told of a test is true of it in every state. -/
theorem tests_told (name : CBuf 64) (key : CBuf 128) (rate : ℕ) (checkEvery : Double)
    (events : List TbEvent)
    (hone : Along toldEvent OneTest (toldOpened name key rate checkEvery) events) :
    Truthful (run toldEvent (toldOpened name key rate checkEvery) events) :=
  truthful_of_inv (@invariant_run _ _ toldEvent
    (fun w => TestInv w.ctx.inFlight w.ctx w.reports) OneTest
    (fun _ _ h hone => toldEvent_inv h hone) _ (toldOpened_inv name key rate checkEvery) _ hone)

/-- A `test` action. -/
def testOf (n : Fin 4096) (phone : String) : TbEvent :=
  .action (second n) (some (CString.lit "test"))
    (some (CString.lit "\x7b\"to\":\"" ++ CString.lit phone ++ CString.lit "\"\x7d"))

/-- A text is given to a transfer, and the transfer ends well. -/
def sentWell : List TbEvent :=
  [.step ⟨second 13, 1700000000, none, true, true⟩,
    .step ⟨second 15, 1700000002, some ⟨second 15, none, 200,
      CString.lit "\x7b\"success\":true,\"quotaRemaining\":40,\"textId\":\"1\"\x7d"⟩, true, true⟩]

/-- The module with a key and no limit. -/
def keyed : Told :=
  toldOpened (CBuf.zero 64) (CBuf.copy 128 (CString.lit "key")) 0 (Double.ofInt 3600)

/-- Of two tests in the queue the second is told to be done when the first is. -/
theorem second_test_told_done :
    ¬∀ (name : CBuf 64) (key : CBuf 128) (rate : ℕ) (checkEvery : Double) (events : List TbEvent),
      Truthful (run toldEvent (toldOpened name key rate checkEvery) events) := by
  intro h
  have htold : Truthful (run toldEvent keyed
      (testOf 10 "5558838530" :: testOf 12 "5558838531" :: sentWell)) :=
    h (CBuf.zero 64) (CBuf.copy 128 (CString.lit "key")) 0 (Double.ofInt 3600) _
  have hshown : ((run toldEvent keyed
      (testOf 10 "5558838530" :: testOf 12 "5558838531" :: sentWell)).ctx.actionShown).map
        (fun a => (a.seq, a.state)) = some (2, CString.lit "done") := by decide +kernel
  have hone : (testReports (run toldEvent keyed
      (testOf 10 "5558838530" :: testOf 12 "5558838531" :: sentWell))).length = 1 := by
    decide +kernel
  obtain ⟨a, ha, hpair⟩ := Option.map_eq_some_iff.mp hshown
  obtain ⟨hseq, hstate⟩ := Prod.mk.inj hpair
  obtain ⟨r, hr, -⟩ := htold.outcome a ha (Or.inl hstate)
  have hnone := List.getElem?_eq_none hone.le
  rw [hseq] at hr
  exact absurd (hnone.symm.trans hr) nofun

/-- The theorem for one test that is sent. -/
theorem tests_told_one :
    Truthful (run toldEvent keyed (testOf 10 "5558838530" :: sentWell)) := by
  refine tests_told (CBuf.zero 64) (CBuf.copy 128 (CString.lit "key")) 0 (Double.ofInt 3600) _ ?_
  refine ⟨fun _ _ _ _ => ⟨by decide +kernel, by decide +kernel⟩, ?_, ?_, trivial⟩
  · intro _ _ heq
    cases heq
  · intro _ _ heq
    cases heq

end MoonFlare.Textbelt
