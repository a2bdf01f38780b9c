import MoonFlare.Runs
import MoonFlare.Textbelt

/-!
# The hourly cap and the account of texts

Two invariants hold in every run of the Textbelt module. Under a cap the times of
accepted texts that the module keeps are all that are recent, so that its count is
the true one and every window of an hour is within the cap. And every text accepted
is, in order, either done with, in flight or queued, and was handed to a transfer at
most once.
-/

namespace MoonFlare.Textbelt

open Runs

/-! ## An hour of the clock -/

/-- Whether a time is within the hour fades as the clock goes on. -/
theorem fading_inHour : Fading InHour where
  now t := by
    have hzero : Double.sub (.fin t) (.fin t) = Double.ofRat 0 := by simp [Double.sub]
    rw [InHour, hzero]
    decide +kernel
  earlier {t now later} ht hle h := by
    have hvals : t.val ≤ now.val ∧ now.val ≤ later.val := ⟨ht, hle⟩
    exact Double.ofRat_lt_of_le (by linarith) (by linarith) h
  since {t u now} ht hle h := by
    have hvals : t.val ≤ u.val ∧ u.val ≤ now.val := ⟨ht, hle⟩
    exact Double.ofRat_lt_of_le (by linarith) (by linarith) h

/-- What is less than an hour ago, but for the last place of a double below an hour,
is within the hour. -/
theorem inHour_of_sub_le {now t : FinDouble} (hle : t ≤ now)
    (h : now.val - t.val ≤ 3600 - 1 / 2 ^ 41) : InHour now t := by
  have hlast : (Double.ofRat (3600 - 1 / 2 ^ 41)).lt tbHourS = true := by decide +kernel
  exact Double.ofRat_lt_of_le (sub_nonneg.mpr hle) h hlast

/-! ## The account of texts -/

namespace TbCtx

/-- The text in flight. -/
def inFlight (c : TbCtx) : List TbJob := if c.req = some .send then [c.cur] else []

end TbCtx

/-- What the account is about is the same in two states. -/
structure SameTexts (c c' : TbCtx) : Prop where
  maxPerHour : c'.maxPerHour = c.maxPerHour
  queuedAt : c'.queuedAt = c.queuedAt
  queue : c'.queue = c.queue
  req : c'.req = c.req
  cur : c'.cur = c.cur
  sent : c'.sent = c.sent
  failed : c'.failed = c.failed
  accepted : c'.accepted = c.accepted
  posted : c'.posted = c.posted
  ended : c'.ended = c.ended

/-- Where every accepted text is, `flying` being what is between the queue and the end:
the texts that are not handed to the transfer yet are left out of `handed`. -/
structure Ledger (flying handed : List TbJob) (c : TbCtx) : Prop where
  room : c.queue.count ≤ tbQueue
  order : c.accepted.map Prod.snd = c.ended.map Ended.job ++ flying ++ c.queue.contents
  posted : c.posted = (c.ended.filter Ended.posted).map Ended.job ++ handed
  sent : c.sent = UInt32.ofNat (c.ended.countP Ended.ok)
  failed : c.failed = UInt32.ofNat (c.ended.countP fun x => !x.ok)
  posted_of_ok : ∀ x ∈ c.ended, x.ok = true → x.posted = true

/-- The account of a state between two events. -/
def Accounted (c : TbCtx) : Prop := Ledger c.inFlight c.inFlight c

variable {c c' : TbCtx}

theorem SameTexts.ledger (h : SameTexts c c') {flying handed : List TbJob}
    (hc : Ledger flying handed c) : Ledger flying handed c' where
  room := by simpa only [h.queue] using hc.room
  order := by simpa only [h.accepted, h.ended, h.queue] using hc.order
  posted := by simpa only [h.posted, h.ended] using hc.posted
  sent := by simpa only [h.sent, h.ended] using hc.sent
  failed := by simpa only [h.failed, h.ended] using hc.failed
  posted_of_ok := by simpa only [h.ended] using hc.posted_of_ok

theorem SameTexts.inFlight (h : SameTexts c c') : c'.inFlight = c.inFlight := by
  rw [TbCtx.inFlight, TbCtx.inFlight, h.req, h.cur]

theorem SameTexts.accounted (h : SameTexts c c') (hc : Accounted c) : Accounted c' := by
  rw [Accounted, h.inFlight]
  exact h.ledger hc

/-- `finish_send` ends the text and counts it; the rest is what is shown. -/
theorem finishSend_sameTexts (c : TbCtx) (r : Option TbReply) (why : CString) (wall : ℤ)
    (posted : Bool) :
    let ok := r.any TbReply.success
    SameTexts { c with
      ended := c.ended ++ [(⟨c.cur, posted, ok⟩ : Ended)]
      sent := if ok then c.sent + 1 else c.sent
      failed := if ok then c.failed else c.failed + 1 } (c.finishSend r why wall posted) := by
  simp only [TbCtx.finishSend, TbCtx.answerTest, TbCtx.setCredits]
  cases r with
  | none =>
    split_ifs <;> exact ⟨rfl, rfl, rfl, rfl, rfl, rfl, rfl, rfl, rfl, rfl⟩
  | some r =>
    dsimp only [Option.any_some]
    split_ifs <;> exact ⟨rfl, rfl, rfl, rfl, rfl, rfl, rfl, rfl, rfl, rfl⟩

/-- A text between the queue and the end is accounted for when it has ended. -/
theorem finishSend_accounted {r : Option TbReply} {posted : Bool} {handed : List TbJob}
    (hreq : c.req = none) (hc : Ledger [c.cur] handed c)
    (hhanded : handed = if posted then [c.cur] else [])
    (hok : r.any TbReply.success = true → posted = true) (why : CString) (wall : ℤ) :
    Accounted (c.finishSend r why wall posted) := by
  refine (finishSend_sameTexts c r why wall posted).accounted ?_
  generalize r.any TbReply.success = ok at hok ⊢
  have hidle : TbCtx.inFlight { c with
      ended := c.ended ++ [(⟨c.cur, posted, ok⟩ : Ended)]
      sent := if ok then c.sent + 1 else c.sent
      failed := if ok then c.failed else c.failed + 1 } = [] := if_neg (by simp [hreq])
  rw [Accounted, hidle]
  refine ⟨hc.room, ?_, ?_, ?_, ?_, ?_⟩
  · simp [hc.order]
  · rw [hc.posted, hhanded]
    cases posted <;> simp
  · cases ok <;> simp [hc.sent]
  · cases ok <;> simp [hc.failed]
  · intro x hx hxok
    rcases List.mem_append.mp hx with hx | hx
    · exact hc.posted_of_ok x hx hxok
    · rw [List.mem_singleton.mp hx] at hxok ⊢
      exact hok hxok

/-! ## Steps -/

theorem endRequest_ledger (h : Accounted c) : Ledger c.inFlight c.inFlight c.endRequest :=
  ⟨h.room, h.order, h.posted, h.sent, h.failed, h.posted_of_ok⟩

theorem finish_accounted (h : Accounted c) (t : Transfer) (wall : ℤ) : Accounted (c.finish t wall) := by
  have hend := endRequest_ledger h
  unfold TbCtx.finish
  dsimp only
  by_cases hsend : c.req = some .send
  · have hflying : c.inFlight = [c.endRequest.cur] := if_pos hsend
    rw [hflying] at hend
    rw [if_pos hsend]
    split
    · exact finishSend_accounted rfl hend rfl (fun _ => rfl) _ _
    · exact finishSend_accounted rfl hend rfl (fun _ => rfl) _ _
  · have hnone : c.inFlight = [] := if_neg hsend
    rw [hnone] at hend
    rw [if_neg hsend]
    split
    · exact ⟨hend.room, hend.order, hend.posted, hend.sent, hend.failed, hend.posted_of_ok⟩
    · unfold TbCtx.setCredits
      split_ifs <;>
        exact ⟨hend.room, hend.order, hend.posted, hend.sent, hend.failed, hend.posted_of_ok⟩

theorem startCheck_accounted (h : Accounted c) (hreq : c.req = none) (e : TbEnv) :
    Accounted (c.startCheck e) := by
  have hnone : c.inFlight = [] := if_neg (by simp [hreq])
  rw [Accounted, hnone] at h
  have hstill : (c.startCheck e).inFlight = [] := by
    unfold TbCtx.startCheck
    split_ifs <;> simp [TbCtx.inFlight, hreq]
  rw [Accounted, hstill]
  unfold TbCtx.startCheck
  split_ifs <;> exact ⟨h.room, h.order, h.posted, h.sent, h.failed, h.posted_of_ok⟩

theorem startSend_accounted (h : Accounted c) (hreq : c.req = none) (e : TbEnv) :
    Accounted (c.startSend e) := by
  by_cases hempty : c.queue.count = 0
  · have hpop : c.queuePop = none := if_pos hempty
    simpa only [TbCtx.startSend, hpop] using h
  · have hpop : c.queuePop = some (c.queue.front, { c with queue := c.queue.popFront }) :=
      if_neg hempty
    have hnone : c.inFlight = [] := if_neg (by simp [hreq])
    rw [Accounted, hnone] at h
    have hcons := RingBuffer.contents_eq_cons (Nat.pos_of_ne_zero hempty)
    have horder : c.accepted.map Prod.snd =
        c.ended.map Ended.job ++ [c.queue.front] ++ c.queue.popFront.contents := by
      rw [h.order, hcons]
      simp
    have hroom : c.queue.popFront.count ≤ tbQueue := by
      have := h.room
      simp only [RingBuffer.count_popFront]
      omega
    simp only [TbCtx.startSend, hpop]
    split
    · have hsend : ∀ d : TbCtx, d.req = some .send → d.inFlight = [d.cur] := fun d hd => if_pos hd
      rw [Accounted, hsend _ rfl]
      have hposted : c.posted ++ [c.queue.front] =
          (c.ended.filter Ended.posted).map Ended.job ++ [c.queue.front] := by
        rw [h.posted, List.append_nil]
      exact ⟨hroom, horder, hposted, h.sent, h.failed, h.posted_of_ok⟩
    · have hwaiting : Ledger [c.queue.front] [] { c with
          queue := c.queue.popFront, cur := c.queue.front
          nextSend := (Double.fin e.now).add tbGapS } :=
        ⟨hroom, horder, h.posted, h.sent, h.failed, h.posted_of_ok⟩
      have hfail : ∀ d : TbCtx, d.req = none → Ledger [d.cur] [] d → ∀ why,
          Accounted (d.finishSend none why e.wall false) := fun d hidle hd why =>
        finishSend_accounted hidle hd rfl Bool.noConfusion why _
      refine hfail _ ?_ hwaiting _
      exact hreq

theorem endings_accounted (h : Accounted c) (e : TbEnv) : Accounted (c.endings e) := by
  unfold TbCtx.endings
  split
  · exact finish_accounted h _ _
  · exact h

theorem requests_accounted (h : Accounted c) (e : TbEnv) : Accounted (c.requests e) := by
  have hend := endings_accounted h e
  unfold TbCtx.requests
  dsimp only
  split
  · next hidle =>
    split_ifs
    · exact startSend_accounted hend hidle.1 e
    · exact startCheck_accounted hend hidle.1 e
    · exact hend
  · exact hend

theorem tbStep_accounted (h : Accounted c) (e : TbEnv) : Accounted (tbStep c e).1 := by
  have hreq := requests_accounted h e
  unfold tbStep
  dsimp only
  have hshown : ∀ d : TbCtx, SameTexts (c.requests e) d → Accounted d := fun _ h => h.accounted hreq
  split
  · exact hshown _ ⟨rfl, rfl, rfl, rfl, rfl, rfl, rfl, rfl, rfl, rfl⟩
  · split <;> exact hshown _ ⟨rfl, rfl, rfl, rfl, rfl, rfl, rfl, rfl, rfl, rfl⟩

/-! ## The times kept -/

/-- What the cap is about is the same in two states. -/
structure SameRate (c c' : TbCtx) : Prop where
  maxPerHour : c'.maxPerHour = c.maxPerHour
  queuedAt : c'.queuedAt = c.queuedAt
  accepted : c'.accepted = c.accepted

theorem SameRate.trans {c'' : TbCtx} (h : SameRate c c') (h' : SameRate c' c'') : SameRate c c'' :=
  ⟨h'.maxPerHour.trans h.maxPerHour, h'.queuedAt.trans h.queuedAt, h'.accepted.trans h.accepted⟩

theorem SameTexts.sameRate (h : SameTexts c c') : SameRate c c' :=
  ⟨h.maxPerHour, h.queuedAt, h.accepted⟩

theorem finishSend_sameRate (c : TbCtx) (r : Option TbReply) (why : CString) (wall : ℤ)
    (posted : Bool) : SameRate c (c.finishSend r why wall posted) :=
  have h := finishSend_sameTexts c r why wall posted
  ⟨h.maxPerHour, h.queuedAt, h.accepted⟩

theorem finish_sameRate (c : TbCtx) (t : Transfer) (wall : ℤ) : SameRate c (c.finish t wall) := by
  have hend : SameRate c c.endRequest := ⟨rfl, rfl, rfl⟩
  unfold TbCtx.finish
  dsimp only
  by_cases hsend : c.req = some .send
  · rw [if_pos hsend]
    split <;> exact hend.trans (finishSend_sameRate _ _ _ _ _)
  · rw [if_neg hsend]
    split
    · exact ⟨rfl, rfl, rfl⟩
    · unfold TbCtx.setCredits
      split_ifs <;> exact ⟨rfl, rfl, rfl⟩

theorem endings_sameRate (c : TbCtx) (e : TbEnv) : SameRate c (c.endings e) := by
  unfold TbCtx.endings
  split
  · exact finish_sameRate c _ _
  · exact ⟨rfl, rfl, rfl⟩

/-- A step accepts nothing and forgets nothing. -/
theorem tbStep_sameRate (c : TbCtx) (e : TbEnv) : SameRate c (tbStep c e).1 := by
  have hsend : ∀ d : TbCtx, SameRate d (d.startSend e) := by
    intro d
    unfold TbCtx.startSend TbCtx.queuePop
    by_cases hempty : d.queue.count = 0
    · rw [if_pos hempty]
      exact ⟨rfl, rfl, rfl⟩
    · rw [if_neg hempty]
      dsimp only
      split
      · exact ⟨rfl, rfl, rfl⟩
      · refine SameRate.trans ?_ (finishSend_sameRate _ _ _ _ _)
        exact ⟨rfl, rfl, rfl⟩
  have hcheck : ∀ d : TbCtx, SameRate d (d.startCheck e) := by
    intro d
    unfold TbCtx.startCheck
    dsimp only
    split_ifs <;> exact ⟨rfl, rfl, rfl⟩
  have hreq : SameRate c (c.requests e) := by
    refine (endings_sameRate c e).trans ?_
    unfold TbCtx.requests
    dsimp only
    split_ifs
    · exact hsend _
    · exact hcheck _
    · exact ⟨rfl, rfl, rfl⟩
    · exact ⟨rfl, rfl, rfl⟩
  refine hreq.trans ?_
  unfold tbStep
  dsimp only
  split
  · exact ⟨rfl, rfl, rfl⟩
  · split <;> exact ⟨rfl, rfl, rfl⟩

/-- The times of the texts accepted. -/
def TbCtx.times (c : TbCtx) : List FinDouble := c.accepted.map Prod.fst

/-- The cap holds so far, and what the module keeps of the times tells what is recent. -/
structure Rated (limit : ℕ) (now : FinDouble) (c : TbCtx) : Prop where
  maxPerHour : c.maxPerHour = limit
  before : ∀ t ∈ c.times, t ≤ now
  remembers : c.queuedAt.Remembers InHour c.times now
  limited : RecentTimes.Limited InHour limit c.times

theorem SameRate.rated (h : SameRate c c') {limit : ℕ} {now : FinDouble} (hc : Rated limit now c) :
    Rated limit now c' := by
  have htimes : c'.times = c.times := congrArg (List.map Prod.fst) h.accepted
  refine ⟨h.maxPerHour.trans hc.maxPerHour, ?_, ?_, ?_⟩
  · simpa only [htimes] using hc.before
  · simpa only [htimes, h.queuedAt] using hc.remembers
  · simpa only [htimes] using hc.limited

theorem Rated.later {limit : ℕ} {now later : FinDouble} (h : Rated limit now c)
    (hle : now ≤ later) : Rated limit later c :=
  ⟨h.maxPerHour, fun t ht => (h.before t ht).trans hle, h.remembers.later fading_inHour hle,
    h.limited⟩

/-! ## Actions -/

/-- A text is queued for every job. -/
def pushAll (now : FinDouble) (jobs : List (JobKind × CString × CString)) (c : TbCtx) : TbCtx :=
  jobs.foldl (fun c job => c.queuePush job.1 job.2.1 job.2.2 now) c

theorem queuePush_accounted (h : Accounted c) (hroom : c.queue.count < tbQueue) (kind : JobKind)
    (dest msg : CString) (now : FinDouble) : Accounted (c.queuePush kind dest msg now) := by
  have hpush := RingBuffer.contents_pushBack hroom ⟨kind, CBuf.copy 20 dest, CBuf.copy 321 msg⟩
  refine ⟨hroom, ?_, h.posted, h.sent, h.failed, h.posted_of_ok⟩
  change (c.accepted ++ [_]).map Prod.snd =
    c.ended.map Ended.job ++ c.inFlight ++ (c.queue.pushBack _).contents
  rw [List.map_append, h.order, hpush]
  simp

/-- A text that the cap admits is noted, and counts at once. -/
theorem queuePush_rated {limit : ℕ} {now : FinDouble} (h : Rated limit now c)
    (hlimit : limit ≤ tbRateMax) (hcount : c.textsInHour now < limit) (kind : JobKind)
    (dest msg : CString) :
    Rated limit now (c.queuePush kind dest msg now) ∧
      (c.queuePush kind dest msg now).textsInHour now = c.textsInHour now + 1 := by
  have htimes : (c.queuePush kind dest msg now).times = c.times ++ [now] := by
    simp [TbCtx.queuePush, TbCtx.noteQueued, TbCtx.times]
  have hcounted := h.remembers.count_eq
  have hnoted := h.remembers.note fading_inHour h.before (hcount.trans_le hlimit)
  have hlimited := h.limited.note fading_inHour h.before (hcounted.trans_lt hcount)
  have hrated : Rated limit now (c.queuePush kind dest msg now) := by
    refine ⟨h.maxPerHour, ?_, ?_, ?_⟩
    · rw [htimes]
      intro t ht
      rcases List.mem_append.mp ht with ht | ht
      · exact h.before t ht
      · exact (List.mem_singleton.mp ht).le
    · rw [htimes]
      exact hnoted
    · rw [htimes]
      exact hlimited
  refine ⟨hrated, ?_⟩
  have hafter := hrated.remembers.count_eq
  rw [htimes, List.countP_append, hcounted, List.countP_singleton,
    if_pos (decide_eq_true (fading_inHour.now now))] at hafter
  exact hafter.symm

/-- Jobs for which there is room, under the cap, are all queued. -/
theorem pushAll_spec {limit : ℕ} {now : FinDouble} (hlimit : limit ≤ tbRateMax)
    (jobs : List (JobKind × CString × CString)) (hc : Accounted c) (h : Rated limit now c)
    (hroom : c.queue.count + jobs.length ≤ tbQueue)
    (hcount : c.textsInHour now + jobs.length ≤ limit) :
    Accounted (pushAll now jobs c) ∧ Rated limit now (pushAll now jobs c) := by
  induction jobs generalizing c with
  | nil => exact ⟨hc, h⟩
  | cons job jobs ih =>
    rw [List.length_cons] at hroom hcount
    obtain ⟨hrated, hnext⟩ := queuePush_rated h hlimit (by omega) job.1 job.2.1 job.2.2
    have hcountq : (c.queuePush job.1 job.2.1 job.2.2 now).queue.count = c.queue.count + 1 := rfl
    have hroom' : (c.queuePush job.1 job.2.1 job.2.2 now).queue.count + jobs.length ≤ tbQueue := by
      omega
    have hcount' : (c.queuePush job.1 job.2.1 job.2.2 now).textsInHour now + jobs.length ≤ limit := by
      omega
    exact ih (queuePush_accounted hc (by omega) _ _ _ _) hrated hroom' hcount'

/-- What an action queues is admitted. -/
theorem admit_ok {n : ℕ} {now : FinDouble} (h : c.admitTexts n now = .ok ()) :
    n ≤ tbQueue - c.queue.count ∧
      (0 < c.maxPerHour → c.textsInHour now + n ≤ c.maxPerHour) := by
  unfold TbCtx.admitTexts at h
  split_ifs at h with hkey hstate hroom hcap
  exact ⟨not_lt.mp hroom, fun hpos => not_lt.mp fun hover => hcap ⟨hpos, hover⟩⟩

/-- An action queues nothing, or texts that are admitted together. -/
theorem tbAction_cases (c : TbCtx) (action json : Option CString) (now : FinDouble) :
    ∃ jobs, (jobs = [] ∨ c.admitTexts jobs.length now = .ok ()) ∧
      SameTexts (pushAll now jobs c) (tbAction c action json now).1 := by
  have hsame : ∀ d : TbCtx, SameTexts d d := fun _ =>
    ⟨rfl, rfl, rfl, rfl, rfl, rfl, rfl, rfl, rfl, rfl⟩
  unfold tbAction
  dsimp only
  split_ifs with hrefresh htest hnotify
  · exact ⟨[], Or.inl rfl, ⟨rfl, rfl, rfl, rfl, rfl, rfl, rfl, rfl, rfl, rfl⟩⟩
  · unfold TbCtx.testAction
    dsimp only
    split
    · exact ⟨[], Or.inl rfl, hsame c⟩
    · next phone hphone =>
      split
      · exact ⟨[], Or.inl rfl, hsame c⟩
      · next hadmit =>
        exact ⟨[(.test, phone.str, _)], Or.inr hadmit,
          ⟨rfl, rfl, rfl, rfl, rfl, rfl, rfl, rfl, rfl, rfl⟩⟩
  · unfold TbCtx.notifyAction
    dsimp only
    split
    · exact ⟨[], Or.inl rfl, hsame c⟩
    · next text htext =>
      split
      · exact ⟨[], Or.inl rfl, hsame c⟩
      · split
        · exact ⟨[], Or.inl rfl, hsame c⟩
        · exact ⟨[], Or.inl rfl, hsame c⟩
        · next list _ _ =>
          split
          · exact ⟨[], Or.inl rfl, hsame c⟩
          · next hadmit =>
            have hall : c.queueAll text.str now list =
                pushAll now (list.map fun dest => (.notify, dest.str, text.str)) c := by
              rw [pushAll, List.foldl_map]
              rfl
            refine ⟨list.map fun dest => (.notify, dest.str, text.str), Or.inr ?_, ?_⟩
            · rwa [List.length_map]
            · rw [← hall]
              exact ⟨rfl, rfl, rfl, rfl, rfl, rfl, rfl, rfl, rfl, rfl⟩
  · exact ⟨[], Or.inl rfl, hsame c⟩

/-! ## Runs -/

/-- What holds between two events under a cap. -/
structure CapInv (limit : ℕ) (now : FinDouble) (c : TbCtx) : Prop where
  accounted : Accounted c
  rated : Rated limit now c

/-- An event keeps the account and the cap. -/
theorem capInv_tbEvent {limit : ℕ} (hpos : 0 < limit) (hlimit : limit ≤ tbRateMax)
    {now : FinDouble} (h : CapInv limit now c) (ev : TbEvent) (hle : now ≤ ev.clock) :
    CapInv limit ev.clock (tbEvent c ev) := by
  have hrated := h.rated.later hle
  cases ev with
  | step e => exact ⟨tbStep_accounted h.accounted e, (tbStep_sameRate c e).rated hrated⟩
  | action now action json =>
    obtain ⟨jobs, hadmit, hsame⟩ := tbAction_cases c action json now
    have hpushed : Accounted (pushAll now jobs c) ∧ Rated limit now (pushAll now jobs c) := by
      rcases hadmit with rfl | hadmit
      · exact ⟨h.accounted, hrated⟩
      · obtain ⟨hroom, hcap⟩ := admit_ok hadmit
        have hfit := h.accounted.room
        rw [hrated.maxPerHour] at hcap
        exact pushAll_spec hlimit jobs h.accounted hrated (by omega) (hcap hpos)
    exact ⟨hsame.accounted hpushed.1, hsame.sameRate.rated hpushed.2⟩

theorem capInv_run {limit : ℕ} (hpos : 0 < limit) (hlimit : limit ≤ tbRateMax) {now : FinDouble}
    (h : CapInv limit now c) {events : List TbEvent}
    (hclock : (events.map TbEvent.clock).Pairwise (· ≤ ·))
    (hlater : ∀ ev ∈ events, now ≤ ev.clock) : ∃ now, CapInv limit now (run tbEvent c events) := by
  induction events generalizing c now with
  | nil => exact ⟨now, h⟩
  | cons ev events ih =>
    rw [List.map_cons, List.pairwise_cons] at hclock
    have hstep := capInv_tbEvent hpos hlimit h ev (hlater ev List.mem_cons_self)
    exact ih hstep hclock.2 fun ev' hev' => hclock.1 _ (List.mem_map_of_mem hev')

theorem capInv_opened (name : CBuf 64) (key : CBuf 128) (limit : ℕ) (checkEvery : Double)
    (now : FinDouble) : CapInv limit now (tbOpened name key limit checkEvery) := by
  have hempty : (tbOpened name key limit checkEvery).queue.contents = [] :=
    RingBuffer.contents_of_count_zero rfl
  refine ⟨⟨Nat.zero_le _, ?_, rfl, rfl, rfl, fun x hx => ?_⟩, ⟨rfl, fun t ht => ?_, ?_, ?_⟩⟩
  · rw [hempty]
    rfl
  · cases hx
  · cases ht
  · exact RecentTimes.remembers_empty now
  · exact fun start => Nat.zero_le _

/-- From the opening of the module on, under a cap and with a clock that does not go back:
in every window of an hour, as the module reads the clock, at most as many texts as the cap
allows were accepted (and so in any window that is shorter by the last place of a double);
and every text accepted is, in order, done with, in flight or in the queue, which is never
over its size. What is done with was sent or failed and is counted as such, in 32 bits; and
the texts that went out to a transfer are those, each once. -/
theorem hourly_cap_and_account (name : CBuf 64) (key : CBuf 128) (checkEvery : Double) {limit : ℕ}
    (hpos : 1 ≤ limit) (hlimit : limit ≤ tbRateMax) {events : List TbEvent}
    (hclock : (events.map TbEvent.clock).Pairwise (· ≤ ·)) :
    let c := run tbEvent (tbOpened name key limit checkEvery) events
    (∀ start : FinDouble,
      c.accepted.countP (fun a => decide (start ≤ a.1) && decide (InHour a.1 start)) ≤ limit) ∧
    (∀ start : ℚ, c.accepted.countP (fun a =>
      decide (start ≤ a.1.val) && decide (a.1.val ≤ start + (3600 - 1 / 2 ^ 41))) ≤ limit) ∧
    c.accepted.map Prod.snd = c.ended.map Ended.job ++ c.inFlight ++ c.queue.contents ∧
    c.accepted.length = c.ended.countP Ended.ok + (c.ended.countP fun x => !x.ok) +
      c.queue.count + c.inFlight.length ∧
    c.queue.count ≤ tbQueue ∧
    c.sent = UInt32.ofNat (c.ended.countP Ended.ok) ∧
    c.failed = UInt32.ofNat (c.ended.countP fun x => !x.ok) ∧
    c.posted = (c.ended.filter Ended.posted).map Ended.job ++ c.inFlight ∧
    ∀ x ∈ c.ended, x.ok = true → x.posted = true := by
  have hrun : ∃ now, CapInv limit now (run tbEvent (tbOpened name key limit checkEvery) events) := by
    cases events with
    | nil => exact ⟨⟨0, Or.inl rfl⟩, capInv_opened name key limit checkEvery _⟩
    | cons ev events =>
      refine capInv_run hpos hlimit (capInv_opened name key limit checkEvery ev.clock) hclock ?_
      intro ev' hev'
      rcases List.mem_cons.mp hev' with rfl | hmem
      · exact le_rfl
      · rw [List.map_cons, List.pairwise_cons] at hclock
        exact hclock.1 _ (List.mem_map_of_mem hmem)
  intro c
  obtain ⟨now, hacc, hrated⟩ : ∃ now, CapInv limit now c := hrun
  have hwindow : ∀ p : FinDouble → Bool, c.accepted.countP (fun a => p a.1) = c.times.countP p :=
    fun p => List.countP_map.symm
  refine ⟨fun start => ?_, fun start => ?_, hacc.order, ?_, hacc.room, hacc.sent, hacc.failed,
    hacc.posted, hacc.posted_of_ok⟩
  · exact (hwindow _).trans_le (hrated.limited start)
  · refine (hwindow fun t =>
      decide (start ≤ t.val) && decide (t.val ≤ start + (3600 - 1 / 2 ^ 41))).trans_le
        (hrated.limited.of_pairwise fun t _ u _ ht hu hle => ?_)
    simp only [Bool.and_eq_true, decide_eq_true_eq] at ht hu
    exact inHour_of_sub_le hle (by linarith)
  · have hlength := congrArg List.length hacc.order
    have hparts : c.ended.length = c.ended.countP Ended.ok + c.ended.countP fun x => !x.ok := by
      simpa using List.length_eq_countP_add_countP Ended.ok
    simp only [List.length_map, List.length_append, RingBuffer.length_contents] at hlength
    omega

/-- A whole second of the clock. -/
def second (n : Fin 4096) : FinDouble :=
  ⟨n.val, by
    rcases Nat.eq_zero_or_pos n.val with hzero | hpos
    · exact Or.inl (by simp [hzero])
    · have hone : (1 : ℚ) ≤ n.val := by exact_mod_cast hpos
      have hlt : (n.val : ℚ) < 4096 := by exact_mod_cast n.isLt
      have hoverflow : (4096 : ℚ) < Binary.overflow := by decide +kernel
      rw [abs_of_pos (by linarith)]
      exact Or.inr ⟨Double.smallest_le_one.trans hone, hlt.trans hoverflow⟩⟩

/-- A text to two numbers, a test in the same hour, and the first text sent. -/
def firstTexts : List TbEvent :=
  [.action (second 10) (some (CString.lit "notify"))
      (some (CString.lit
        "\x7b\"message\":\"low battery\",\"to\":\"5558838530, 5558838531\"\x7d")),
    .action (second 12) (some (CString.lit "test"))
      (some (CString.lit "\x7b\"to\":\"5558838530\"\x7d")),
    .step ⟨second 13, 1700000000, none, true, true⟩,
    .step ⟨second 15, 1700000002, some ⟨second 15, none, 200,
      CString.lit "\x7b\"success\":true,\"quotaRemaining\":40,\"textId\":\"1\"\x7d"⟩, true, true⟩]

/-- Under a cap of two the test is refused; of the two texts accepted one is sent and the
other is in flight. -/
theorem hourly_cap_and_account_firstTexts :
    let c := run tbEvent (tbOpened (CBuf.zero 64) (CBuf.copy 128 (CString.lit "key")) 2
      (Double.ofInt 3600)) firstTexts
    (∀ start : FinDouble,
      c.accepted.countP (fun a => decide (start ≤ a.1) && decide (InHour a.1 start)) ≤ 2) ∧
    c.accepted.length = 2 ∧ c.sent = 1 ∧ c.posted = c.accepted.map Prod.snd := by
  have hall := hourly_cap_and_account (CBuf.zero 64) (CBuf.copy 128 (CString.lit "key"))
    (Double.ofInt 3600) (show 1 ≤ 2 by decide) (by decide)
    (show (firstTexts.map TbEvent.clock).Pairwise (· ≤ ·) by decide +kernel)
  exact ⟨hall.1, by decide +kernel, by decide +kernel, by decide +kernel⟩

end MoonFlare.Textbelt
