import MoonFlare.ClassicFailover

/-!
# Replies to a charger's request

The bytes of a reply come in whatever pieces the socket delivers, over as many steps as
it takes. What they come to depends on the bytes alone. A reply is told by its length
field, function and byte count and by the decoder; the transaction, the protocol and the
unit it carries are not compared with those of the request.
-/

namespace MoonFlare.Classic

open Binary Runs

/-! ## Frames -/

/-- A big endian word of a reply. -/
def wordAt (b : Bytes) (i : ℕ) : ℕ := (b.getD i 0).toNat * 256 + (b.getD (i + 1) 0).toNat

/-- The registers that a reply carries from its tenth byte on. -/
def frameRegisters (b : Bytes) : ClassicRegisters :=
  { regs := fun a => if regStart ≤ a ∧ a < regStart + regQty then wordAt b (9 + (a - regStart) * 2)
      else 0
    regCount := regImage }

/-- The bytes begin with a frame that answers a request for the registers. -/
structure ReplyFrame (b : Bytes) : Prop where
  /-- The length field covers the registers and does not exceed the buffer. -/
  length : 229 ≤ wordAt b 4 ∧ wordAt b 4 + 6 ≤ rxCap
  /-- All of the frame is there. -/
  complete : 6 + wordAt b 4 ≤ b.length
  function : b.getD 7 0 = 3
  byteCount : b.getD 8 0 = 226
  decodes : (classicDecode (frameRegisters b)).2 = .ok

/-- The frame answers the request in flight and is of the right length. -/
structure RequestedFrame (c : ClassicCtx) (b : Bytes) : Prop extends ReplyFrame b where
  transaction : wordAt b 0 = c.tid
  protocol : wordAt b 2 = 0
  unit : b.getD 6 0 = UInt8.ofNat (currentUnit c % 256).toNat
  exact : wordAt b 4 = 229

/-! ## Awaiting the reply -/

/-- The bytes that a step can receive: those in front of the first other result. -/
def received : List RecvResult → Bytes
  | .chunk b :: rest => b ++ received rest
  | _ => []

/-- The connection ends behind the bytes that a step can receive. -/
def ends : List RecvResult → Bool
  | .chunk _ :: rest => ends rest
  | .closed :: _ => true
  | .failed _ :: _ => true
  | _ => false

/-- The bytes that the charger sends over some steps, as long as the connection stands. -/
def heard : List ClassicEnv → Bytes
  | [] => []
  | e :: es => received e.recvs ++ if ends e.recvs then [] else heard es

/-- The connection ends in one of the steps. -/
def lost (es : List ClassicEnv) : Bool := es.any fun e => ends e.recvs

/-- The steps of a request until one of them has a result. -/
def awaitReply : ClassicCtx → List ClassicEnv → ClassicCtx × MfStep
  | c, [] => (c, .idle)
  | c, e :: es =>
    match pump e c with
    | (c, .idle) => awaitReply c es
    | r => r

/-- The module when it has accepted a reply. -/
def acceptedCtx (c : ClassicCtx) (b : Bytes) (now : ℚ) : ClassicCtx :=
  { c with
    data := (classicDecode (frameRegisters b)).1, unitOk := currentUnit c, haveData := true
    everOk := true, lastOk := now, nextPoll := now + c.pollIntervalS, err := CBuf.zero 96
    state := .hold, tx := [], txOff := 0, rx := []
    ioDeadline := now + c.pollIntervalS + reconnectS }

/-- When the request is out, the rest of the step is that of a module awaiting its reply. -/
theorem sendLoop_sent {e : ClassicEnv} {c : ClassicCtx} (sends : List SendResult)
    (h : c.tx.length ≤ c.txOff) :
    sendLoop e sends c =
      pump e { c with state := .recv, rx := [], ioDeadline := e.now + ioTimeoutS } := by
  have hnow : ¬e.now + ioTimeoutS < e.now := by
    unfold ioTimeoutS
    linarith
  unfold sendLoop
  rw [if_pos h]
  change _ = exchange e _
  unfold exchange
  exact (if_neg hnow).symm

/-- A module awaiting its reply receives while there is time. -/
theorem pump_recv {e : ClassicEnv} {c : ClassicCtx} (hstate : c.state = .recv)
    (hnow : e.now ≤ c.ioDeadline) : pump e c = recvLoop e e.recvs c := by
  simp only [pump, hstate, exchange]
  rw [if_neg (not_lt.mpr hnow)]

/-! ## What bytes come to -/

/-- What the reply in the buffer comes to with the decoder. -/
def verdict (c : ClassicCtx) : Fc3 :=
  match fc3Frame c with
  | .ok => if (classicDecode (replyRegisters c)).2 = .ok then .ok else .bad
  | r => r

variable {c : ClassicCtx} {e : ClassicEnv}

/-- The buffer with more bytes behind. -/
def more (c : ClassicCtx) (b : Bytes) : ClassicCtx := { c with rx := c.rx ++ b }

theorem more_nil (c : ClassicCtx) : more c [] = c := by simp [more]

theorem more_more (c : ClassicCtx) (a b : Bytes) : more (more c a) b = more c (a ++ b) := by
  simp [more]

/-- Bytes behind change none of those that are there. -/
theorem rxByte_more {i : ℕ} (h : i < c.rx.length) (b : Bytes) :
    rxByte (more c b) i = rxByte c i := by
  unfold rxByte more
  dsimp only
  rw [List.getD_append _ _ _ _ h]

theorem rxWord_more {i : ℕ} (h : i + 1 < c.rx.length) (b : Bytes) :
    rxWord (more c b) i = rxWord c i := by
  rw [rxWord, rxWord, rxByte_more (by omega), rxByte_more h]

/-- Framing that waits has room for more. -/
theorem room_of_needMore (h : fc3Frame c = .needMore) : c.rx.length < rxCap := by
  unfold fc3Frame at h
  dsimp only at h
  split_ifs at h with h6 hlen hmore
  · unfold rxCap
    omega
  · omega

/-- Framing that is done stays so. -/
theorem fc3Frame_more (h : fc3Frame c ≠ .needMore) (b : Bytes) :
    fc3Frame (more c b) = fc3Frame c := by
  have h6 : ¬c.rx.length < 6 := fun h6 => h (if_pos h6)
  have hlength : c.rx.length ≤ (more c b).rx.length := by simp [more]
  have hword : rxWord (more c b) 4 = rxWord c 4 := rxWord_more (by omega) b
  have h6' : ¬(more c b).rx.length < 6 := by omega
  unfold fc3Frame at h ⊢
  dsimp only at h ⊢
  rw [if_neg h6] at h ⊢
  rw [if_neg h6', hword]
  by_cases hlen : rxWord c 4 < 3 ∨ rxCap < rxWord c 4 + 6
  · rw [if_pos hlen, if_pos hlen]
  · rw [if_neg hlen] at h
    have hall : ¬c.rx.length < 6 + rxWord c 4 := fun hall => h (if_pos hall)
    have hall' : ¬(more c b).rx.length < 6 + rxWord c 4 := by omega
    rw [if_neg hlen, if_neg hlen, if_neg hall, if_neg hall', rxByte_more (by omega),
      rxByte_more (by omega)]

/-- A frame that is good has all the registers in it. -/
theorem fc3Frame_ok_iff : fc3Frame c = .ok ↔
    (229 ≤ rxWord c 4 ∧ rxWord c 4 + 6 ≤ rxCap) ∧ 6 + rxWord c 4 ≤ c.rx.length ∧
      rxByte c 7 = 3 ∧ rxByte c 8 = 226 := by
  unfold fc3Frame
  dsimp only
  split_ifs with h6 hlen hall hexc hfun hcount
  · refine ⟨fun h => absurd h (by decide), fun h => ?_⟩
    omega
  · refine ⟨fun h => absurd h (by decide), fun h => ?_⟩
    omega
  · refine ⟨fun h => absurd h (by decide), fun h => ?_⟩
    omega
  · refine ⟨fun h => absurd h (by decide), fun h => ?_⟩
    omega
  · exact ⟨fun h => absurd h (by decide), fun h => absurd h.2.2.1 hfun⟩
  · refine ⟨fun h => absurd h (by decide), fun h => ?_⟩
    unfold regQty at hcount
    omega
  · refine ⟨fun _ => ?_, fun _ => rfl⟩
    unfold regQty at hcount
    omega

/-- Bytes behind a good frame change none of its registers. -/
theorem replyRegisters_more (h : fc3Frame c = .ok) (b : Bytes) :
    replyRegisters (more c b) = replyRegisters c := by
  obtain ⟨hlen, hall, -⟩ := fc3Frame_ok_iff.mp h
  have hregs : (replyRegisters (more c b)).regs = (replyRegisters c).regs := by
    funext a
    unfold replyRegisters
    dsimp only
    split_ifs with ha
    · refine rxWord_more ?_ b
      unfold regStart regQty at *
      omega
    · rfl
  unfold replyRegisters at hregs ⊢
  dsimp only at hregs
  rw [hregs]

/-- A verdict that is there stays. -/
theorem verdict_more (h : verdict c ≠ .needMore) (b : Bytes) : verdict (more c b) = verdict c := by
  have hframe : fc3Frame c ≠ .needMore := by
    intro hm
    unfold verdict at h
    rw [hm] at h
    exact h rfl
  unfold verdict
  rw [fc3Frame_more hframe]
  cases hf : fc3Frame c with
  | ok => dsimp only; rw [replyRegisters_more hf]
  | needMore | bad | exception => rfl

/-- A verdict other than on the decoder is that on the framing. -/
theorem verdict_of_ne (h : fc3Frame c ≠ .ok) : verdict c = fc3Frame c := by
  unfold verdict
  cases hf : fc3Frame c with
  | ok => exact absurd hf h
  | needMore | bad | exception => rfl

theorem fc3Frame_of_ok (h : verdict c = .ok) : fc3Frame c = .ok := by
  by_contra hne
  exact hne ((verdict_of_ne hne).symm.trans h)

theorem fc3Frame_of_needMore (h : verdict c = .needMore) : fc3Frame c = .needMore := by
  by_cases hok : fc3Frame c = .ok
  · unfold verdict at h
    rw [hok] at h
    dsimp only at h
    split_ifs at h
  · exact (verdict_of_ne hok).symm.trans h

/-- A good verdict is one on a frame that answers a request. -/
theorem verdict_ok_iff : verdict c = .ok ↔ ReplyFrame c.rx := by
  have hthree : ∀ u : UInt8, u.toNat = 3 ↔ u = 3 := fun u => ⟨fun h => UInt8.toNat_inj.mp h,
    fun h => h ▸ rfl⟩
  have hcount : ∀ u : UInt8, u.toNat = 226 ↔ u = 226 := fun u => ⟨fun h => UInt8.toNat_inj.mp h,
    fun h => h ▸ rfl⟩
  constructor
  · intro h
    have hframe := fc3Frame_of_ok h
    obtain ⟨hlen, hall, hfun, hbytes⟩ := fc3Frame_ok_iff.mp hframe
    refine ⟨hlen, hall, (hthree _).mp hfun, (hcount _).mp hbytes, ?_⟩
    unfold verdict at h
    rw [hframe] at h
    by_contra hbad
    exact absurd (h.symm.trans (if_neg hbad)) (by decide)
  · intro h
    have hframe : fc3Frame c = .ok := fc3Frame_ok_iff.mpr
      ⟨h.length, h.complete, (hthree _).mpr h.function, (hcount _).mpr h.byteCount⟩
    unfold verdict
    rw [hframe]
    exact if_pos h.decodes

/-! ## The receive loop -/

/-- What the parser returns is the verdict. -/
theorem parseFc3_snd (e : ClassicEnv) (c : ClassicCtx) : (parseFc3 e c).2 = verdict c := by
  unfold parseFc3 verdict
  cases fc3Frame c with
  | ok =>
    dsimp only
    split
    next d hd => rw [hd, if_pos rfl]
    next d rc hrc hd =>
      rw [if_neg]
      rw [hd]
      exact fun h => hrc h
  | needMore | bad | exception => rfl

/-- A reply that is not all there is left in the buffer. -/
theorem parseFc3_needMore (h : verdict c = .needMore) : parseFc3 e c = (c, .needMore) := by
  unfold parseFc3
  rw [fc3Frame_of_needMore h]

/-- A good reply is decoded and the module holds the connection. -/
theorem parseFc3_ok (h : verdict c = .ok) :
    ∃ d, parseFc3 e c = (d, .ok) ∧
      { d with
        state := .hold, tx := [], txOff := 0, rx := []
        ioDeadline := d.nextPoll + reconnectS } = acceptedCtx c c.rx e.replyNow := by
  have hgood := verdict_ok_iff.mp h
  have hdecode : classicDecode (replyRegisters c) =
      ((classicDecode (frameRegisters c.rx)).1, .ok) :=
    Prod.ext rfl hgood.decodes
  unfold parseFc3
  rw [fc3Frame_of_ok h]
  dsimp only
  rw [hdecode]
  exact ⟨_, rfl, rfl⟩

/-- What a module has after its steps, by what all the bytes come to. -/
structure Outcome (c : ClassicCtx) (b : Bytes) (gone : Bool) (times : List ℚ)
    (r : ClassicCtx × MfStep) : Prop where
  /-- A good reply is accepted at the time of one of the steps. -/
  ok : verdict (more c b) = .ok →
    r.2 = .updated ∧ ∃ now ∈ times, r.1 = acceptedCtx c (c.rx ++ b) now
  /-- A bad one ends in an error. -/
  bad : verdict (more c b) = .bad ∨ verdict (more c b) = .exception → r.2 = .error
  /-- One that is not all there does so when the connection is lost. -/
  cut : verdict (more c b) = .needMore → gone = true → r.2 = .error
  /-- Else it stays in the buffer. -/
  waits : verdict (more c b) = .needMore → gone = false → r = (more c b, .idle)

/-- What a request returns, by the verdict and by whether the connection was lost. -/
def resultOf : Fc3 → Bool → MfStep
  | .ok, _ => .updated
  | .needMore, false => .idle
  | .needMore, true => .error
  | .bad, _ => .error
  | .exception, _ => .error

theorem resultOf_eq_updated {v : Fc3} {gone : Bool} : resultOf v gone = .updated ↔ v = .ok := by
  cases v <;> cases gone <;> decide

/-- The result is that of the bytes. -/
theorem Outcome.result {b : Bytes} {gone : Bool} {times : List ℚ} {r : ClassicCtx × MfStep}
    (h : Outcome c b gone times r) : r.2 = resultOf (verdict (more c b)) gone := by
  cases hv : verdict (more c b) with
  | ok => exact (h.ok hv).1
  | bad => exact h.bad (Or.inl hv)
  | exception => exact h.bad (Or.inr hv)
  | needMore =>
    cases gone with
    | true => exact h.cut hv rfl
    | false => rw [h.waits hv rfl]; rfl

/-- What is accepted does not depend on bytes behind the frame. -/
theorem acceptedCtx_more (h : verdict c = .ok) (b : Bytes) (now : ℚ) :
    acceptedCtx c (c.rx ++ b) now = acceptedCtx c c.rx now := by
  have hregs : frameRegisters (c.rx ++ b) = frameRegisters c.rx :=
    replyRegisters_more (fc3Frame_of_ok h) b
  unfold acceptedCtx
  rw [hregs]

/-- What a reply with a verdict gives is the same with bytes behind. -/
theorem Outcome.of_verdict {a b : Bytes} {gone : Bool} {times : List ℚ}
    {r : ClassicCtx × MfStep} (h : verdict (more c a) ≠ .needMore)
    (hok : verdict (more c a) = .ok →
      r.2 = .updated ∧ ∃ now ∈ times, r.1 = acceptedCtx c (c.rx ++ a) now)
    (hbad : verdict (more c a) = .bad ∨ verdict (more c a) = .exception → r.2 = .error) :
    Outcome c (a ++ b) gone times r := by
  have hsame : verdict (more c (a ++ b)) = verdict (more c a) := by
    rw [← more_more]
    exact verdict_more h b
  refine ⟨fun hv => ?_, fun hv => hbad (hsame ▸ hv), fun hv => absurd (hsame ▸ hv) h,
    fun hv => absurd (hsame ▸ hv) h⟩
  rw [hsame] at hv
  obtain ⟨hr, now, hnow, hctx⟩ := hok hv
  refine ⟨hr, now, hnow, hctx.trans ?_⟩
  have hsame := acceptedCtx_more hv b now
  rw [← List.append_assoc]
  exact hsame.symm

/-- Without more bytes the reply is still not all there. -/
theorem Outcome.of_none {gone : Bool} {times : List ℚ} {r : ClassicCtx × MfStep}
    (hmore : verdict c = .needMore) (hcut : gone = true → r.2 = .error)
    (hwaits : gone = false → r = (c, .idle)) : Outcome c [] gone times r := by
  have hsame : more c [] = c := more_nil c
  have hne : verdict c ≠ .ok ∧ verdict c ≠ .bad ∧ verdict c ≠ .exception := by
    rw [hmore]
    decide
  constructor <;> rw [hsame]
  · exact fun hv => absurd hv hne.1
  · exact fun hv => absurd hv (not_or.mpr hne.2)
  · exact fun _ => hcut
  · exact fun _ => hwaits

/-- The receive loop on the bytes of a step. -/
theorem recvLoop_outcome (e : ClassicEnv) (recvs : List RecvResult)
    (hmore : verdict c = .needMore) :
    Outcome c (received recvs) (ends recvs) [e.replyNow] (recvLoop e recvs c) := by
  induction recvs generalizing c with
  | nil =>
    have hroom := room_of_needMore (fc3Frame_of_needMore hmore)
    unfold recvLoop
    rw [if_neg (not_le.mpr hroom)]
    exact .of_none hmore (fun h => absurd h Bool.false_ne_true) fun _ => rfl
  | cons r rest ih =>
    have hroom := room_of_needMore (fc3Frame_of_needMore hmore)
    unfold recvLoop
    rw [if_neg (not_le.mpr hroom)]
    cases r with
    | wouldBlock => exact .of_none hmore (fun h => absurd h Bool.false_ne_true) fun _ => rfl
    | failed text => exact .of_none hmore (fun _ => rfl) fun h => absurd h.symm Bool.false_ne_true
    | closed => exact .of_none hmore (fun _ => rfl) fun h => absurd h.symm Bool.false_ne_true
    | chunk b =>
      dsimp only [received, ends]
      generalize hn : rxCap - c.rx.length = n
      have hreceive : receive c b = more c (b.take n) := by rw [← hn]; rfl
      rw [hreceive]
      by_cases hwait : verdict (more c (b.take n)) = .needMore
      · -- All of the chunk was taken, else the buffer would be full.
        have hfit : b.take n = b := by
          have hlen := room_of_needMore (fc3Frame_of_needMore hwait)
          simp only [more, List.length_append, List.length_take] at hlen
          exact List.take_of_length_le (by omega)
        rw [parseFc3_needMore hwait]
        dsimp only
        rw [hfit] at hwait ⊢
        obtain ⟨hok, hbad, hcut, hwaits⟩ := ih hwait
        rw [more_more] at hok hbad hcut hwaits
        refine ⟨fun hv => ?_, hbad, hcut, hwaits⟩
        obtain ⟨hr, now, hnow, hctx⟩ := hok hv
        refine ⟨hr, now, hnow, hctx.trans ?_⟩
        simp only [more, List.append_assoc]
        rfl
      · have hsplit : b ++ received rest = b.take n ++ (b.drop n ++ received rest) := by
          rw [← List.append_assoc, List.take_append_drop]
        rw [hsplit]
        refine .of_verdict hwait (fun hv => ?_) fun hv => ?_
        · obtain ⟨d, hparse, hctx⟩ := @parseFc3_ok _ e hv
          rw [hparse]
          exact ⟨rfl, e.replyNow, List.mem_singleton_self _, hctx⟩
        · have hparse := parseFc3_snd e (more c (b.take n))
          generalize hp : parseFc3 e (more c (b.take n)) = p at hparse ⊢
          obtain ⟨d, v⟩ := p
          dsimp only at hparse
          rcases hv with hv | hv
          · rw [hparse.trans hv]
            rfl
          · rw [hparse.trans hv]
            rfl

/-! ## The steps of a request -/

/-- A step with a result is the last. -/
theorem awaitReply_stop (es : List ClassicEnv) (h : (pump e c).2 ≠ .idle) :
    awaitReply c (e :: es) = pump e c := by
  unfold awaitReply
  generalize pump e c = r at h ⊢
  obtain ⟨d, step⟩ := r
  cases step with
  | idle => exact absurd rfl h
  | updated | error => rfl

theorem awaitReply_idle {d : ClassicCtx} (es : List ClassicEnv) (h : pump e c = (d, .idle)) :
    awaitReply c (e :: es) = awaitReply d es := by
  rw [awaitReply, h]

/-- What the bytes of all steps come to. -/
theorem awaitReply_outcome (es : List ClassicEnv) (hstate : c.state = .recv)
    (hmore : verdict c = .needMore) (hnow : ∀ e ∈ es, e.now ≤ c.ioDeadline) :
    Outcome c (heard es) (lost es) (es.map ClassicEnv.replyNow) (awaitReply c es) := by
  induction es generalizing c with
  | nil => exact .of_none hmore (fun h => absurd h Bool.false_ne_true) fun _ => rfl
  | cons e es ih =>
    have hpump : pump e c = recvLoop e e.recvs c := pump_recv hstate (hnow e List.mem_cons_self)
    have hstep := recvLoop_outcome e e.recvs hmore
    rw [← hpump] at hstep
    by_cases hwait : verdict (more c (received e.recvs)) = .needMore
    · cases hends : ends e.recvs with
      | true =>
        have herror := hstep.cut hwait hends
        rw [awaitReply_stop es (by rw [herror]; decide), heard, hends, if_pos rfl, List.append_nil]
        have hlost : lost (e :: es) = true := by simp [lost, hends]
        refine ⟨fun hv => ?_, fun _ => herror, fun _ _ => herror, fun _ h => ?_⟩
        · rw [hwait] at hv
          exact absurd hv (by decide)
        · rw [hlost] at h
          exact absurd h.symm Bool.false_ne_true
      | false =>
        have hidle := hstep.waits hwait hends
        obtain ⟨hok, hbad, hcut, hwaits⟩ := @ih (more c (received e.recvs)) hstate hwait
          fun d hd => hnow d (List.mem_cons_of_mem e hd)
        rw [more_more] at hok hbad hcut hwaits
        have hlost : lost (e :: es) = lost es := by simp [lost, hends]
        rw [awaitReply_idle es hidle, heard, hends, if_neg Bool.false_ne_true, hlost]
        refine ⟨fun hv => ?_, hbad, hcut, hwaits⟩
        obtain ⟨hr, now, htime, hctx⟩ := hok hv
        refine ⟨hr, now, List.mem_cons_of_mem _ htime, hctx.trans ?_⟩
        simp only [more, List.append_assoc]
        rfl
    · have hstop : (pump e c).2 ≠ .idle := by
        cases hv : verdict (more c (received e.recvs)) with
        | needMore => exact absurd hv hwait
        | ok => rw [(hstep.ok hv).1]; decide
        | bad => rw [hstep.bad (Or.inl hv)]; decide
        | exception => rw [hstep.bad (Or.inr hv)]; decide
      rw [awaitReply_stop es hstop, heard]
      refine .of_verdict hwait (fun hv => ?_) hstep.bad
      obtain ⟨hr, now, htime, hctx⟩ := hstep.ok hv
      obtain rfl := List.mem_singleton.mp htime
      exact ⟨hr, e.replyNow, List.mem_cons_self, hctx⟩

/-- A reply is accepted exactly if the bytes begin with a frame of function 3 with 226 bytes
of registers, a length field that covers them, and a block that decodes. What is accepted,
and what a request comes to, depends on the bytes and not on how they were split. -/
theorem reply_accepted_iff (c : ClassicCtx) (es : List ClassicEnv) (hstate : c.state = .recv)
    (hrx : c.rx = []) (hnow : ∀ e ∈ es, e.now ≤ c.ioDeadline) :
    ((awaitReply c es).2 = .updated ↔ ReplyFrame (heard es)) ∧
      ((awaitReply c es).2 = .updated →
        ∃ now ∈ es.map ClassicEnv.replyNow, (awaitReply c es).1 = acceptedCtx c (heard es) now) ∧
      ∀ es', (∀ e ∈ es', e.now ≤ c.ioDeadline) → heard es' = heard es → lost es' = lost es →
        (awaitReply c es').2 = (awaitReply c es).2 := by
  have hmore : verdict c = .needMore := by
    have hframe : fc3Frame c = .needMore := by
      unfold fc3Frame
      rw [hrx]
      exact if_pos (by decide)
    exact (verdict_of_ne (by rw [hframe]; decide)).trans hframe
  have hout : ∀ es, (∀ e ∈ es, e.now ≤ c.ioDeadline) →
      Outcome c (heard es) (lost es) (es.map ClassicEnv.replyNow) (awaitReply c es) :=
    fun es hnow => awaitReply_outcome es hstate hmore hnow
  have hframe : verdict (more c (heard es)) = .ok ↔ ReplyFrame (heard es) := by
    rw [verdict_ok_iff]
    simp only [more, hrx, List.nil_append]
  refine ⟨?_, fun hr => ?_, fun es' hnow' hbytes hends => ?_⟩
  · rw [(hout es hnow).result, resultOf_eq_updated, hframe]
  · rw [(hout es hnow).result, resultOf_eq_updated] at hr
    obtain ⟨-, now, htime, hctx⟩ := (hout es hnow).ok hr
    rw [hrx, List.nil_append] at hctx
    exact ⟨now, htime, hctx⟩
  · rw [(hout es' hnow').result, (hout es hnow).result, hbytes, hends]

/-! ## A foreign reply -/

/-- A module whose first request is out. -/
def askedCharger : ClassicCtx :=
  run stepTo openedCharger [{ lostEnv 1 .ready with sends := [.sent 12] }]

/-- A step in which the reply to another transaction arrives, in two pieces. -/
def foreignEnv : ClassicEnv :=
  { lostEnv 1 .ready with
    recvs := [.chunk [0, 7, 0, 0, 0], .chunk ([229, 10, 3, 226] ++ List.replicate 218 0 ++
      putBe16 expectedName ++ List.replicate 6 0)] }

/-- A reply to the first request, or to the one behind it. -/
def numberedReply (tid : ℕ) : Bytes :=
  putBe16 tid ++ [0, 0, 0, 229, 10, 3, 226] ++ List.replicate 218 0 ++ putBe16 expectedName ++
    List.replicate 6 0

/-- What the request at the next poll comes to, when the first reply was read in one way and
the next one is read in another. -/
def nextResult (first next : List RecvResult) : MfStep :=
  (pump { lostEnv 7 .ready with sends := [.sent 12], recvs := next }
    (stepTo askedCharger { lostEnv 1 .ready with recvs := first })).2

/-- The reply to another transaction is accepted. And a byte behind a reply is dropped when
one call reads it with the reply, and begins the next reply when it does not. -/
theorem foreign_reply_accepted :
    ((awaitReply askedCharger [foreignEnv]).2 = .updated ∧
      ¬RequestedFrame askedCharger (heard [foreignEnv])) ∧
    nextResult [.chunk (numberedReply 1 ++ [0])] [.chunk (numberedReply 2)] = .updated ∧
      nextResult [.chunk (numberedReply 1)] [.chunk [0], .chunk (numberedReply 2)] = .error := by
  refine ⟨⟨by decide +kernel, fun h => absurd h.transaction ?_⟩, by decide +kernel,
    by decide +kernel⟩
  decide +kernel

/-- A reply in two pieces is accepted as its bytes say. -/
theorem reply_accepted_iff_pieces :
    ((awaitReply askedCharger [foreignEnv]).2 = .updated ↔ ReplyFrame (heard [foreignEnv])) ∧
      ((awaitReply askedCharger [foreignEnv]).2 = .updated →
        ∃ now ∈ [foreignEnv].map ClassicEnv.replyNow, (awaitReply askedCharger [foreignEnv]).1 =
          acceptedCtx askedCharger (heard [foreignEnv]) now) ∧
      ∀ es', (∀ e ∈ es', e.now ≤ askedCharger.ioDeadline) → heard es' = heard [foreignEnv] →
        lost es' = lost [foreignEnv] →
          (awaitReply askedCharger es').2 = (awaitReply askedCharger [foreignEnv]).2 :=
  reply_accepted_iff askedCharger [foreignEnv] (by decide +kernel) (by decide +kernel)
    (by decide +kernel)

end MoonFlare.Classic
