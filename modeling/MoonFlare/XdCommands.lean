import MoonFlare.XdDelivery
import MoonFlare.XdReadingJson

/-!
# Commands and answers of an XD module

The module and its transport step together: a step that starts a command throws
away what the port has received and builds the command's frame, and every step
of a command goes on with its transaction. What the module stores is always
the body of a frame that answers the command of its kind: no reply to one
command, and no rest of one, ends up in another's place.
-/

namespace MoonFlare.Xd

open Runs

/-- `cmd_for_phase`. -/
def CmdPhase.code : CmdPhase → UInt8
  | .fw => 0x33
  | .barcode => 0x42
  | .poll => 0x01

/-- What the module sees of the end of a call. -/
def StepResult.toBmsIo (st : TxRx) : StepResult → BmsIo
  | .needRead => .needRead
  | .needWrite => .needWrite
  | .needTime => .needTime
  | .done body => .done body
  | .timeout | .error => .failed st.err.str

/-- A module with its transport. -/
structure Link where
  ctx : XdCtx
  addr : UInt8
  io : TxRx
  port : Port
  /-- What the line has carried since the command was started, and will carry. -/
  line : Bytes

/-- What decides a step: the clock, the port, what the line carries from a start on, and the
transport's call. -/
structure LinkInput where
  now : ℚ
  opened : Bool
  openError : CString
  line : Bytes
  poll : Poll

/-- The module when `xd_step` calls the transport, and whether it starts a command for that. -/
def underWay (now : ℚ) (opened : Bool) (c : XdCtx) : Option (XdCtx × Bool) :=
  if !c.fdOpen then
    if now < c.reopenAt then none
    else if !opened then none
    else some (startCmd { c with fdOpen := true } .fw, true)
  else if !c.ioActive then
    if now < c.nextPoll then none else some (startCmd c c.cmdPhase, true)
  else some (c, false)

/-- `bms_txrx_init` as `start_cmd` calls it. -/
def Link.start (s : Link) (phase : CmdPhase) (line : Bytes) : Link :=
  { s with io := TxRx.init s.addr phase.code [], port := ⟨line, []⟩, line := line }

/-- `xd_step` on a module and its transport. -/
def linkStep (s : Link) (e : LinkInput) : Link × MfStep :=
  match underWay e.now e.opened s.ctx with
  | none =>
    let (c, m) := xdStep ⟨e.now, e.opened, e.openError, .needRead⟩ s.ctx
    ({ s with ctx := c }, m)
  | some (c, starts) =>
    let s := if starts then s.start c.cmdPhase e.line else s
    let (io, port, r) := s.io.step s.port e.poll
    let (c, m) := xdStep ⟨e.now, e.opened, e.openError, r.toBmsIo io⟩ s.ctx
    ({ s with ctx := c, io := io, port := port }, m)

/-- A step of a run. -/
def linkNext (s : Link) (e : LinkInput) : Link := (linkStep s e).1

/-- The line carries the answer to a command that was sent once. -/
def Link.Answer (s : Link) (phase : CmdPhase) (body : Bytes) : Prop :=
  s.port.sent = bmsBuildFrame s.addr phase.code [] ∧ body.length ≤ 255 ∧
    bmsBuildFrame s.addr phase.code body <+: s.line

/-- A command that is under way has the transaction of its phase. -/
def Link.Follows (s : Link) : Prop :=
  s.ctx.ioActive = true →
    Meets s.addr s.ctx.cmdPhase.code (bmsBuildFrame s.addr s.ctx.cmdPhase.code []) s.line s.io
      s.port ∧ s.io.phase ≠ .done

variable {s : Link} {e : LinkInput} {c c' : XdCtx} {starts : Bool}

/-- What a step stores, and which command it answers. -/
structure Stored (c : XdCtx) (answers : CmdPhase → Bytes → Prop) (x : XdCtx × MfStep) : Prop where
  firmware : x.1.firmware = c.firmware ∨
    ∃ body, answers .fw body ∧ x.1.firmware = copyAscii body
  barcode : x.1.barcode = c.barcode ∨
    ∃ body, answers .barcode body ∧ x.1.barcode = copyAscii body
  reading : x.1.rt = c.rt ∧ x.2 ≠ .updated ∨
    ∃ body, answers .poll body ∧ x.1.rt = (bmsParseRealtime body c.rt).1 ∧
      (x.2 = .updated ↔ (bmsParseRealtime body c.rt).2 = true)

theorem onReply_stored (c : XdCtx) (now : ℚ) (body : Bytes) :
    Stored c (fun phase b => phase = c.cmdPhase ∧ b = body) (onReply c now body) := by
  unfold onReply
  cases hphase : c.cmdPhase with
  | fw => exact ⟨Or.inr ⟨body, ⟨rfl, rfl⟩, rfl⟩, Or.inl rfl, Or.inl ⟨rfl, by simp⟩⟩
  | barcode => exact ⟨Or.inl rfl, Or.inr ⟨body, ⟨rfl, rfl⟩, rfl⟩, Or.inl ⟨rfl, by simp⟩⟩
  | poll =>
    rcases hparse : bmsParseRealtime body c.rt with ⟨rt, ok⟩
    cases ok with
    | true =>
      refine ⟨Or.inl rfl, Or.inl rfl, Or.inr ⟨body, ⟨rfl, rfl⟩, ?_, ?_⟩⟩ <;> simp [hparse]
    | false =>
      refine ⟨Or.inl rfl, Or.inl rfl, Or.inr ⟨body, ⟨rfl, rfl⟩, ?_, ?_⟩⟩ <;> simp [hparse]

theorem Stored.imp {answers answers' : CmdPhase → Bytes → Prop} {x : XdCtx × MfStep}
    (h : Stored c answers x) (himp : ∀ phase body, answers phase body → answers' phase body) :
    Stored c answers' x :=
  ⟨h.firmware.imp_right fun ⟨body, ha, hx⟩ => ⟨body, himp _ _ ha, hx⟩,
    h.barcode.imp_right fun ⟨body, ha, hx⟩ => ⟨body, himp _ _ ha, hx⟩,
    h.reading.imp_right fun ⟨body, ha, hx⟩ => ⟨body, himp _ _ ha, hx⟩⟩

theorem Stored.kept {answers : CmdPhase → Bytes → Prop} {x : XdCtx × MfStep}
    (hf : x.1.firmware = c.firmware) (hb : x.1.barcode = c.barcode) (hr : x.1.rt = c.rt)
    (hm : x.2 ≠ .updated) : Stored c answers x :=
  ⟨Or.inl hf, Or.inl hb, Or.inl ⟨hr, hm⟩⟩

/-- What is stored is compared with the three fields only. -/
theorem Stored.of_same {answers : CmdPhase → Bytes → Prop} {x : XdCtx × MfStep}
    (h : Stored c' answers x) (hf : c'.firmware = c.firmware) (hb : c'.barcode = c.barcode)
    (hr : c'.rt = c.rt) : Stored c answers x :=
  ⟨hf ▸ h.firmware, hb ▸ h.barcode, hr ▸ h.reading⟩

theorem onIo_stored (c : XdCtx) (e : XdEnv) :
    Stored c (fun phase b => phase = c.cmdPhase ∧ e.io = .done b) (onIo c e) := by
  unfold onIo
  split
  · exact Stored.kept rfl rfl rfl (by simp)
  · exact Stored.kept rfl rfl rfl (by simp)
  · exact Stored.kept rfl rfl rfl (by simp)
  · next body hio =>
    have hreply := onReply_stored { c with ioActive := false } e.now body
    have hstored : Stored c _ _ := hreply.of_same rfl rfl rfl
    refine hstored.imp ?_
    rintro phase b ⟨hphase, rfl⟩
    exact ⟨hphase, hio⟩
  · exact Stored.kept rfl rfl rfl (by simp)

/-- A step that calls the transport. -/
theorem xdStep_underWay {env : XdEnv} (h : underWay env.now env.opened c = some (c', starts)) :
    xdStep env c = onIo c' env ∧ c'.ioActive = true ∧ c'.firmware = c.firmware ∧
      c'.barcode = c.barcode ∧ c'.rt = c.rt ∧ (starts = false → c' = c) := by
  unfold underWay at h
  unfold xdStep
  split_ifs at h ⊢ with hfd hreopen hopened hio hpoll <;>
    obtain ⟨rfl, rfl⟩ := Prod.mk.inj (Option.some.inj h)
  · exact ⟨rfl, rfl, rfl, rfl, rfl, by simp⟩
  · exact ⟨rfl, rfl, rfl, rfl, rfl, by simp⟩
  · exact ⟨rfl, by simpa using hio, rfl, rfl, rfl, fun _ => rfl⟩

/-- A step that does not. -/
theorem xdStep_quiet {env : XdEnv} (h : underWay env.now env.opened c = none) :
    (xdStep env c).1.firmware = c.firmware ∧ (xdStep env c).1.barcode = c.barcode ∧
      (xdStep env c).1.rt = c.rt ∧ (xdStep env c).1.ioActive = c.ioActive ∧
      (xdStep env c).1.cmdPhase = c.cmdPhase ∧ (xdStep env c).2 ≠ .updated := by
  unfold underWay at h
  unfold xdStep
  split_ifs at h ⊢ <;> simp

/-- After a call that goes on the module is as it was, after any other the command has ended. -/
theorem onIo_active (c : XdCtx) (env : XdEnv) (h : (onIo c env).1.ioActive = true) :
    (onIo c env).1 = c ∧ (env.io = .needRead ∨ env.io = .needWrite ∨ env.io = .needTime) := by
  unfold onIo at h ⊢
  split at h
  · next hio => exact ⟨rfl, Or.inl hio⟩
  · next hio => exact ⟨rfl, Or.inr (Or.inl hio)⟩
  · next hio => exact ⟨rfl, Or.inr (Or.inr hio)⟩
  · next body hio =>
    unfold onReply at h
    split at h
    · exact absurd h (by simp)
    · exact absurd h (by simp)
    · split at h <;> exact absurd h (by simp)
  · exact absurd h (by simp)

/-- The transaction that a step goes on with belongs to the module's command. -/
theorem Link.Follows.current (h : s.Follows) {now : ℚ} {opened : Bool} (line : Bytes)
    (hway : underWay now opened s.ctx = some (c', starts)) :
    let t := if starts then s.start c'.cmdPhase line else s
    t.ctx = s.ctx ∧ t.addr = s.addr ∧
      Meets s.addr c'.cmdPhase.code (bmsBuildFrame s.addr c'.cmdPhase.code []) t.line t.io t.port ∧
      t.io.phase ≠ .done := by
  have hctx := @xdStep_underWay s.ctx c' starts ⟨now, opened, CString.empty, .needRead⟩ hway
  cases starts with
  | true =>
    exact ⟨rfl, rfl, init_meets _ _ (Nat.zero_le _) line, init_open _ _ (Nat.zero_le _)⟩
  | false =>
    obtain rfl := hctx.2.2.2.2.2 rfl
    exact ⟨rfl, rfl, h hctx.2.1⟩

/-- One step of the module and its transport. -/
theorem linkStep_spec (h : s.Follows) (e : LinkInput) : (linkStep s e).1.Follows ∧
    Stored s.ctx (linkStep s e).1.Answer ((linkStep s e).1.ctx, (linkStep s e).2) := by
  unfold linkStep
  cases hway : underWay e.now e.opened s.ctx with
  | none =>
    have hquiet := @xdStep_quiet s.ctx ⟨e.now, e.opened, e.openError, .needRead⟩ hway
    refine ⟨fun hio => ?_, Stored.kept hquiet.1 hquiet.2.1 hquiet.2.2.1 hquiet.2.2.2.2.2⟩
    have hsame := h (hquiet.2.2.2.1.symm.trans hio)
    simp only [hquiet.2.2.2.2.1]
    exact hsame
  | some way =>
    obtain ⟨c, starts⟩ := way
    obtain ⟨hctx, haddr, hm, hopen⟩ := h.current e.line hway
    simp only at hctx haddr hm hopen ⊢
    generalize (if starts = true then s.start c.cmdPhase e.line else s) = t at hctx haddr hm hopen ⊢
    have hsound := step_sound hm hopen e.poll
    rcases hstep : t.io.step t.port e.poll with ⟨io, port, r⟩
    rw [hstep] at hsound
    obtain ⟨hon, hactive, hf, hb, hr, -⟩ := @xdStep_underWay s.ctx c starts
      ⟨e.now, e.opened, e.openError, r.toBmsIo io⟩ hway
    simp only [hctx, hon]
    constructor
    · intro hio
      obtain ⟨hsame, hwaits⟩ :=
        onIo_active c ⟨e.now, e.opened, e.openError, r.toBmsIo io⟩ hio
      have hpending : r.ended = false := by
        cases r <;> simp_all [StepResult.toBmsIo, StepResult.ended]
      have hne : r ≠ .error := by
        rintro rfl
        exact absurd hpending (by simp [StepResult.ended])
      have hnd : ∀ body, r ≠ .done body := by
        rintro body rfl
        exact absurd hpending (by simp [StepResult.ended])
      rw [hsame, haddr]
      exact ⟨hsound.meets hne, hsound.undone hne hnd⟩
    · refine ((onIo_stored c _).of_same hf hb hr).imp ?_
      rintro phase body ⟨rfl, hio⟩
      have hdone : r = .done body := by
        cases r <;> simp_all [StepResult.toBmsIo]
      subst hdone
      have hfits := (hsound.meets (by simp)).fits
      obtain ⟨hphase, hbody⟩ := hsound.done body rfl
      rw [hphase] at hfits
      obtain ⟨hsent, hreply⟩ := hfits
      obtain ⟨hlen, hline⟩ := replyOf_iff.mp hreply
      have hbody' : io.body = body := hbody
      rw [hbody'] at hlen hline
      exact ⟨haddr ▸ hsent, hlen, haddr ▸ hline ▸ List.prefix_append _ _⟩

/-- In every run, what a step stores is the body of a frame with the module's address and the
code of the command that was sent for it: the firmware of the first command, the barcode of the
second, and a reading of the third. -/
theorem link_answers {s : Link}
    (h : s.ctx.ioActive = true → s.io = TxRx.init s.addr s.ctx.cmdPhase.code [] ∧
      s.port = ⟨s.line, []⟩) (es : List LinkInput) (e : LinkInput) :
    Stored (run linkNext s es).ctx (linkStep (run linkNext s es) e).1.Answer
      ((linkStep (run linkNext s es) e).1.ctx, (linkStep (run linkNext s es) e).2) := by
  have hstart : s.Follows := by
    intro hio
    obtain ⟨hinit, hport⟩ := h hio
    rw [hinit, hport]
    exact ⟨init_meets _ _ (Nat.zero_le _) s.line, init_open _ _ (Nat.zero_le _)⟩
  have hfollows := @invariant_run _ _ linkNext Link.Follows (fun _ _ => True)
    (fun _ e hs _ => (linkStep_spec hs e).1) s hstart es (along_of_mem s fun _ _ => trivial)
  exact (linkStep_spec hfollows e).2

/-- A module behind `xd_open`, with the first command under way. -/
def openedLink : Link where
  ctx := ⟨5, true, true, .fw, 0, 0, BmsRealtime.zero, false, CBuf.zero 64, CBuf.zero 64,
    CBuf.zero 96⟩
  addr := 1
  io := TxRx.init 1 0x33 []
  port := ⟨bmsBuildFrame 1 0x33 [0x41], []⟩
  line := bmsBuildFrame 1 0x33 [0x41]

/-- A step in which the system takes and gives all there is; a command that it starts is
answered with this body. -/
def answered (now : ℚ) (phase : CmdPhase) (body : Bytes) : LinkInput :=
  ⟨now, true, CString.empty, bmsBuildFrame 1 phase.code body,
    ⟨false, true, [.moved 9], [.moved 3, .moved 99]⟩⟩

/-- The firmware and the barcode have come. -/
def identified : List LinkInput := [answered 1 .fw [0x41], answered 2 .barcode [0x42]]

/-- A reading of one cell. -/
def reading : LinkInput := answered 3 .poll ([0, 1] ++ List.replicate 50 0)

/-- The three commands one after the other. -/
theorem link_answers_opened :
    Stored (run linkNext openedLink identified).ctx
        (linkStep (run linkNext openedLink identified) reading).1.Answer
        ((linkStep (run linkNext openedLink identified) reading).1.ctx,
          (linkStep (run linkNext openedLink identified) reading).2) ∧
      (run linkNext openedLink identified).ctx.firmware = copyAscii [0x41] ∧
      (run linkNext openedLink identified).ctx.barcode = copyAscii [0x42] ∧
      (linkStep (run linkNext openedLink identified) reading).2 = .updated :=
  ⟨link_answers (fun _ => ⟨rfl, rfl⟩) identified reading, by decide +kernel, by decide +kernel,
    by decide +kernel⟩

end MoonFlare.Xd
