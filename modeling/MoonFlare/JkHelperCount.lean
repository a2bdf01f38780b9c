import MoonFlare.JkHelper
import MoonFlare.JkWriteQueue

/-!
# The reference count of the helper

The count of a row is the number of batteries whose handshake is up, and a refused
connect makes a helper, as long as no handshake is lost in any other way than by
closing the battery, and no connect is refused while a handshake is up.
-/

namespace MoonFlare.JkHelper

open JkWrites Runs Arithmetic

/-! ## What is to hold -/

/-- The batteries of an adapter whose handshake is up. -/
def upCount (w : World) (adapter : CBuf 16) : ℕ :=
  w.conns.countP fun c => c.adapter = adapter && c.ctx.handshakeOk

/-- The row of an adapter counts them. -/
def Accurate (adapter : CBuf 16) (w : World) : Prop :=
  ∀ row, findRow w.help adapter = some row → row.refcnt = upCount w adapter

/-- A step of a battery finds that nobody listens. -/
def Refused (c : JkCtx Double) (e : PumpEnv Double) (h : HelperEnv) : Prop :=
  h.needed = true ∧
    (Tries c e ∧ e.connect = .failed ∨
      (Tries c e ∧ e.connect = .inProgress ∨ c.state = .connecting) ∧ e.ready = true ∧
        e.soError = true)

/-- An event finds that nobody listens on an adapter. -/
def RefusedIn (w : World) (adapter : CBuf 16) (h : HelperEnv) : Event → Prop
  | .opens a mac _ e h' =>
    orHci0 a = adapter ∧ h' = h ∧ mac.str.nonempty = true ∧ e.connect = .failed ∧ h.needed = true
  | .pump i e h' =>
    h' = h ∧ ∃ c, w.conns[i]? = some c ∧ c.adapter = adapter ∧ Refused c.ctx e h
  | _ => False

/-- The helper of an adapter is still starting. -/
def StillStarting (w : World) (adapter : CBuf 16) (h : HelperEnv) : Prop :=
  ∃ row, findRow w.help adapter = some row ∧ row.stillStarting h = true

/-- What is promised of an event: the count is right behind it, the last battery
alone lets the helper quit, and a refused connect makes a helper unless one is
still starting. -/
structure Sound (adapter : CBuf 16) (w : World) (ev : Event) : Prop where
  counted : Accurate adapter (step w ev)
  quit : ∀ i writes c, ev = .close i writes → w.conns[i]? = some c → c.adapter = adapter →
    farewell (findRow w.help adapter) c.ctx = some .quit →
    ∀ j d, j ≠ i → w.conns[j]? = some d → d.adapter = adapter → d.ctx.handshakeOk = false
  spawned : ∀ h, RefusedIn w adapter h ev →
    StillStarting w adapter h ∨ ∃ pid, (step w ev).forked = w.forked ++ [pid]

/-! ## When it holds -/

/-- No line tells of a lost connection while the handshake is up. -/
def NoDrop : JkCtx Double → List Received → Prop
  | _, [] => True
  | c, r :: rs => (r = .error true → c.handshakeOk = false) ∧ NoDrop (onLine c r) rs

/-- A step loses no handshake: not by a line, by the end of the lines, or by a
failing `write`. -/
structure LinkHeld (c : JkCtx Double) (e : PumpEnv Double) : Prop where
  lines : GoesOn c e → NoDrop (pumpConnect c e).1 e.reads
  read : GoesOn c e → e.readEnd ≠ .again →
    (e.reads.foldl onLine (pumpConnect c e).1).handshakeOk = false
  flush : GoesOn c e → (afterWrites c e).fd = true →
    (flushLoop (afterWrites c e) e.writes).2 = true → (afterWrites c e).handshakeOk = false

/-- The condition on an event: no handshake is lost, also not while leave is taken,
and when a connect is refused none is up, and `fork` works unless it is not
needed. -/
structure Held (adapter : CBuf 16) (w : World) (ev : Event) : Prop where
  pump : ∀ i e h c, ev = .pump i e h → w.conns[i]? = some c → LinkHeld c.ctx e
  close : ∀ i writes c, ev = .close i writes → w.conns[i]? = some c →
    leaveFails (findRow w.help c.adapter) c.ctx writes = false
  refused : ∀ h, RefusedIn w adapter h ev →
    (∀ c ∈ w.conns, c.ctx.handshakeOk = false) ∧
      (h.fork.isSome = true ∨ StillStarting w adapter h)

/-- The event opens no battery of another adapter. -/
def Event.on (adapter : CBuf 16) : Event → Prop
  | .opens a _ _ _ _ => orHci0 a = adapter
  | _ => True

/-! ## Counting in a list -/

section Counting

variable {β : Type*} (p : β → Bool)

/-- An element counts beside the others. -/
theorem countP_eraseIdx_add {l : List β} {i : ℕ} {b : β} (h : l[i]? = some b) :
    (l.eraseIdx i).countP p + (p b).toNat = l.countP p := by
  induction l generalizing i with
  | nil => cases h
  | cons a l ih =>
    cases i with
    | zero =>
      obtain rfl : a = b := by simpa using h
      rw [List.eraseIdx_cons_zero, List.countP_cons]
      cases p a <;> rfl
    | succ i =>
      rw [List.eraseIdx_cons_succ, List.countP_cons, List.countP_cons, ← ih (by simpa using h)]
      omega

/-- After a change of one element. -/
theorem countP_modify_add {l : List β} {i : ℕ} {b : β} (h : l[i]? = some b) (f : β → β) :
    (l.modify i f).countP p + (p b).toNat = l.countP p + (p (f b)).toNat := by
  have hset : (l.modify i f)[i]? = some (f b) := by simp [h]
  have herase : (l.modify i f).eraseIdx i = l.eraseIdx i := by
    rw [List.eraseIdx_modify_of_eq]
  rw [← countP_eraseIdx_add p h, ← countP_eraseIdx_add p hset, herase]
  omega

end Counting

/-! ## The row of one adapter -/

@[simp] theorem orHci0_orHci0 (a : CBuf 16) : orHci0 (orHci0 a) = orHci0 a := by
  have hhci0 : hci0.str.nonempty = true := by decide +kernel
  unfold orHci0
  by_cases ha : a.str.nonempty = true
  · rw [if_pos ha, if_pos ha]
  · rw [if_neg ha, if_pos hhci0]

theorem apply_adapter (k : HelperCall) (h : HelperRow) : (k.apply h).adapter = h.adapter := by
  cases k with
  | spawn e =>
    simp only [HelperCall.apply, HelperRow.spawn]
    split
    · split <;> rfl
    · rfl
  | up => rfl
  | dead =>
    simp only [HelperCall.apply, HelperRow.die]
    split <;> rfl
  | release =>
    simp only [HelperCall.apply, HelperRow.release]
    split <;> rfl

/-- The table has no row but that of one adapter. -/
def OneRow (adapter : CBuf 16) (help : List HelperRow) : Prop :=
  help = [] ∨ ∃ row, help = [row] ∧ row.adapter = adapter

/-- That row, a new one before there is any. -/
def theRow (adapter : CBuf 16) (help : List HelperRow) : HelperRow :=
  help.head?.getD (.new adapter)

section OneRow

variable {a : CBuf 16} {help : List HelperRow}

theorem theRow_adapter (h : OneRow a help) : (theRow a help).adapter = a := by
  rcases h with rfl | ⟨row, rfl, hrow⟩
  · rfl
  · exact hrow

theorem helperRow_eq (ha : orHci0 a = a) (h : OneRow a help) :
    helperRow help a = [theRow a help] := by
  rcases h with rfl | ⟨row, rfl, hrow⟩
  · simp [helperRow, theRow, ha, hmax]
  · simp [helperRow, theRow, ha, hrow]

theorem findRow_eq (ha : orHci0 a = a) (h : OneRow a help) :
    findRow help a = some (theRow a help) := by
  simp [findRow, helperRow_eq ha h, ha, theRow_adapter h]

theorem onRow_eq (ha : orHci0 a = a) (h : OneRow a help) (f : HelperRow → HelperRow) :
    onRow help a f = [f (theRow a help)] := by
  simp [onRow, helperRow_eq ha h, ha, theRow_adapter h]

theorem oneRow_helperRow (ha : orHci0 a = a) (h : OneRow a help) :
    OneRow a (helperRow help a) ∧ theRow a (helperRow help a) = theRow a help := by
  rw [helperRow_eq ha h]
  exact ⟨Or.inr ⟨_, rfl, theRow_adapter h⟩, rfl⟩

end OneRow

/-- What calls do to a row. -/
def applyAll (row : HelperRow) (ks : List HelperCall) : HelperRow :=
  ks.foldl (fun h k => k.apply h) row

theorem conns_calls (w : World) (a : CBuf 16) (ks : List HelperCall) :
    (calls w a ks).conns = w.conns := by
  induction ks generalizing w with
  | nil => rfl
  | cons k ks ih => exact ih _

/-- Calls act on the row. -/
theorem help_calls {a : CBuf 16} (ha : orHci0 a = a) {w : World} (h : OneRow a w.help)
    (ks : List HelperCall) :
    OneRow a (calls w a ks).help ∧ theRow a (calls w a ks).help = applyAll (theRow a w.help) ks := by
  induction ks generalizing w with
  | nil => exact ⟨h, rfl⟩
  | cons k ks ih =>
    have hstep : (calls.call a w k).help = [k.apply (theRow a w.help)] := onRow_eq ha h k.apply
    have hone : OneRow a (calls.call a w k).help :=
      Or.inr ⟨_, hstep, (apply_adapter k _).trans (theRow_adapter h)⟩
    obtain ⟨hafter, hrow⟩ := ih hone
    refine ⟨hafter, hrow.trans ?_⟩
    rw [hstep]
    rfl

/-! ## What calls do to the count -/

/-- The acknowledgements among calls. -/
def ups (ks : List HelperCall) : ℕ :=
  ks.countP fun
    | .up => true
    | _ => false

/-- Calls other than a release count the acknowledgements. -/
theorem refcnt_applyAll (row : HelperRow) {ks : List HelperCall} (h : ∀ k ∈ ks, k ≠ .release) :
    (applyAll row ks).refcnt = row.refcnt + ups ks := by
  induction ks generalizing row with
  | nil => rfl
  | cons k ks ih =>
    have hrest := ih (k.apply row) fun k' hk' => h k' (List.mem_cons_of_mem k hk')
    refine hrest.trans ?_
    rw [ups, ups, List.countP_cons]
    cases k with
    | spawn e =>
      have hsame : (HelperCall.apply (.spawn e) row).refcnt = row.refcnt := by
        simp only [HelperCall.apply, HelperRow.spawn]
        split
        · split <;> rfl
        · rfl
      rw [hsame]
      rfl
    | up =>
      have hmore : (HelperCall.apply .up row).refcnt = row.refcnt + 1 := rfl
      rw [hmore]
      simp only [if_true]
      omega
    | dead =>
      have hsame : (HelperCall.apply .dead row).refcnt = row.refcnt := by
        simp only [HelperCall.apply, HelperRow.die]
        split <;> rfl
      rw [hsame]
      rfl
    | release => exact absurd rfl (h .release List.mem_cons_self)

/-- A row is up exactly while it is counted. -/
def Standing (row : HelperRow) : Prop := row.st = .up ↔ 0 < row.refcnt

theorem standing_up {row : HelperRow} : Standing row.rise := by simp [Standing, HelperRow.rise]

/-- Acknowledgements alone leave a row up. -/
theorem standing_applyAll {row : HelperRow} (h : Standing row) {ks : List HelperCall}
    (hks : ∀ k ∈ ks, k = .up) : Standing (applyAll row ks) := by
  induction ks generalizing row with
  | nil => exact h
  | cons k ks ih =>
    obtain rfl : k = .up := hks k List.mem_cons_self
    exact ih standing_up fun k' hk' => hks k' (List.mem_cons_of_mem _ hk')

theorem standing_release {row : HelperRow} (h : Standing row) : Standing row.release := by
  unfold HelperRow.release
  by_cases hzero : row.refcnt = 0
  · rw [if_pos hzero]
    exact h
  · rw [if_neg hzero]
    have hup : row.st = .up := h.mpr (Nat.pos_of_ne_zero hzero)
    simp only [Standing, hup, and_true]
    split
    · simp_all
    · simp only [true_iff]
      omega

/-! ## Handshakes in a step -/

/-- The handshake and the state of the connection are the same. -/
structure SameLink (c d : JkCtx Double) : Prop where
  handshakeOk : d.handshakeOk = c.handshakeOk
  state : d.state = c.state

theorem SameLink.trans {c d e : JkCtx Double} (h : SameLink c d) (h' : SameLink d e) :
    SameLink c e :=
  ⟨h'.handshakeOk.trans h.handshakeOk, h'.state.trans h.state⟩

theorem SameLink.after {c d e : JkCtx Double} (h : SameLink d e)
    (hup : d.handshakeOk = c.handshakeOk)
    (hstate : d.state = c.state) : SameLink c e :=
  SameLink.trans ⟨hup, hstate⟩ h

theorem sameLink_queueStr (c : JkCtx Double) (line : Line) : SameLink c (queueStr c line) := by
  unfold queueStr
  split <;> exact ⟨rfl, rfl⟩

theorem sameLink_wqPush (c : JkCtx Double) (reg : UInt8) (mv : ℕ) :
    SameLink c (wqPush c reg mv) := by
  unfold wqPush
  dsimp only
  split <;> exact ⟨rfl, rfl⟩

theorem sameLink_putRcv (c : JkCtx Double) (r : Request Double) : SameLink c (putRcv c r) := by
  unfold putRcv
  split
  · exact ⟨rfl, rfl⟩
  · exact (sameLink_wqPush c _ _).trans ⟨rfl, rfl⟩

theorem sameLink_lowerRcv (c : JkCtx Double) (r : Request Double) : SameLink c (lowerRcv c r) := by
  unfold lowerRcv
  split
  · exact (sameLink_wqPush c _ _).trans ⟨rfl, rfl⟩
  · exact ⟨rfl, rfl⟩

theorem sameLink_putOvp (c : JkCtx Double) (r : Request Double) : SameLink c (putOvp c r) := by
  unfold putOvp
  split
  · exact (sameLink_lowerRcv c r).trans ((sameLink_wqPush _ _ _).trans
      ((sameLink_wqPush _ _ _).trans ⟨rfl, rfl⟩))
  · exact ⟨rfl, rfl⟩

theorem sameLink_putRegisters (c : JkCtx Double) (r : Request Double) :
    SameLink c (jkPutSettings.putRegisters c r).1 := by
  unfold jkPutSettings.putRegisters
  split
  · exact ⟨rfl, rfl⟩
  · exact (sameLink_putRcv c r).trans (sameLink_putOvp _ r)

theorem sameLink_jkPutSettings (c : JkCtx Double) (r : Request Double) :
    SameLink c (jkPutSettings c r).1 := by
  unfold jkPutSettings
  split
  · split
    · exact ⟨rfl, rfl⟩
    · exact (sameLink_putRegisters _ r).after rfl rfl
  · exact sameLink_putRegisters c r

theorem sameLink_writeRegister (c : JkCtx Double) (reg : UInt8) (value : ℕ) :
    SameLink c (writeRegister c reg value) := by
  unfold writeRegister
  exact (sameLink_queueStr _ _).after rfl rfl

theorem sameLink_jkAction (c : JkCtx Double) (a : Action Double) : SameLink c (jkAction c a).1 := by
  unfold jkAction
  split
  · exact ⟨rfl, rfl⟩
  · split <;> dsimp only
    · exact sameLink_queueStr c _
    · exact ⟨rfl, rfl⟩
    · exact (sameLink_writeRegister _ _ _).after rfl rfl
    · exact ⟨rfl, rfl⟩
    · exact (sameLink_writeRegister _ _ _).after rfl rfl
    · exact (sameLink_writeRegister _ _ _).after rfl rfl
    · exact ⟨rfl, rfl⟩

theorem sameLink_popWrite (c : JkCtx Double) (w : Write) (now : Double) :
    SameLink c (popWrite c w now) := by
  have hline := sameLink_queueStr c (.register w)
  unfold popWrite
  dsimp only
  generalize queueStr c _ = d at hline ⊢
  split <;> exact ⟨hline.handshakeOk, hline.state⟩

theorem sameLink_pumpWrites (c : JkCtx Double) (now : Double) : SameLink c (pumpWrites c now) := by
  have hinfo := sameLink_queueStr c (.command (jkBuildCommand jkCmdCellInfo [] 0))
  have hboth := (sameLink_queueStr c (.command (jkBuildCommand jkCmdDeviceInfo [] 0))).trans
    (sameLink_queueStr _ (.command (jkBuildCommand jkCmdCellInfo [] 0)))
  unfold pumpWrites
  dsimp only
  generalize queueStr (queueStr c _) _ = both at hboth ⊢
  generalize queueStr c _ = info at hinfo ⊢
  split
  · exact ⟨rfl, rfl⟩
  split
  · split
    · exact sameLink_popWrite c _ now
    · exact ⟨rfl, rfl⟩
  split
  · exact ⟨rfl, rfl⟩
  split
  · exact ⟨hboth.handshakeOk, hboth.state⟩
  split
  · exact ⟨hinfo.handshakeOk, hinfo.state⟩
  split
  · exact ⟨hinfo.handshakeOk, hinfo.state⟩
  · exact ⟨rfl, rfl⟩

theorem sameLink_flushLoop (c : JkCtx Double) (writes : List WriteResult) :
    SameLink c (flushLoop c writes).1 := by
  induction writes generalizing c with
  | nil =>
    unfold flushLoop
    split <;> exact ⟨rfl, rfl⟩
  | cons r rs ih =>
    unfold flushLoop
    split
    · cases r with
      | wrote n => exact (ih _).after rfl rfl
      | again => exact ⟨rfl, rfl⟩
      | failed => exact ⟨rfl, rfl⟩
    · exact ⟨rfl, rfl⟩

/-- A handshake is up on a streaming connection only. -/
def Linked (c : JkCtx Double) : Prop := c.handshakeOk = true → c.state = .stream

theorem Linked.same {c d : JkCtx Double} (h : Linked c) (hsame : SameLink c d) : Linked d := by
  rw [Linked, hsame.handshakeOk, hsame.state]
  exact h

@[simp] theorem handshakeOk_sockClose (c : JkCtx Double) (now : Double) :
    (sockClose c now).handshakeOk = false := rfl

theorem handshakeOk_markDropped (c : JkCtx Double) : (markDropped c).handshakeOk = false := by
  unfold markDropped
  by_cases hup : c.handshakeOk = true
  · rw [if_pos hup]
    dsimp only
    split
    · exact (sameLink_queueStr _ _).handshakeOk
    · rfl
  · rw [if_neg hup]
    simpa using hup

theorem linked_of_down {c : JkCtx Double} (h : c.handshakeOk = false) : Linked c := by
  rw [Linked, h]
  nofun

/-- The handshake lost to a line. -/
def lineLost (c : JkCtx Double) : Received → ℕ
  | .error true => c.handshakeOk.toNat
  | _ => 0

/-- A frame leaves the link alone. -/
theorem sameLink_frame (c : JkCtx Double) (data : Bytes) : SameLink c (onLine c (.frame data)) := by
  simp only [onLine]
  split
  · split <;> exact ⟨rfl, rfl⟩
  · exact ⟨rfl, rfl⟩

/-- A line that acknowledges adds the handshake, an error that drops takes it. -/
theorem line_balance (c : JkCtx Double) (r : Received) :
    c.handshakeOk.toNat + ups (lineCalls c r) = (onLine c r).handshakeOk.toNat + lineLost c r := by
  cases r with
  | connected =>
    cases hup : c.handshakeOk <;> simp [lineCalls, hup, onLine, lineLost, ups]
  | error drops =>
    cases drops with
    | true => simp [lineCalls, onLine, handshakeOk_markDropped, lineLost, ups]
    | false => rfl
  | frame data => rw [(sameLink_frame c data).handshakeOk]; rfl
  | other => rfl

theorem linked_onLine {c : JkCtx Double} (h : Linked c) (r : Received) : Linked (onLine c r) := by
  cases r with
  | connected => exact fun _ => rfl
  | error drops =>
    cases drops with
    | true => exact linked_of_down (handshakeOk_markDropped c)
    | false => exact h
  | frame data => exact h.same (sameLink_frame c data)
  | other => exact h

/-- The handshakes lost to lines. -/
def linesLost : JkCtx Double → List Received → ℕ
  | _, [] => 0
  | c, r :: rs => lineLost c r + linesLost (onLine c r) rs

theorem ups_append (ks ks' : List HelperCall) : ups (ks ++ ks') = ups ks + ups ks' :=
  List.countP_append

theorem lines_balance (c : JkCtx Double) (rs : List Received) :
    c.handshakeOk.toNat + ups (linesCalls c rs) =
      (rs.foldl onLine c).handshakeOk.toNat + linesLost c rs := by
  induction rs generalizing c with
  | nil => rfl
  | cons r rs ih =>
    have hline := line_balance c r
    have hrest := ih (onLine c r)
    rw [linesCalls, ups_append, linesLost, List.foldl_cons]
    omega

theorem linked_onLines {c : JkCtx Double} (h : Linked c) (rs : List Received) :
    Linked (rs.foldl onLine c) := by
  induction rs generalizing c with
  | nil => exact h
  | cons r rs ih => exact ih (linked_onLine h r)

theorem noDrop_iff (c : JkCtx Double) (rs : List Received) : NoDrop c rs ↔ linesLost c rs = 0 := by
  induction rs generalizing c with
  | nil => exact iff_of_true trivial rfl
  | cons r rs ih =>
    rw [NoDrop, linesLost, Nat.add_eq_zero_iff, ih]
    refine and_congr_left fun _ => ?_
    cases r with
    | error drops => cases drops <;> cases hup : c.handshakeOk <;> simp [lineLost, hup]
    | _ => exact iff_of_true nofun rfl

theorem handshakeOk_startConnect {c : JkCtx Double} (h : c.handshakeOk = false)
    (e : PumpEnv Double) :
    (startConnect c e).handshakeOk = false := by
  unfold startConnect
  split
  · exact (sameLink_queueStr _ _).handshakeOk
  · rfl
  · exact h

theorem pumpConnect_down {c : JkCtx Double} (h : c.handshakeOk = false) (e : PumpEnv Double) :
    (pumpConnect c e).1.handshakeOk = false := by
  have hstart : (if c.state = .idle ∧ ¬(c.state = .idle ∧ lt e.now c.nextTry = true) then
      startConnect c e else c).handshakeOk = false := by
    split
    · exact handshakeOk_startConnect h e
    · exact h
  unfold pumpConnect
  dsimp only
  generalize (if c.state = .idle ∧ ¬(c.state = .idle ∧ lt e.now c.nextTry = true) then
    startConnect c e else c) = d at hstart ⊢
  split
  · exact hstart
  split
  · split
    · exact hstart
    split
    · rfl
    · exact (sameLink_queueStr _ _).handshakeOk.trans hstart
  · exact hstart

/-- Getting a connection neither makes nor loses a handshake. -/
theorem pumpConnect_link {c : JkCtx Double} (h : Linked c) (e : PumpEnv Double) :
    (pumpConnect c e).1.handshakeOk = c.handshakeOk ∧ Linked (pumpConnect c e).1 := by
  cases hup : c.handshakeOk with
  | false => exact ⟨pumpConnect_down hup e, linked_of_down (pumpConnect_down hup e)⟩
  | true =>
    have hsame : pumpConnect c e = (c, true) := by simp [pumpConnect, h hup]
    rw [hsame]
    exact ⟨hup, h⟩

theorem handshakeOk_drainIn (c : JkCtx Double) (e : PumpEnv Double) : (drainIn c e).handshakeOk =
    (decide (e.readEnd = .again) && (e.reads.foldl onLine c).handshakeOk) := by
  unfold drainIn
  dsimp only
  by_cases hagain : e.readEnd = .again
  · rw [if_pos hagain, decide_eq_true hagain, Bool.true_and]
  · rw [if_neg hagain, decide_eq_false hagain, Bool.false_and]
    rfl

theorem linked_drainIn {c : JkCtx Double} (h : Linked c) (e : PumpEnv Double) :
    Linked (drainIn c e) := by
  unfold drainIn
  dsimp only
  split
  · exact linked_onLines h e.reads
  · exact linked_of_down rfl

theorem ups_drainCalls (c : JkCtx Double) (e : PumpEnv Double) :
    ups (drainCalls c e) = ups (linesCalls c e.reads) := by
  rw [drainCalls, ups_append]
  split <;> rfl

theorem ups_connectCalls (c : JkCtx Double) (e : PumpEnv Double) (h : HelperEnv) :
    ups (connectCalls c e h) = 0 := by
  unfold connectCalls
  dsimp only
  repeat' split
  all_goals rfl

theorem handshakeOk_flushOut (c : JkCtx Double) (e : PumpEnv Double) :
    (flushOut c e).handshakeOk = (!(flushLoop c e.writes).2 && c.handshakeOk) := by
  have hsame := (sameLink_flushLoop c e.writes).handshakeOk
  unfold flushOut
  split
  · next d hd =>
    rw [hd]
    rfl
  · next d hd =>
    rw [hd] at hsame ⊢
    rw [← hsame]
    rfl

theorem linked_flushOut {c : JkCtx Double} (h : Linked c) (e : PumpEnv Double) :
    Linked (flushOut c e) := by
  have hsame := sameLink_flushLoop c e.writes
  unfold flushOut
  split
  · exact linked_of_down rfl
  · next d hd =>
    rw [hd] at hsame
    exact h.same hsame

theorem linked_pump {c : JkCtx Double} (h : Linked c) (e : PumpEnv Double) :
    Linked (JkWrites.pump c e) := by
  have hlink := (pumpConnect_link h e).2
  unfold JkWrites.pump
  split
  · next d hd =>
    rw [hd] at hlink
    exact hlink
  · next d hd =>
    rw [hd] at hlink
    have hlines : Linked (if d.fd then drainIn d e else d) := by
      split
      · exact linked_drainIn hlink e
      · exact hlink
    dsimp only
    generalize (if d.fd then drainIn d e else d) = lines at hlines ⊢
    have hwrites := hlines.same (sameLink_pumpWrites lines e.now)
    by_cases hopen : (pumpWrites lines e.now).fd = true
    · rw [if_pos hopen]
      exact linked_flushOut hwrites e
    · rw [if_neg hopen]
      exact hwrites

/-- A step that does not get as far as reading keeps the handshake. -/
theorem handshakeOk_pump_of_stop {c : JkCtx Double} (h : Linked c) {e : PumpEnv Double}
    (hstop : ¬GoesOn c e) :
    (JkWrites.pump c e).handshakeOk = c.handshakeOk := by
  rw [← (pumpConnect_link h e).1]
  unfold JkWrites.pump
  split
  · next d hd => rw [hd]
  · next d hd =>
    have hclosed : d.fd = false := by
      by_contra hfd
      exact hstop ⟨by rw [hd], by rw [hd]; simpa using hfd⟩
    have hsame : pumpWrites d e.now = d := by simp [pumpWrites, hclosed]
    have hlines : (if d.fd = true then drainIn d e else d) = d := if_neg (by simp [hclosed])
    have hflush : (if d.fd = true then flushOut d e else d) = d := if_neg (by simp [hclosed])
    rw [hd]
    dsimp only
    rw [hlines, hsame, hflush]

/-- One that does ends with writing. -/
theorem handshakeOk_pump {c : JkCtx Double} {e : PumpEnv Double} (hgo : GoesOn c e) :
    (JkWrites.pump c e).handshakeOk =
      (!((afterWrites c e).fd && (flushLoop (afterWrites c e) e.writes).2) &&
        (afterLines c e).handshakeOk) := by
  have hsame : (afterWrites c e).handshakeOk = (afterLines c e).handshakeOk :=
    (sameLink_pumpWrites (afterLines c e) e.now).handshakeOk
  have hpump : JkWrites.pump c e =
      if (afterWrites c e).fd then flushOut (afterWrites c e) e else afterWrites c e := by
    obtain ⟨hon, hfd⟩ := hgo
    unfold JkWrites.pump
    split
    · next d hd =>
      rw [hd] at hon
      cases hon
    · next d hd =>
      rw [hd] at hfd
      have hlines : afterLines c e = drainIn d e := by rw [afterLines, hd]
      dsimp only
      rw [if_pos hfd, ← hlines]
      rfl
  rw [hpump, ← hsame]
  cases hopen : (afterWrites c e).fd with
  | true => rw [if_pos rfl, handshakeOk_flushOut, Bool.true_and]
  | false => rfl

/-- The acknowledgements of a step make up for its change of the handshake exactly
when it loses none. -/
theorem pump_balance_iff {c : JkCtx Double} (hlinked : Linked c) (e : PumpEnv Double)
    (h : HelperEnv) :
    c.handshakeOk.toNat + ups (pumpCalls c e h) = (JkWrites.pump c e).handshakeOk.toNat ↔
      LinkHeld c e := by
  by_cases hgo : GoesOn c e
  · have hups : ups (pumpCalls c e h) = ups (linesCalls (pumpConnect c e).1 e.reads) := by
      rw [pumpCalls, ups_append, ups_connectCalls, if_pos ⟨hgo.1, hgo.2⟩, ups_drainCalls,
        Nat.zero_add]
    have hlines := lines_balance (pumpConnect c e).1 e.reads
    have hsame : (afterWrites c e).handshakeOk = (afterLines c e).handshakeOk :=
      (sameLink_pumpWrites (afterLines c e) e.now).handshakeOk
    have hdrain : (afterLines c e).handshakeOk = _ := handshakeOk_drainIn (pumpConnect c e).1 e
    have hheld : LinkHeld c e ↔ linesLost (pumpConnect c e).1 e.reads = 0 ∧
        (e.readEnd ≠ .again → (e.reads.foldl onLine (pumpConnect c e).1).handshakeOk = false) ∧
        ((afterWrites c e).fd = true → (flushLoop (afterWrites c e) e.writes).2 = true →
          (afterLines c e).handshakeOk = false) := by
      rw [← noDrop_iff, ← hsame]
      exact ⟨fun hh => ⟨hh.lines hgo, hh.read hgo, hh.flush hgo⟩,
        fun hh => ⟨fun _ => hh.1, fun _ => hh.2.1, fun _ => hh.2.2⟩⟩
    rw [hheld, hups, handshakeOk_pump hgo, hdrain, ← (pumpConnect_link hlinked e).1, hlines]
    by_cases hagain : e.readEnd = .again
    · simp only [hagain, decide_true, Bool.true_and, ne_eq, not_true_eq_false, false_imp_iff,
        true_and]
      cases (afterWrites c e).fd <;> cases (flushLoop (afterWrites c e) e.writes).2 <;>
        cases (e.reads.foldl onLine (pumpConnect c e).1).handshakeOk <;> simp
    · simp only [hagain, decide_false, Bool.false_and, Bool.and_false, Bool.toNat_false, ne_eq,
        not_false_eq_true, forall_const, implies_true, and_true, Nat.add_eq_zero_iff,
        Bool.toNat_eq_zero]
      exact and_comm
  · have hups : ups (pumpCalls c e h) = 0 := by
      rw [pumpCalls, ups_append, ups_connectCalls, if_neg (by simpa [GoesOn] using hgo)]
      rfl
    rw [hups, handshakeOk_pump_of_stop hlinked hgo]
    exact iff_of_true rfl ⟨fun h => absurd h hgo, fun h => absurd h hgo, fun h => absurd h hgo⟩

/-! ## Refused connects -/

theorem state_startConnect (c : JkCtx Double) (e : PumpEnv Double) : (startConnect c e).state =
    match e.connect with
    | .connected => .handshake
    | .inProgress => .connecting
    | .failed => c.state := by
  unfold startConnect
  cases e.connect with
  | connected => exact (sameLink_queueStr _ _).state
  | inProgress => rfl
  | failed => rfl

/-- A step that finds that nobody listens spawns, and goes no further. -/
theorem pumpCalls_refused {c : JkCtx Double} {e : PumpEnv Double} {h : HelperEnv}
    (hr : Refused c e h) :
    pumpCalls c e h = [.spawn h] ∧ ¬GoesOn c e := by
  obtain ⟨hneeded, hcases⟩ := hr
  have hcalls : connectCalls c e h = [.spawn h] ∧ (pumpConnect c e).2 = false := by
    rcases hcases with ⟨⟨hidle, htime⟩, hfailed⟩ | ⟨⟨⟨hidle, htime⟩, hprogress⟩ | hconnecting,
      hready, herror⟩
    · have hstate := state_startConnect c e
      rw [hfailed] at hstate
      simp [connectCalls, pumpConnect, hidle, htime, hstate, hneeded]
    · have hstate := state_startConnect c e
      rw [hprogress] at hstate
      simp [connectCalls, pumpConnect, hidle, htime, hstate, hneeded, hready, herror]
    · simp [connectCalls, pumpConnect, hconnecting, hneeded, hready, herror]
  have hstop : ¬GoesOn c e := fun hgo => by
    have hon := hgo.1
    rw [hcalls.2] at hon
    cases hon
  refine ⟨?_, hstop⟩
  rw [pumpCalls, hcalls.1, if_neg fun hgo => hstop ⟨hgo.1, hgo.2⟩, List.append_nil]

/-- A step that is not refused spawns nothing. -/
theorem connectCalls_free {c : JkCtx Double} {e : PumpEnv Double} {h : HelperEnv}
    (hr : ¬Refused c e h) :
    connectCalls c e h = [] := by
  unfold connectCalls
  by_cases hneeded : h.needed = true
  · have hfree : ¬(Tries c e ∧ e.connect = .failed) ∧
        ¬((Tries c e ∧ e.connect = .inProgress ∨ c.state = .connecting) ∧ e.ready = true ∧
          e.soError = true) := not_or.mp fun hcases => hr ⟨hneeded, hcases⟩
    by_cases htries : Tries c e
    · have hstate := state_startConnect c e
      have hcond : c.state = .idle ∧ ¬(c.state = .idle ∧ lt e.now c.nextTry = true) :=
        ⟨htries.1, fun h => htries.2 h.2⟩
      dsimp only
      rw [if_pos hcond, if_neg hcond.2]
      cases hconnect : e.connect with
      | failed => exact absurd ⟨htries, hconnect⟩ hfree.1
      | inProgress =>
        rw [hconnect] at hstate
        rw [hstate, if_neg nofun, if_neg fun h => hfree.2 ⟨Or.inl ⟨htries, hconnect⟩, h.2⟩]
      | connected =>
        rw [hconnect] at hstate
        rw [hstate, if_neg nofun, if_neg nofun]
    · have hcond : ¬(c.state = .idle ∧ ¬(c.state = .idle ∧ lt e.now c.nextTry = true)) :=
        fun h => htries ⟨h.1, fun hlt => h.2 ⟨h.1, hlt⟩⟩
      dsimp only
      rw [if_neg hcond]
      by_cases hidle : c.state = .idle
      · rw [if_pos (by simpa [hidle] using hcond)]
      · rw [if_neg (fun h => hidle h.1), if_neg hidle,
          if_neg fun h => hfree.2 ⟨Or.inr h.1, h.2⟩]
  · dsimp only
    rw [if_neg hneeded]
    repeat' split
    all_goals rfl

/-- The lines of a step make acknowledgements alone. -/
theorem linesCalls_up (c : JkCtx Double) (rs : List Received) : ∀ k ∈ linesCalls c rs, k = .up := by
  induction rs generalizing c with
  | nil => nofun
  | cons r rs ih =>
    intro k hk
    rcases List.mem_append.mp hk with hline | hrest
    · cases r with
      | connected =>
        simp only [lineCalls] at hline
        split at hline
        · cases hline
        · exact List.mem_singleton.mp hline
      | _ => cases hline
    · exact ih _ k hrest

/-- A step releases nothing. -/
theorem pumpCalls_ne_release (c : JkCtx Double) (e : PumpEnv Double) (h : HelperEnv) :
    ∀ k ∈ pumpCalls c e h, k ≠ .release := by
  intro k hk
  by_cases hr : Refused c e h
  · rw [(pumpCalls_refused hr).1] at hk
    obtain rfl := List.mem_singleton.mp hk
    nofun
  · rw [pumpCalls, connectCalls_free hr, List.nil_append] at hk
    split at hk
    · rcases List.mem_append.mp hk with hlines | hdead
      · rw [linesCalls_up _ _ k hlines]
        nofun
      · split at hdead
        · rw [List.mem_singleton.mp hdead]
          nofun
        · cases hdead
    · cases hk

/-- One that loses no handshake, and is not refused, makes acknowledgements
alone. -/
theorem pumpCalls_up {c : JkCtx Double} {e : PumpEnv Double} {h : HelperEnv} (hr : ¬Refused c e h)
    (hheld : LinkHeld c e) : ∀ k ∈ pumpCalls c e h, k = .up := by
  intro k hk
  rw [pumpCalls, connectCalls_free hr, List.nil_append] at hk
  split at hk
  · next hgo =>
    rcases List.mem_append.mp hk with hlines | hdead
    · exact linesCalls_up _ _ k hlines
    · split at hdead
      · next heof =>
        have hdown := hheld.read ⟨hgo.1, hgo.2⟩ (by rw [heof.1]; nofun)
        rw [hdown] at heof
        cases heof.2
      · cases hdead
  · cases hk

theorem standing_spawn {row : HelperRow} (h : Standing row) (e : HelperEnv) :
    Standing (row.spawn e) := by
  unfold HelperRow.spawn
  by_cases hforks : row.forks e = true
  · rw [if_pos hforks]
    have hup : row.st ≠ .up := by
      simp only [HelperRow.forks, Bool.and_eq_true, decide_eq_true_eq] at hforks
      exact hforks.2
    have hzero : ¬0 < row.refcnt := fun hpos => hup (h.mpr hpos)
    split
    · exact iff_of_false nofun hzero
    · refine iff_of_false ?_ hzero
      dsimp only
      split
      · nofun
      · exact hup
  · rw [if_neg hforks]
    exact h

/-! ## The invariant -/

/-- What holds of the table and the batteries of one adapter: the row counts the
handshakes and stands while there is one. -/
structure Inv (a : CBuf 16) (w : World) : Prop where
  table : OneRow a w.help
  counted : (theRow a w.help).refcnt = upCount w a
  standing : Standing (theRow a w.help)
  conns : ∀ c ∈ w.conns, c.adapter = a ∧ Linked c.ctx

variable {a : CBuf 16} {w : World}

theorem inv_init (a : CBuf 16) : Inv a init where
  table := Or.inl rfl
  counted := by simp [theRow, init, upCount, HelperRow.new]
  standing := by simp [Standing, theRow, init, HelperRow.new]
  conns := by simp [init]

theorem accurate_iff (ha : orHci0 a = a) (h : OneRow a w.help) :
    Accurate a w ↔ (theRow a w.help).refcnt = upCount w a := by
  simp only [Accurate, findRow_eq ha h, Option.some.injEq, forall_eq']

theorem stillStarting_iff (ha : orHci0 a = a) (h : OneRow a w.help) (e : HelperEnv) :
    StillStarting w a e ↔ (theRow a w.help).stillStarting e = true := by
  simp only [StillStarting, findRow_eq ha h, Option.some.injEq, exists_eq_left']

theorem Inv.down_iff (h : Inv a w) :
    (∀ c ∈ w.conns, c.ctx.handshakeOk = false) ↔ (theRow a w.help).st ≠ .up := by
  have hzero : (∀ c ∈ w.conns, c.ctx.handshakeOk = false) ↔ upCount w a = 0 := by
    rw [upCount, List.countP_eq_zero]
    refine forall₂_congr fun c hc => ?_
    simp [(h.conns c hc).1]
  have hstanding : (theRow a w.help).st = .up ↔ 0 < (theRow a w.help).refcnt := h.standing
  rw [hzero, ← h.counted, ne_eq, hstanding]
  omega

/-- When a refused connect is answered by a helper, or one is still starting. -/
theorem Inv.spawned_iff (ha : orHci0 a = a) (h : Inv a w) (e : HelperEnv) {w' : World}
    (hw' : w'.forked = (calls w a [.spawn e]).forked) :
    (StillStarting w a e ∨ ∃ pid, w'.forked = w.forked ++ [pid]) ↔
      (∀ c ∈ w.conns, c.ctx.handshakeOk = false) ∧
        (e.fork.isSome = true ∨ StillStarting w a e) := by
  have hforked : w'.forked =
      if (theRow a w.help).forks e then w.forked ++ e.fork.toList else w.forked := by
    rw [hw']
    simp [calls, calls.call, findRow_eq ha h.table]
  have hpid : (∃ pid, w'.forked = w.forked ++ [pid]) ↔
      (theRow a w.help).forks e = true ∧ e.fork.isSome = true := by
    rw [hforked]
    cases (theRow a w.help).forks e <;> cases e.fork <;> simp
  rw [hpid, h.down_iff, stillStarting_iff ha h.table]
  simp only [HelperRow.forks, HelperRow.stillStarting]
  cases (theRow a w.help).st <;> cases (theRow a w.help).pid <;> cases e.gone <;>
    cases e.fork <;> simp

/-! ## Each event -/

@[simp] theorem help_setCtx (w : World) (i : ℕ) (ctx : JkCtx Double) :
    (setCtx w i ctx).help = w.help := rfl

theorem step_pump {i : ℕ} {c : Conn} (hc : w.conns[i]? = some c) (e : PumpEnv Double)
    (h : HelperEnv) :
    step w (.pump i e h) =
      setCtx (calls w c.adapter (pumpCalls c.ctx e h)) i (JkWrites.pump c.ctx e) := by
  simp only [step, hc]

/-- The count after the context of a battery changed. -/
theorem upCount_setCtx (h : Inv a w) {w' : World} (hconns : w'.conns = w.conns) {i : ℕ} {c : Conn}
    (hc : w.conns[i]? = some c) (ctx : JkCtx Double) :
    upCount (setCtx w' i ctx) a + c.ctx.handshakeOk.toNat =
      upCount w a + ctx.handshakeOk.toNat := by
  have hmod := countP_modify_add (fun c => c.adapter = a && c.ctx.handshakeOk) hc
    fun c => { c with ctx := ctx }
  have hadapter := (h.conns c (List.mem_of_getElem? hc)).1
  simp only [hadapter, decide_true, Bool.true_and] at hmod
  rw [upCount, upCount, setCtx, hconns]
  exact hmod

theorem conns_setCtx (h : Inv a w) {w' : World} (hconns : w'.conns = w.conns) {i : ℕ} {c : Conn}
    (hc : w.conns[i]? = some c) {ctx : JkCtx Double} (hctx : Linked ctx) :
    ∀ d ∈ (setCtx w' i ctx).conns, d.adapter = a ∧ Linked d.ctx := by
  intro d hd
  obtain ⟨j, hj⟩ := List.getElem?_of_mem hd
  rw [setCtx, hconns, List.getElem?_modify] at hj
  by_cases hij : i = j
  · subst hij
    rw [hc] at hj
    obtain rfl : _ = d := by simpa using hj
    exact ⟨(h.conns c (List.mem_of_getElem? hc)).1, hctx⟩
  · exact h.conns d (List.mem_of_getElem? (by simpa [hij] using hj))

/-- A call that leaves the links alone. -/
theorem inv_setCtx (h : Inv a w) {i : ℕ} {c : Conn} (hc : w.conns[i]? = some c) {ctx : JkCtx Double}
    (hsame : SameLink c.ctx ctx) : Inv a (setCtx w i ctx) where
  table := h.table
  counted := by
    have hcount := upCount_setCtx h rfl hc ctx
    rw [hsame.handshakeOk] at hcount
    exact h.counted.trans (Nat.add_right_cancel hcount).symm
  standing := h.standing
  conns := conns_setCtx h rfl hc ((h.conns c (List.mem_of_getElem? hc)).2.same hsame)

/-- A step of a battery that loses no handshake. -/
theorem inv_pump (ha : orHci0 a = a) (h : Inv a w) {i : ℕ} {c : Conn} (hc : w.conns[i]? = some c)
    {e : PumpEnv Double} (hheld : LinkHeld c.ctx e) (he : HelperEnv) :
    Inv a (step w (.pump i e he)) := by
  obtain ⟨hadapter, hlinked⟩ := h.conns c (List.mem_of_getElem? hc)
  obtain ⟨hone, hrow⟩ := help_calls ha h.table (pumpCalls c.ctx e he)
  have hcount := upCount_setCtx h (conns_calls w a (pumpCalls c.ctx e he)) hc
      (JkWrites.pump c.ctx e)
  have hbalance := (pump_balance_iff hlinked e he).mpr hheld
  rw [step_pump hc, hadapter]
  refine ⟨hone, ?_, ?_, conns_setCtx h (conns_calls w a _) hc (linked_pump hlinked e)⟩
  · have hrefcnt := refcnt_applyAll (theRow a w.help) (pumpCalls_ne_release c.ctx e he)
    have hbefore := h.counted
    rw [help_setCtx, hrow]
    omega
  · rw [help_setCtx, hrow]
    by_cases hr : Refused c.ctx e he
    · rw [(pumpCalls_refused hr).1]
      exact standing_spawn h.standing he
    · exact standing_applyAll h.standing (pumpCalls_up hr hheld)

/-- The promise of a step is kept exactly under the condition. -/
theorem sound_pump_iff (ha : orHci0 a = a) (h : Inv a w) (i : ℕ) (e : PumpEnv Double)
    (he : HelperEnv) :
    Sound a w (.pump i e he) ↔ Held a w (.pump i e he) := by
  cases hc : w.conns[i]? with
  | none =>
    have hsame : step w (.pump i e he) = w := by simp only [step, hc]
    have hfree (h' : HelperEnv) : ¬RefusedIn w a h' (.pump i e he) := by
      rintro ⟨-, c, hc', -⟩
      rw [hc] at hc'
      cases hc'
    refine iff_of_true ⟨?_, fun _ _ _ heq => ?_, fun h' hr => absurd hr (hfree h')⟩
      ⟨?_, fun _ _ _ heq => ?_, fun h' hr => absurd hr (hfree h')⟩
    · rw [hsame, accurate_iff ha h.table]
      exact h.counted
    · cases heq
    · rintro _ _ _ c ⟨⟩ hc'
      rw [hc] at hc'
      cases hc'
    · cases heq
  | some c =>
    obtain ⟨hadapter, hlinked⟩ := h.conns c (List.mem_of_getElem? hc)
    obtain ⟨hone, hrow⟩ := help_calls ha h.table (pumpCalls c.ctx e he)
    have hcount := upCount_setCtx h (conns_calls w a (pumpCalls c.ctx e he)) hc
      (JkWrites.pump c.ctx e)
    have hrefcnt := refcnt_applyAll (theRow a w.help) (pumpCalls_ne_release c.ctx e he)
    have hbefore := h.counted
    have hstep : step w (.pump i e he) =
        setCtx (calls w a (pumpCalls c.ctx e he)) i (JkWrites.pump c.ctx e) := by
      rw [step_pump hc, hadapter]
    have haccurate : Accurate a (step w (.pump i e he)) ↔ LinkHeld c.ctx e := by
      have honeAfter : OneRow a (setCtx (calls w a (pumpCalls c.ctx e he)) i
        (JkWrites.pump c.ctx e)).help := hone
      rw [hstep, accurate_iff ha honeAfter, ← pump_balance_iff hlinked e he, help_setCtx, hrow]
      omega
    have hrefused (h' : HelperEnv) (hr : RefusedIn w a h' (.pump i e he)) :
        (step w (.pump i e he)).forked = (calls w a [.spawn h']).forked := by
      obtain ⟨rfl, d, hd, -, hr⟩ := hr
      obtain rfl : c = d := by simpa [hc] using hd
      rw [hstep, (pumpCalls_refused hr).1]
      rfl
    constructor
    · intro hs
      refine ⟨?_, fun _ _ _ heq => ?_,
        fun h' hr => (h.spawned_iff ha h' (hrefused h' hr)).mp (hs.spawned h' hr)⟩
      · rintro _ _ _ d ⟨⟩ hd
        obtain rfl : c = d := by simpa [hc] using hd
        exact haccurate.mp hs.counted
      · cases heq
    · intro hs
      refine ⟨haccurate.mpr (hs.pump i e he c rfl hc), fun _ _ _ heq => ?_,
        fun h' hr => (h.spawned_iff ha h' (hrefused h' hr)).mpr (hs.refused h' hr)⟩
      cases heq

/-! ### Opening -/

theorem handshakeOk_jkOpen (mac : CBuf 32) (pollIntervalS : Double) (e : PumpEnv Double) :
    (jkOpen mac pollIntervalS e).handshakeOk = false := by
  unfold jkOpen
  split
  · split
    · rfl
    · exact handshakeOk_startConnect rfl e
  · rfl

/-- The row behind an opening, and the batteries. -/
theorem step_opens (ha : orHci0 a = a) (h : Inv a w) {adapter : CBuf 16}
    (hadapter : orHci0 adapter = a) (mac : CBuf 32) (pollIntervalS : Double) (e : PumpEnv Double)
    (he : HelperEnv) : Inv a (step w (.opens adapter mac pollIntervalS e he)) := by
  obtain ⟨hone, hrow⟩ := help_calls ha h.table (openCalls mac e he)
  have hcalls : openCalls mac e he = [] ∨ openCalls mac e he = [.spawn he] := by
    unfold openCalls
    split
    · split
      · exact Or.inr rfl
      · exact Or.inl rfl
    · exact Or.inl rfl
  have hspawn : (theRow a (calls w a (openCalls mac e he)).help).refcnt =
      (theRow a w.help).refcnt ∧ Standing (theRow a (calls w a (openCalls mac e he)).help) := by
    rw [hrow]
    rcases hcalls with hnone | hone
    · rw [hnone]
      exact ⟨rfl, h.standing⟩
    · rw [hone]
      exact ⟨refcnt_applyAll _ (by simp), standing_spawn h.standing he⟩
  have hdown := handshakeOk_jkOpen mac pollIntervalS e
  simp only [step, hadapter]
  refine ⟨hone, hspawn.1.trans (h.counted.trans ?_), hspawn.2, ?_⟩
  · simp [upCount, conns_calls, hdown]
  · intro c hc
    rw [conns_calls] at hc
    rcases List.mem_append.mp hc with hold | hnew
    · exact h.conns c hold
    · obtain rfl := List.mem_singleton.mp hnew
      exact ⟨rfl, linked_of_down hdown⟩

theorem sound_opens_iff (ha : orHci0 a = a) (h : Inv a w) {adapter : CBuf 16}
    (hadapter : orHci0 adapter = a) (mac : CBuf 32) (pollIntervalS : Double) (e : PumpEnv Double)
    (he : HelperEnv) : Sound a w (.opens adapter mac pollIntervalS e he) ↔
      Held a w (.opens adapter mac pollIntervalS e he) := by
  have hafter := step_opens ha h hadapter mac pollIntervalS e he
  have hrefused (h' : HelperEnv) (hr : RefusedIn w a h' (.opens adapter mac pollIntervalS e he)) :
      (step w (.opens adapter mac pollIntervalS e he)).forked = (calls w a [.spawn h']).forked := by
    obtain ⟨-, rfl, hmac, hfailed, hneeded⟩ := hr
    simp [step, openCalls, hadapter, hmac, hfailed, hneeded]
  constructor
  · intro hs
    refine ⟨fun _ _ _ _ heq => ?_, fun _ _ _ heq => ?_,
      fun h' hr => (h.spawned_iff ha h' (hrefused h' hr)).mp (hs.spawned h' hr)⟩ <;> cases heq
  · intro hs
    refine ⟨(accurate_iff ha hafter.table).mpr hafter.counted, fun _ _ _ heq => ?_,
      fun h' hr => (h.spawned_iff ha h' (hrefused h' hr)).mpr (hs.refused h' hr)⟩
    cases heq

/-! ### Closing -/

/-- What closing leaves. -/
theorem step_close (ha : orHci0 a = a) (h : Inv a w) {i : ℕ} {c : Conn}
    (hc : w.conns[i]? = some c) (writes : List WriteResult) :
    (step w (.close i writes)).conns = w.conns.eraseIdx i ∧
      OneRow a (step w (.close i writes)).help ∧
        theRow a (step w (.close i writes)).help =
          if c.ctx.handshakeOk = true ∧ ¬leaveFails (findRow w.help a) c.ctx writes = true then
            (theRow a w.help).release
          else theRow a w.help := by
  obtain ⟨honeRow, hsameRow⟩ := oneRow_helperRow ha h.table
  have hfind : findRow (helperRow w.help a) a = findRow w.help a := by
    rw [findRow_eq ha honeRow, findRow_eq ha h.table, hsameRow]
  obtain ⟨hone, hrow⟩ := @help_calls a ha { w with help := helperRow w.help a } honeRow
    (closeCalls (findRow w.help a) c.ctx writes)
  have hconns := conns_calls { w with help := helperRow w.help a } a
    (closeCalls (findRow w.help a) c.ctx writes)
  simp only [step, hc, (h.conns c (List.mem_of_getElem? hc)).1, hfind, hconns, true_and]
  refine ⟨hone, hrow.trans ?_⟩
  rw [hsameRow, closeCalls]
  split <;> rfl

/-- A battery without a handshake takes no leave. -/
theorem leaveFails_of_down {c : JkCtx Double} (h : c.handshakeOk = false) (row : Option HelperRow)
    (writes : List WriteResult) : leaveFails row c writes = false := by
  simp [leaveFails, farewell, h]

theorem upCount_close (ha : orHci0 a = a) (h : Inv a w) {i : ℕ} {c : Conn}
    (hc : w.conns[i]? = some c) (writes : List WriteResult) :
    upCount (step w (.close i writes)) a + c.ctx.handshakeOk.toNat = upCount w a := by
  have herase := countP_eraseIdx_add (fun c => c.adapter = a && c.ctx.handshakeOk) hc
  simp only [(h.conns c (List.mem_of_getElem? hc)).1, decide_true, Bool.true_and] at herase
  rw [upCount, (step_close ha h hc writes).1]
  exact herase

/-- The count is right behind a leave exactly when the connection holds. -/
theorem accurate_close_iff (ha : orHci0 a = a) (h : Inv a w) {i : ℕ} {c : Conn}
    (hc : w.conns[i]? = some c) (writes : List WriteResult) :
    Accurate a (step w (.close i writes)) ↔ leaveFails (findRow w.help a) c.ctx writes = false := by
  obtain ⟨-, hone, hrow⟩ := step_close ha h hc writes
  have hcount := upCount_close ha h hc writes
  have hbefore := h.counted
  rw [accurate_iff ha hone, hrow]
  cases hup : c.ctx.handshakeOk with
  | false =>
    rw [hup] at hcount
    rw [if_neg fun hcond => Bool.false_ne_true hcond.1, leaveFails_of_down hup]
    exact iff_of_true (hbefore.trans hcount.symm) rfl
  | true =>
    rw [hup] at hcount
    simp only [Bool.toNat_true] at hcount
    cases hfails : leaveFails (findRow w.help a) c.ctx writes with
    | true =>
      rw [if_neg fun hcond => hcond.2 rfl]
      exact iff_of_false (by omega) nofun
    | false =>
      rw [if_pos ⟨rfl, nofun⟩, HelperRow.release, if_neg (by omega)]
      exact iff_of_true (show (theRow a w.help).refcnt - 1 = _ by omega) rfl

theorem inv_close (ha : orHci0 a = a) (h : Inv a w) {i : ℕ} {c : Conn}
    (hc : w.conns[i]? = some c) {writes : List WriteResult}
    (hleave : leaveFails (findRow w.help a) c.ctx writes = false) :
    Inv a (step w (.close i writes)) := by
  obtain ⟨hconns, hone, hrow⟩ := step_close ha h hc writes
  refine ⟨hone, (accurate_iff ha hone).mp ((accurate_close_iff ha h hc writes).mpr hleave), ?_, ?_⟩
  · rw [hrow]
    split
    · exact standing_release h.standing
    · exact h.standing
  · rw [hconns]
    exact fun d hd => h.conns d (List.mem_of_mem_eraseIdx hd)

/-- A battery that lets the helper quit is the only one with a handshake. -/
theorem quit_last (ha : orHci0 a = a) (h : Inv a w) {i : ℕ} {c : Conn}
    (hc : w.conns[i]? = some c) (hquit : farewell (findRow w.help a) c.ctx = some .quit) {j : ℕ}
    {d : Conn} (hj : j ≠ i) (hd : w.conns[j]? = some d) : d.ctx.handshakeOk = false := by
  have hlast : c.ctx.handshakeOk = true ∧ (theRow a w.help).refcnt ≤ 1 := by
    rw [farewell, findRow_eq ha h.table] at hquit
    split at hquit
    · next hup =>
      refine ⟨hup.2, ?_⟩
      split at hquit
      · next hcount => simpa using hcount
      · cases hquit
    · cases hquit
  have herase := countP_eraseIdx_add (fun c => c.adapter = a && c.ctx.handshakeOk) hc
  have hbefore := h.counted
  rw [upCount] at hbefore
  simp only [(h.conns c (List.mem_of_getElem? hc)).1, decide_true, Bool.true_and, hlast.1,
    Bool.toNat_true] at herase
  have hothers : (w.conns.eraseIdx i).countP (fun c => c.adapter = a && c.ctx.handshakeOk) = 0 := by
    omega
  have hmem : d ∈ w.conns.eraseIdx i := List.mem_eraseIdx_iff_getElem?.mpr ⟨j, hj, hd⟩
  have hdown := List.countP_eq_zero.mp hothers d hmem
  simpa [(h.conns d (List.mem_of_getElem? hd)).1] using hdown

theorem sound_close_iff (ha : orHci0 a = a) (h : Inv a w) (i : ℕ) (writes : List WriteResult) :
    Sound a w (.close i writes) ↔ Held a w (.close i writes) := by
  constructor
  · intro hs
    refine ⟨fun _ _ _ _ heq => absurd heq (by simp), ?_, fun _ hr => hr.elim⟩
    rintro _ _ c ⟨⟩ hc
    rw [(h.conns c (List.mem_of_getElem? hc)).1]
    exact (accurate_close_iff ha h hc writes).mp hs.counted
  · intro hs
    refine ⟨?_, ?_, fun _ hr => hr.elim⟩
    · cases hc : w.conns[i]? with
      | none =>
        have hsame : step w (.close i writes) = w := by simp only [step, hc]
        rw [hsame, accurate_iff ha h.table]
        exact h.counted
      | some c =>
        have hleave := hs.close i writes c rfl hc
        rw [(h.conns c (List.mem_of_getElem? hc)).1] at hleave
        exact (accurate_close_iff ha h hc writes).mpr hleave
    · rintro _ _ c ⟨⟩ hc - hquit j d hj hd -
      exact quit_last ha h hc hquit hj hd

/-! ## Runs -/

theorem inv_of_same (h : Inv a w) {w' : World} (hsame : w' = w) : Inv a w' := hsame ▸ h

/-- What holds of the table and the batteries is kept by every event under the
condition. -/
theorem inv_step (ha : orHci0 a = a) (h : Inv a w) {ev : Event} (hon : ev.on a)
    (hheld : Held a w ev) : Inv a (step w ev) := by
  cases ev with
  | opens adapter mac pollIntervalS e he => exact step_opens ha h hon mac pollIntervalS e he
  | put i r =>
    cases hc : w.conns[i]? with
    | none => exact inv_of_same h (by simp only [step, hc])
    | some c =>
      simp only [step, hc]
      exact inv_setCtx h hc (sameLink_jkPutSettings c.ctx r)
  | action i r =>
    cases hc : w.conns[i]? with
    | none => exact inv_of_same h (by simp only [step, hc])
    | some c =>
      simp only [step, hc]
      exact inv_setCtx h hc (sameLink_jkAction c.ctx r)
  | pump i e he =>
    cases hc : w.conns[i]? with
    | none => exact inv_of_same h (by simp only [step, hc])
    | some c => exact inv_pump ha h hc (hheld.pump i e he c rfl hc) he
  | close i writes =>
    cases hc : w.conns[i]? with
    | none => exact inv_of_same h (by simp only [step, hc])
    | some c =>
      have hleave := hheld.close i writes c rfl hc
      rw [(h.conns c (List.mem_of_getElem? hc)).1] at hleave
      exact inv_close ha h hc hleave

/-- A call that neither opens, steps nor closes keeps the promise. -/
theorem sound_call (ha : orHci0 a = a) {ev : Event} (hafter : Inv a (step w ev))
    (hpump : ∀ i e h, ev ≠ .pump i e h) (hclose : ∀ i writes, ev ≠ .close i writes)
    (hrefused : ∀ h, ¬RefusedIn w a h ev) : Sound a w ev ↔ Held a w ev :=
  iff_of_true
    ⟨(accurate_iff ha hafter.table).mpr hafter.counted,
      fun i writes _ heq => absurd heq (hclose i writes), fun h hr => absurd hr (hrefused h)⟩
    ⟨fun i e h _ heq => absurd heq (hpump i e h), fun i writes _ heq => absurd heq (hclose i writes),
      fun h hr => absurd hr (hrefused h)⟩

/-- Every event keeps the promise exactly under the condition. -/
theorem sound_iff (ha : orHci0 a = a) (h : Inv a w) {ev : Event} (hon : ev.on a) :
    Sound a w ev ↔ Held a w ev := by
  cases ev with
  | opens adapter mac pollIntervalS e he => exact sound_opens_iff ha h hon mac pollIntervalS e he
  | put i r =>
    have hheld : Held a w (.put i r) :=
      ⟨fun _ _ _ _ heq => absurd heq (by simp), fun _ _ _ heq => absurd heq (by simp),
        fun _ hr => hr.elim⟩
    exact sound_call ha (inv_step ha h hon hheld) (by simp) (by simp) fun _ hr => hr.elim
  | action i r =>
    have hheld : Held a w (.action i r) :=
      ⟨fun _ _ _ _ heq => absurd heq (by simp), fun _ _ _ heq => absurd heq (by simp),
        fun _ hr => hr.elim⟩
    exact sound_call ha (inv_step ha h hon hheld) (by simp) (by simp) fun _ hr => hr.elim
  | pump i e he => exact sound_pump_iff ha h i e he
  | close i writes => exact sound_close_iff ha h i writes

/-- In every run of batteries of one adapter the row is right, the last battery alone
lets the helper quit and refused connects make helpers, exactly as long as no
handshake is lost but by closing, and connects are refused only while none is
up. -/
theorem helper_sound_iff (adapter : CBuf 16) {evs : List Event}
    (hon : ∀ ev ∈ evs, ev.on (orHci0 adapter)) :
    Along step (Sound (orHci0 adapter)) init evs ↔ Along step (Held (orHci0 adapter)) init evs := by
  have ha := orHci0_orHci0 adapter
  have hstep : ∀ w ev, Inv (orHci0 adapter) w → ev.on (orHci0 adapter) →
      Held (orHci0 adapter) w ev → Inv (orHci0 adapter) (step w ev) :=
    fun _ _ h hev hheld => inv_step ha h hev hheld
  have hiff : ∀ w ev, Inv (orHci0 adapter) w → ev.on (orHci0 adapter) →
      (Sound (orHci0 adapter) w ev ↔ Held (orHci0 adapter) w ev) :=
    fun _ _ h hev => sound_iff ha h hev
  exact @along_congr _ _ _ (Inv (orHci0 adapter)) _ _ _ hstep hiff _ (inv_init _) _ hon

/-- A step in which lines come over a connection that is there at once. -/
def linesCome (now : ℚ) (reads : List Received) : PumpEnv Double :=
  ⟨lit now, .connected, true, false, reads, .again, []⟩

/-- A helper that is there, and can be made. -/
def helperThere : HelperEnv := ⟨true, false, some 41⟩

/-- A battery whose address is known. -/
def knownAddress : CBuf 32 := CBuf.copy 32 (CString.lit "C8:47:80:00:00:01")

/-- A battery is opened and acknowledged. -/
def acknowledged : List Event :=
  [.opens hci0 knownAddress Double.one (linesCome 0 []) helperThere,
    .pump 0 (linesCome 1 [.connected]) helperThere]

theorem helper_sound_iff_closed :
    Along step (Sound (orHci0 hci0)) init (acknowledged ++ [.close 0 []]) ↔
      Along step (Held (orHci0 hci0)) init (acknowledged ++ [.close 0 []]) :=
  helper_sound_iff hci0 (by simp [acknowledged, Event.on])

/-- The link of the battery drops: the row goes on counting it, and lets no helper
be made once it is closed. -/
theorem dropped_battery_counted :
    ¬Along step (Sound hci0) init
        (acknowledged ++ [.pump 0 (linesCome 2 [.error true]) helperThere]) ∧
      findRow (run step init (acknowledged ++ [.pump 0 (linesCome 2 [.error true]) helperThere,
          .close 0 []])).help hci0 = some ⟨hci0, .up, none, 1⟩ ∧
      (run step init (acknowledged ++ [.pump 0 (linesCome 2 [.error true]) helperThere, .close 0 [],
          .opens hci0 knownAddress Double.one { linesCome 3 [] with connect := .failed }
            helperThere])).forked = [] := by
  refine ⟨fun hrun => ?_, by decide +kernel, by decide +kernel⟩
  obtain ⟨-, -, hsound, -⟩ := hrun
  have hcount := hsound.counted ⟨hci0, .up, none, 1⟩ (by decide +kernel)
  revert hcount
  decide +kernel

end MoonFlare.JkHelper
