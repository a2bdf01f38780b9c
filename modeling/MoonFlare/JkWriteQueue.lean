import MoonFlare.JkWrites
import MoonFlare.Runs

/-!
# No register write is lost

A write that a call decides on is in the queue or in the helper's output, in
order and once, as long as the queue and the output have room; and a setting
shows the value of a write that is thrown away only when the connection closes
while the helper has not got it.
-/

namespace MoonFlare.JkWrites

open Jk Runs Arithmetic

variable {V : Type}

/-! ## What is to hold -/

/-- Every write decided on is in the output or in the queue, in order and once; no
setting shows the value of a write that was thrown away. -/
structure Kept (c : JkCtx V) : Prop where
  paced : c.ledger.paced.decided = c.ledger.paced.given ++ pending c
  direct : c.ledger.direct.decided = c.ledger.direct.given
  shown : ∀ f id, c.ledger.shown f = some id → id ∉ c.ledger.discarded

/-- The output has room for the line of a register write. -/
def RegisterRoom (c : JkCtx V) : Prop := outLen c + c.mac.str.length + 95 < lineCap

/-- The helper has got every write that a setting shows the value of. -/
def CloseOk (c : JkCtx V) : Prop :=
  ∀ f id, c.ledger.shown f = some id → ∀ w ∈ undelivered c, w.id ≠ id

/-! ## The length of a line -/

theorem length_jkBuildRegisterCmd (reg : UInt8) (value : ℕ) :
    (jkBuildRegisterCmd reg value).length = 20 := by
  simp [jkBuildRegisterCmd, jkBuildCommand, jkHeaderCmd]

theorem length_hexPairs (b : Bytes) : (b.flatMap hexPair).length = 2 * b.length := by
  induction b with
  | nil => rfl
  | cons a b ih =>
    rw [List.flatMap_cons, List.length_append, ih, List.length_cons]
    have htwo : (hexPair a).length = 2 := rfl
    omega

theorem room_register (c : JkCtx V) (w : Write) : Room c (.register w) ↔ RegisterRoom c := by
  have hmac : c.mac.str.bytes.length < 32 := c.mac.fits
  have hlen : (lineText c.mac (.register w)).length = c.mac.str.length + 94 := by
    have hhead : (ascii "\x7b\"cmd\":\"write\",\"address\":\"").length = 26 := by decide
    have hmid : (ascii "\",\"hex\":\"").length = 9 := by decide
    have htail : (ascii "\",\"response\":false\x7d").length = 19 := by decide
    rw [lineText, writeText, List.length_take]
    simp only [List.length_append, length_hexPairs, length_jkBuildRegisterCmd, hhead, hmid, htail,
      CString.length]
    omega
  rw [Room, RegisterRoom, hlen]
  omega

/-! ## The invariant -/

/-- What every run keeps: `Kept`, and the numbers of the writes that are somewhere
are below the next one. -/
structure Inv (c : JkCtx V) : Prop extends Kept c where
  index : c.wqI ≤ c.wq.length
  discardedOld : ∀ id ∈ c.ledger.discarded, id < c.ledger.next
  queueOld : ∀ w ∈ c.wq, w.id < c.ledger.next ∧ w.paced = true
  outOld : ∀ w, Line.register w ∈ c.out → w.id < c.ledger.next

/-- What the invariant is about does not change. -/
theorem Inv.frame {c d : JkCtx V} (h : Inv c) (hledger : d.ledger = c.ledger) (hwq : d.wq = c.wq)
    (hindex : d.wqI = c.wqI) (hout : d.out ⊆ c.out) : Inv d where
  paced := by rw [pending, hledger, hwq, hindex]; exact h.paced
  direct := by rw [hledger]; exact h.direct
  shown := by rw [hledger]; exact h.shown
  index := by rw [hwq, hindex]; exact h.index
  discardedOld := by rw [hledger]; exact h.discardedOld
  queueOld := by rw [hwq, hledger]; exact h.queueOld
  outOld := by rw [hledger]; exact fun w hw => h.outOld w (hout hw)

/-- A line that writes no register changes no account. -/
theorem inv_queueStr {c : JkCtx V} (h : Inv c) {line : Line} (hline : line.write? = none) :
    Inv (queueStr c line) := by
  have hnot (w : Write) : line ≠ .register w := by
    rintro rfl
    cases hline
  have hgive : c.ledger.give line = c.ledger := by
    cases line with
    | register w => cases hline
    | connect => rfl
    | command bytes => rfl
  rw [queueStr]
  by_cases hroom : Room c line
  · rw [if_pos hroom, hgive]
    refine ⟨⟨h.paced, h.direct, h.shown⟩, h.index, h.discardedOld, h.queueOld, fun w hw => ?_⟩
    rcases List.mem_append.mp hw with hold | hnew
    · exact h.outOld w hold
    · exact absurd (List.mem_singleton.mp hnew).symm (hnot w)
  · rw [if_neg hroom, hline]
    have hnone : c.ledger.discard (Option.toList none) = c.ledger := by
      simp [Ledger.discard]
    rw [hnone]
    exact ⟨⟨h.paced, h.direct, h.shown⟩, h.index, h.discardedOld, h.queueOld, h.outOld⟩

theorem inv_command {c : JkCtx V} (h : Inv c) (bytes : Bytes) : Inv (queueStr c (.command bytes)) :=
  inv_queueStr h rfl

theorem inv_sendConnect {c : JkCtx V} (h : Inv c) : Inv (sendConnect c) := inv_queueStr h rfl

/-- A setting shows a write that is not thrown away. -/
theorem shown_show {l : Ledger} {f : Field} {id : ℕ}
    (h : ∀ g n, l.shown g = some n → n ∉ l.discarded) (hid : id ∉ l.discarded) :
    ∀ g n, (l.show f id).shown g = some n → n ∉ (l.show f id).discarded := by
  intro g n hshown
  by_cases hfield : g = f
  · have hn : some id = some n := by simpa [Ledger.show, hfield] using hshown
    cases hn
    exact hid
  · have hbefore : l.shown g = some n := by simpa [Ledger.show, hfield] using hshown
    exact h g n hbefore

/-- The next write is shown ahead of its line. -/
theorem inv_show_next {c : JkCtx V} (h : Inv c) (f : Field) :
    Inv { c with ledger := c.ledger.show f c.ledger.next } :=
  ⟨⟨h.paced, h.direct, shown_show h.shown fun hmem => absurd (h.discardedOld _ hmem) (lt_irrefl _)⟩,
    h.index, h.discardedOld, h.queueOld, h.outOld⟩

/-- A register write that does not go through the queue is put into the output. -/
theorem inv_writeRegister {c : JkCtx V} (h : Inv c) (hroom : RegisterRoom c) (reg : UInt8)
    (value : ℕ) :
    Inv (writeRegister c reg value) ∧
      (writeRegister c reg value).ledger.discarded = c.ledger.discarded := by
  have hfits : Room { c with ledger := c.ledger.decide ⟨c.ledger.next, false, reg, value⟩ }
      (.register ⟨c.ledger.next, false, reg, value⟩) := (room_register _ _).mpr hroom
  rw [writeRegister, queueStr, if_pos hfits]
  refine ⟨⟨⟨h.paced, ?_, h.shown⟩, h.index, ?_, ?_, ?_⟩, rfl⟩
  · exact congrArg (· ++ [(⟨c.ledger.next, false, reg, value⟩ : Write)]) h.direct
  · intro id hmem
    exact (h.discardedOld id hmem).trans (Nat.lt_succ_self _)
  · intro w hw
    exact ⟨(h.queueOld w hw).1.trans (Nat.lt_succ_self _), (h.queueOld w hw).2⟩
  · intro w hw
    rcases List.mem_append.mp hw with hold | hnew
    · exact (h.outOld w hold).trans (Nat.lt_succ_self _)
    · cases List.mem_singleton.mp hnew
      exact Nat.lt_succ_self _

/-- The connection is marked as dropped: what is in the queue stays there. -/
theorem inv_markDropped {c : JkCtx V} (h : Inv c) : Inv (markDropped c) := by
  have hrestart : Inv { c with
      handshakeOk := false, needCellReq := true, ledger := c.ledger.restart (pending c) } :=
    ⟨⟨rfl, rfl, h.shown⟩, h.index, h.discardedOld, h.queueOld, h.outOld⟩
  rw [markDropped]
  split
  · dsimp only
    split
    · exact inv_queueStr hrestart rfl
    · exact hrestart
  · exact h

theorem mem_unsentFrom {mac : CBuf 32} {l : Line} {off : ℕ} {lines : List Line}
    (h : l ∈ unsentFrom mac off lines) : l ∈ lines := by
  induction lines generalizing off with
  | nil => exact h
  | cons first lines ih =>
    rw [unsentFrom] at h
    split at h
    · exact List.mem_cons_of_mem first (ih h)
    · exact h

/-- The writes that the helper has not got are in the queue or in the output. -/
theorem undelivered_old {c : JkCtx V} (h : Inv c) {w : Write} (hw : w ∈ undelivered c) :
    w.id < c.ledger.next := by
  rcases List.mem_append.mp hw with hqueue | hout
  · exact (h.queueOld w (List.mem_of_mem_drop hqueue)).1
  · obtain ⟨line, hline, hwrite⟩ := List.mem_filterMap.mp hout
    cases line with
    | register v =>
      cases hwrite
      exact h.outOld w (mem_unsentFrom hline)
    | connect => cases hwrite
    | command bytes => cases hwrite

/-- Lines that are written leave the output. -/
theorem inv_flushLoop {c : JkCtx V} (h : Inv c) (writes : List WriteResult) :
    Inv (flushLoop c writes).1 := by
  induction writes generalizing c with
  | nil =>
    unfold flushLoop
    split
    · exact h
    · exact h.frame rfl rfl rfl (List.nil_subset _)
  | cons result writes ih =>
    unfold flushLoop
    split
    · cases result with
      | again => exact h
      | failed => exact h
      | wrote n => exact ih (h.frame rfl rfl rfl (List.Subset.refl _))
    · exact h.frame rfl rfl rfl (List.nil_subset _)

theorem inv_startConnect {c : JkCtx V} (h : Inv c) (e : PumpEnv V) : Inv (startConnect c e) := by
  unfold startConnect
  cases e.connect with
  | connected =>
    have hopen : Inv { c with fd := true, state := .handshake, handshakeOk := false } :=
      h.frame rfl rfl rfl (List.Subset.refl _)
    exact inv_queueStr hopen rfl
  | inProgress => exact h.frame rfl rfl rfl (List.Subset.refl _)
  | failed => exact h

/-- An attempt to connect that is under way changes nothing that is shown or
waits. -/
theorem closeOk_startConnect {c : JkCtx V} {e : PumpEnv V} (h : CloseOk c)
    (hconnecting : (startConnect c e).state = .connecting) :
    CloseOk (startConnect c e) := by
  unfold startConnect at hconnecting ⊢
  cases hconnect : e.connect with
  | connected =>
    rw [hconnect] at hconnecting
    have hstate (d : JkCtx V) : (sendConnect d).state = d.state := by
      rw [sendConnect, queueStr]
      split <;> rfl
    rw [hstate] at hconnecting
    cases hconnecting
  | inProgress => exact h
  | failed => exact h

/-! ## What leaves the queue alone -/

/-- The queue and its pace are the same. -/
def SameQueue (c d : JkCtx V) : Prop := d.wq = c.wq ∧ d.wqI = c.wqI ∧ d.wqNext = c.wqNext

theorem SameQueue.pending {c d : JkCtx V} (h : SameQueue c d) : pending d = pending c := by
  rw [JkWrites.pending, h.1, h.2.1]
  rfl

theorem sameQueue_queueStr (c : JkCtx V) (line : Line) : SameQueue c (queueStr c line) := by
  rw [queueStr]
  split <;> exact ⟨rfl, rfl, rfl⟩

theorem sameQueue_flushLoop (c : JkCtx V) (writes : List WriteResult) :
    SameQueue c (flushLoop c writes).1 := by
  induction writes generalizing c with
  | nil =>
    unfold flushLoop
    split <;> exact ⟨rfl, rfl, rfl⟩
  | cons result writes ih =>
    unfold flushLoop
    split
    · cases result with
      | again => exact ⟨rfl, rfl, rfl⟩
      | failed => exact ⟨rfl, rfl, rfl⟩
      | wrote n => exact ih { c with outOff := min (c.outOff + n) (outLen c) }
    · exact ⟨rfl, rfl, rfl⟩

variable [Arithmetic V]

/-! ## The condition -/

/-- The charge voltage that the request leaves is not below the overvoltage limit
it writes. -/
def willLower (c : JkCtx V) (r : Request V) : Bool :=
  match r.cellRcvV with
  | none => rcvTooHigh c r
  | some rcv =>
    le (sub (jkClampOvpV (r.cellOvpV.getD c.cellOvpV)) (lit (1 / 1000)))
      (single (clampRcv rcv (rcvBound c r)))

/-- The number of writes a request of a connected module decides on. -/
def writeCount (c : JkCtx V) (r : Request V) : ℕ :=
  (if r.cellRcvV.isSome then 1 else 0) +
    if r.cellOvpV.isSome || r.cellOvprV.isSome then (if willLower c r then 3 else 2) else 0

/-- The poll interval of a request is refused. -/
def Request.refused (r : Request V) : Bool :=
  match r.pollIntervalS with
  | some iv => le (lit 0) iv && lt iv pollMin
  | none => false

/-- The queue has room for the writes of a request. -/
def PutFits (c : JkCtx V) (r : Request V) : Prop :=
  r.refused = false → c.handshakeOk = true → c.wq.length + writeCount c r ≤ wqCap

/-- An action writes a register. -/
def Action.writes : Action V → Bool
  | .setBalanceTrigger volts => volts.isSome
  | .setStartBalance volts => volts.isSome
  | .setSwitch _ _ => true
  | _ => false

/-- The pump goes on behind its part that gets a connection. -/
def GoesOn (c : JkCtx V) (e : PumpEnv V) : Prop :=
  (pumpConnect c e).2 = true ∧ (pumpConnect c e).1.fd = true

/-- The module when the helper's lines are read. -/
def afterLines (c : JkCtx V) (e : PumpEnv V) : JkCtx V := drainIn (pumpConnect c e).1 e

/-- The module when the output is about to be written. -/
def afterWrites (c : JkCtx V) (e : PumpEnv V) : JkCtx V := pumpWrites (afterLines c e) e.now

/-- A step throws no write away: when the connection closes the helper has got
every value shown, and when a write leaves the queue the output has room. -/
structure PumpFits (c : JkCtx V) (e : PumpEnv V) : Prop where
  connect : c.state = .idle ∨ c.state = .connecting → e.soError = true → CloseOk c
  read : GoesOn c e → e.readEnd ≠ .again → CloseOk (e.reads.foldl onLine (pumpConnect c e).1)
  pop : GoesOn c e → (afterLines c e).handshakeOk = true → (afterLines c e).fd = true →
    pending (afterLines c e) ≠ [] → le (afterLines c e).wqNext e.now = true →
      RegisterRoom (afterLines c e)
  flush : GoesOn c e → (afterWrites c e).fd = true →
    (flushLoop (afterWrites c e) e.writes).2 = true → CloseOk (flushLoop (afterWrites c e) e.writes).1

/-- The condition on a call or a step. -/
def Fits (c : JkCtx V) : Act V → Prop
  | .put r => PutFits c r
  | .action a => c.handshakeOk = true → a.writes = true → RegisterRoom c
  | .pump e => PumpFits c e

/-! ## Requests -/

theorem inv_opened (mac : CBuf 32) (pollIntervalS nextTry : V) :
    Inv (opened mac pollIntervalS nextTry) where
  paced := rfl
  direct := rfl
  shown := nofun
  index := le_refl 0
  discardedOld := nofun
  queueOld := nofun
  outOld := nofun

/-- A queue with room takes a write. -/
theorem wqPush_of_room {c : JkCtx V} (hroom : c.wq.length < wqCap) (reg : UInt8) (mv : ℕ) :
    (wqPush c reg mv).wq = c.wq ++ [⟨c.ledger.next, true, reg, mv⟩] ∧
      (wqPush c reg mv).ledger.discarded = c.ledger.discarded ∧
      (wqPush c reg mv).ledger.next = c.ledger.next + 1 := by
  rw [wqPush, if_neg (by omega)]
  exact ⟨rfl, rfl, rfl⟩

theorem inv_wqPush {c : JkCtx V} (h : Inv c) (hroom : c.wq.length < wqCap) (reg : UInt8) (mv : ℕ) :
    Inv (wqPush c reg mv) := by
  rw [wqPush, if_neg (by omega)]
  have hpending : (c.wq ++ [(⟨c.ledger.next, true, reg, mv⟩ : Write)]).drop c.wqI =
      pending c ++ [⟨c.ledger.next, true, reg, mv⟩] := List.drop_append_of_le_length h.index
  refine ⟨⟨?_, h.direct, h.shown⟩, ?_, ?_, ?_, ?_⟩
  · show c.ledger.paced.decided ++ [_] = c.ledger.paced.given ++ (c.wq ++ [_]).drop c.wqI
    rw [hpending, ← List.append_assoc, ← h.paced]
  · rw [List.length_append]
    exact h.index.trans (Nat.le_add_right _ _)
  · intro id hmem
    exact (h.discardedOld id hmem).trans (Nat.lt_succ_self _)
  · intro w hw
    rcases List.mem_append.mp hw with hold | hnew
    · exact ⟨(h.queueOld w hold).1.trans (Nat.lt_succ_self _), (h.queueOld w hold).2⟩
    · rw [List.mem_singleton.mp hnew]
      exact ⟨Nat.lt_succ_self _, rfl⟩
  · intro w hw
    exact (h.outOld w hw).trans (Nat.lt_succ_self _)

/-- The new charge voltage of a request is put into the queue and shown. -/
theorem inv_putRcv {c : JkCtx V} (h : Inv c) {r : Request V}
    (hroom : r.cellRcvV.isSome = true → c.wq.length < wqCap) :
    Inv (putRcv c r) ∧
      (putRcv c r).wq.length = c.wq.length + if r.cellRcvV.isSome then 1 else 0 := by
  rw [putRcv]
  cases hrcv : r.cellRcvV with
  | none => exact ⟨h, rfl⟩
  | some rcv =>
    rw [hrcv] at hroom
    obtain ⟨hwq, hdiscarded, -⟩ := wqPush_of_room (hroom rfl) jkRegCellRcv
      (jkVoltsToMv (clampRcv rcv (rcvBound c r)))
    have hpush := inv_wqPush h (hroom rfl) jkRegCellRcv (jkVoltsToMv (clampRcv rcv (rcvBound c r)))
    have hfresh : c.ledger.next ∉ (wqPush c jkRegCellRcv
        (jkVoltsToMv (clampRcv rcv (rcvBound c r)))).ledger.discarded := by
      rw [hdiscarded]
      exact fun hmem => absurd (h.discardedOld _ hmem) (lt_irrefl _)
    refine ⟨⟨⟨hpush.paced, hpush.direct, shown_show hpush.shown hfresh⟩, hpush.index,
      hpush.discardedOld, hpush.queueOld, hpush.outOld⟩, ?_⟩
    dsimp only
    rw [hwq, List.length_append]
    rfl

theorem rcvTooHigh_putRcv (c : JkCtx V) (r : Request V) :
    rcvTooHigh (putRcv c r) r = willLower c r := by
  rw [putRcv, willLower]
  cases r.cellRcvV with
  | none => rfl
  | some rcv =>
    have hcache : (wqPush c jkRegCellRcv (jkVoltsToMv (clampRcv rcv (rcvBound c r)))).cellOvpV =
        c.cellOvpV := by
      rw [wqPush]
      split <;> rfl
    dsimp only
    rw [rcvTooHigh, wantedOvp, Bool.true_and]
    dsimp only
    rw [hcache]
    cases r.cellOvpV <;> rfl

-- As a `float`, 3.49999999 V is 3.5 V, and so is lowered ahead of a limit of 3.501 V.
example : willLower { (opened (CBuf.zero 32) (lit 2) (lit 0) : JkCtx Double) with
    haveSettings := true, cellOvpV := lit 4 }
    ⟨none, some (lit (349999999 / 100000000)), some (lit (3501 / 1000)), none⟩ = true := by
  decide +kernel

/-- The charge voltage lowered ahead of the limit is put into the queue and
shown. -/
theorem inv_lowerRcv {c : JkCtx V} (h : Inv c) {r : Request V}
    (hroom : rcvTooHigh c r = true → c.wq.length < wqCap) :
    Inv (lowerRcv c r) ∧
      (lowerRcv c r).wq.length = c.wq.length + if rcvTooHigh c r then 1 else 0 := by
  rw [lowerRcv]
  by_cases hhigh : rcvTooHigh c r = true
  · rw [if_pos hhigh, if_pos hhigh]
    obtain ⟨hwq, hdiscarded, -⟩ := wqPush_of_room (hroom hhigh) jkRegCellRcv
      (jkVoltsToMv (rcvBelow (wantedOvp c r)))
    have hpush := inv_wqPush h (hroom hhigh) jkRegCellRcv (jkVoltsToMv (rcvBelow (wantedOvp c r)))
    have hfresh : c.ledger.next ∉ (wqPush c jkRegCellRcv
        (jkVoltsToMv (rcvBelow (wantedOvp c r)))).ledger.discarded := by
      rw [hdiscarded]
      exact fun hmem => absurd (h.discardedOld _ hmem) (lt_irrefl _)
    refine ⟨⟨⟨hpush.paced, hpush.direct, shown_show hpush.shown hfresh⟩, hpush.index,
      hpush.discardedOld, hpush.queueOld, hpush.outOld⟩, ?_⟩
    dsimp only
    rw [hwq, List.length_append]
    rfl
  · rw [if_neg hhigh, if_neg hhigh]
    exact ⟨h, rfl⟩

/-- The new limits are put into the queue and shown. -/
theorem inv_putOvp {c : JkCtx V} (h : Inv c) {r : Request V}
    (hroom : (r.cellOvpV.isSome || r.cellOvprV.isSome) = true →
      c.wq.length + (if rcvTooHigh c r then 3 else 2) ≤ wqCap) : Inv (putOvp c r) := by
  rw [putOvp]
  by_cases hnamed : (r.cellOvpV.isSome || r.cellOvprV.isSome) = true
  · have hfits := hroom hnamed
    rw [if_pos hnamed]
    dsimp only
    obtain ⟨hlower, hlen⟩ := inv_lowerRcv h (r := r) fun hhigh => by
      rw [if_pos hhigh] at hfits
      omega
    have hfirst : (lowerRcv c r).wq.length + 2 ≤ wqCap := by
      rw [hlen]
      split at hfits <;> simp only [*, if_true, Bool.false_eq_true, if_false]
    generalize lowerRcv c r = d at hlower hfirst ⊢
    generalize jkVoltsToMv (wantedOvp c r) = ovp
    generalize jkVoltsToMv (wantedOvpr c r) = ovpr
    obtain ⟨hwq, hdiscarded, hnext⟩ := wqPush_of_room (c := d) (by omega) jkRegCellOvp ovp
    have hpush := inv_wqPush hlower (by omega) jkRegCellOvp ovp
    generalize wqPush d jkRegCellOvp ovp = e at hwq hdiscarded hnext hpush ⊢
    have hsecond : e.wq.length < wqCap := by
      rw [hwq, List.length_append, List.length_singleton]
      omega
    obtain ⟨-, hdiscarded', -⟩ := wqPush_of_room hsecond jkRegCellOvpr ovpr
    have hpush' := inv_wqPush hpush hsecond jkRegCellOvpr ovpr
    generalize wqPush e jkRegCellOvpr ovpr = g at hdiscarded' hpush' ⊢
    have hfresh (n : ℕ) (hn : d.ledger.next ≤ n) : n ∉ g.ledger.discarded := by
      rw [hdiscarded', hdiscarded]
      intro hmem
      have hold := hlower.discardedOld n hmem
      omega
    have hshown := shown_show (f := .cellOvp) hpush'.shown (hfresh d.ledger.next (le_refl _))
    exact ⟨⟨hpush'.paced, hpush'.direct,
      shown_show (f := .cellOvpr) hshown (hfresh (d.ledger.next + 1) (Nat.le_succ _))⟩,
      hpush'.index, hpush'.discardedOld, hpush'.queueOld, hpush'.outOld⟩
  · rw [if_neg hnamed]
    exact h

/-- A request whose writes fit loses none. -/
theorem inv_jkPutSettings {c : JkCtx V} (h : Inv c) {r : Request V} (hfits : PutFits c r) :
    Inv (jkPutSettings c r).1 := by
  have hregisters (d : JkCtx V) (hd : Inv d)
      (hfits : d.handshakeOk = true → d.wq.length + writeCount d r ≤ wqCap) :
      Inv (jkPutSettings.putRegisters d r).1 := by
    rw [jkPutSettings.putRegisters]
    by_cases hoffline : (r.writes && !d.handshakeOk) = true
    · rw [if_pos hoffline]
      exact hd
    rw [if_neg hoffline]
    by_cases hwrites : r.writes = true
    · have honline : d.handshakeOk = true := by
        simpa [hwrites] using hoffline
      have hcount := hfits honline
      rw [writeCount] at hcount
      obtain ⟨hrcv, hlen⟩ := inv_putRcv hd (r := r) fun hsome => by
        rw [if_pos hsome] at hcount
        omega
      refine inv_putOvp hrcv fun hnamed => ?_
      rw [if_pos hnamed] at hcount
      rw [hlen, rcvTooHigh_putRcv]
      omega
    · have hnone : r.cellRcvV.isSome = false ∧ r.cellOvpV.isSome = false ∧
          r.cellOvprV.isSome = false := by
        simpa [Request.writes, and_assoc] using hwrites
      obtain ⟨hrcv, -⟩ := inv_putRcv hd (r := r) fun hsome => by simp [hnone.1] at hsome
      exact inv_putOvp hrcv fun hnamed => by simp [hnone.2] at hnamed
  rw [PutFits, Request.refused] at hfits
  rw [jkPutSettings]
  cases hiv : r.pollIntervalS with
  | none =>
    rw [hiv] at hfits
    exact hregisters c h (hfits rfl)
  | some iv =>
    rw [hiv] at hfits
    by_cases hnonneg : le (lit 0) iv = true
    · rw [Option.filter_some_pos (by simpa using hnonneg)]
      dsimp only
      split
      · exact h
      · next hlong =>
        exact hregisters _ (h.frame rfl rfl rfl (List.Subset.refl _))
          (hfits (by simp [hlong]))
    · rw [Option.filter_some_neg (by simpa using hnonneg)]
      exact hregisters c h (hfits (by simp [hnonneg]))

/-! ## Actions -/

/-- An action whose line fits loses no write. -/
theorem inv_jkAction {c : JkCtx V} (h : Inv c) {a : Action V}
    (hfits : c.handshakeOk = true → a.writes = true → RegisterRoom c) :
    Inv (jkAction c a).1 := by
  by_cases hoffline : (!c.handshakeOk) = true
  · have hsame : (jkAction c a).1 = c := by
      unfold jkAction
      rw [if_pos hoffline]
    rw [hsame]
    exact h
  have honline : c.handshakeOk = true := by simpa using hoffline
  unfold jkAction
  rw [if_neg hoffline]
  cases a with
  | refresh => exact inv_command h _
  | setBalanceTrigger volts =>
    cases volts with
    | none => exact h
    | some volts =>
      have hset : Inv { c with
          triggerV := jkClampTriggerV volts, haveTrigger := true
          ledger := c.ledger.show .trigger c.ledger.next } :=
        (inv_show_next h .trigger).frame rfl rfl rfl (List.Subset.refl _)
      exact (inv_writeRegister hset (hfits honline rfl) _ _).1
  | setStartBalance volts =>
    cases volts with
    | none => exact h
    | some volts =>
      have hset : Inv { c with
          startV := jkClampStartV volts, haveStart := true
          ledger := c.ledger.show .start c.ledger.next } :=
        (inv_show_next h .start).frame rfl rfl rfl (List.Subset.refl _)
      exact (inv_writeRegister hset (hfits honline rfl) _ _).1
  | setSwitch reg on =>
    have hset : Inv { c with balWant := if reg = jkRegBalance then some on else c.balWant } :=
      h.frame rfl rfl rfl (List.Subset.refl _)
    exact (inv_writeRegister hset (hfits honline rfl) _ _).1
  | other => exact h

/-! ## The pump -/

/-- The connection closes when the helper has got what is shown. -/
theorem inv_sockClose {c : JkCtx V} (h : Inv c) (hclose : CloseOk c) (now : V) :
    Inv (sockClose c now) := by
  refine ⟨⟨rfl, rfl, ?_⟩, le_refl 0, ?_, nofun, nofun⟩
  · intro f id hshown hmem
    rcases List.mem_append.mp hmem with hold | hnew
    · exact h.shown f id hshown hold
    · obtain ⟨w, hw, hid⟩ := List.mem_map.mp hnew
      exact hclose f id hshown w hw hid
  · intro id hmem
    rcases List.mem_append.mp hmem with hold | hnew
    · exact h.discardedOld id hold
    · obtain ⟨w, hw, rfl⟩ := List.mem_map.mp hnew
      exact undelivered_old h hw

/-- A line of the helper throws no write away. -/
theorem inv_onLine {c : JkCtx V} (h : Inv c) (line : Received) : Inv (onLine c line) := by
  cases line with
  | connected => exact h.frame rfl rfl rfl (List.Subset.refl _)
  | error drops =>
    cases drops with
    | true => exact inv_markDropped h
    | false => exact h
  | frame data =>
    rw [onLine]
    split
    · cases jkDecodeSettings data with
      | none => exact h
      | some r =>
        exact ⟨⟨h.paced, h.direct, nofun⟩, h.index, h.discardedOld, h.queueOld, h.outOld⟩
    · exact h
  | other => exact h

theorem inv_onLines {c : JkCtx V} (h : Inv c) (lines : List Received) :
    Inv (lines.foldl onLine c) := by
  induction lines generalizing c with
  | nil => exact h
  | cons line lines ih => exact ih (inv_onLine h line)

/-- A write leaves the queue for an output with room. -/
theorem inv_popWrite {c : JkCtx V} (h : Inv c) {w : Write} {rest : List Write}
    (hpending : pending c = w :: rest) (hroom : RegisterRoom c) (now : V) :
    Inv (popWrite c w now) := by
  have hmem : w ∈ c.wq := List.mem_of_mem_drop (hpending ▸ List.mem_cons_self)
  obtain ⟨hold, hpaced⟩ := h.queueOld w hmem
  have hnext : c.wq.drop (c.wqI + 1) = rest := by
    rw [← List.drop_drop, ← pending, hpending]
    rfl
  have hgive : c.ledger.give (.register w) =
      { c.ledger with paced := { c.ledger.paced with given := c.ledger.paced.given ++ [w] } } :=
    if_pos hpaced
  have hout (v : Write) (hv : Line.register v ∈ c.out ++ [.register w]) : v.id < c.ledger.next := by
    rcases List.mem_append.mp hv with hbefore | hnew
    · exact h.outOld v hbefore
    · cases List.mem_singleton.mp hnew
      exact hold
  have haccount : c.ledger.paced.decided = (c.ledger.paced.given ++ [w]) ++ rest := by
    rw [h.paced, hpending, List.append_assoc]
    rfl
  rw [popWrite, queueStr, if_pos ((room_register _ _).mpr hroom), hgive]
  dsimp only
  split
  · refine ⟨⟨?_, h.direct, h.shown⟩, ?_, h.discardedOld, h.queueOld, hout⟩
    · rw [pending]
      dsimp only
      rw [hnext]
      exact haccount
    · dsimp only
      omega
  · next hlast =>
    have hnil : rest = [] := by
      rw [← hnext]
      exact List.drop_eq_nil_of_le (by omega)
    refine ⟨⟨?_, h.direct, h.shown⟩, le_refl 0, h.discardedOld, nofun, hout⟩
    rw [hnil] at haccount
    exact haccount

/-- The part of the pump that writes commands loses no write. -/
theorem inv_pumpWrites {c : JkCtx V} (h : Inv c) {now : V}
    (hroom : c.handshakeOk = true → c.fd = true → pending c ≠ [] → le c.wqNext now = true →
      RegisterRoom c) : Inv (pumpWrites c now) := by
  have hinfo := inv_command h (jkBuildCommand jkCmdCellInfo [] 0)
  have hboth := inv_command (inv_command h (jkBuildCommand jkCmdDeviceInfo [] 0))
    (jkBuildCommand jkCmdCellInfo [] 0)
  unfold pumpWrites
  dsimp only
  generalize queueStr (queueStr c _) _ = both at hboth ⊢
  generalize queueStr c _ = info at hinfo ⊢
  by_cases hoffline : (!(c.handshakeOk && c.fd)) = true
  · rw [if_pos hoffline]
    exact h
  rw [if_neg hoffline]
  have honline : c.handshakeOk = true ∧ c.fd = true := by simpa using hoffline
  cases hpending : pending c with
  | cons w rest =>
    dsimp only
    split
    · next hdue =>
      have hsome : pending c ≠ [] := hpending ▸ List.cons_ne_nil w rest
      exact inv_popWrite h hpending (hroom honline.1 honline.2 hsome hdue) now
    · exact h
  | nil =>
    dsimp only
    split
    · exact h
    split
    · exact hboth.frame rfl rfl rfl (List.Subset.refl _)
    split
    · exact hinfo.frame rfl rfl rfl (List.Subset.refl _)
    split
    · exact hinfo.frame rfl rfl rfl (List.Subset.refl _)
    · exact h

/-- The part of the pump that gets a connection. -/
theorem inv_pumpConnect {c : JkCtx V} (h : Inv c) {e : PumpEnv V}
    (hclose : c.state = .idle ∨ c.state = .connecting → e.soError = true → CloseOk c) :
    Inv (pumpConnect c e).1 := by
  have hstart := inv_startConnect h e
  unfold pumpConnect
  dsimp only
  by_cases htry : c.state = .idle ∧ ¬(c.state = .idle ∧ lt e.now c.nextTry = true)
  · have hnext : (startConnect c e).state = .connecting → e.soError = true →
        CloseOk (startConnect c e) := fun hconnecting hfails =>
      closeOk_startConnect (hclose (.inl htry.1) hfails) hconnecting
    rw [if_pos htry]
    generalize startConnect c e = d at hstart hnext ⊢
    split
    · exact hstart
    split
    · next hconnecting =>
      split
      · exact hstart
      split
      · next hfails => exact inv_sockClose hstart (hnext hconnecting hfails) e.now
      · exact inv_sendConnect (hstart.frame rfl rfl rfl (List.Subset.refl _))
    · exact hstart
  · rw [if_neg htry]
    split
    · exact h
    split
    · next hconnecting =>
      split
      · exact h
      split
      · next hfails => exact inv_sockClose h (hclose (.inr hconnecting) hfails) e.now
      · exact inv_sendConnect (h.frame rfl rfl rfl (List.Subset.refl _))
    · exact h

/-- A step that throws no write away. -/
theorem inv_pump {c : JkCtx V} (h : Inv c) {e : PumpEnv V} (hfits : PumpFits c e) :
    Inv (pump c e) := by
  have hconnect := inv_pumpConnect h hfits.connect
  have hread := hfits.read
  have hpop := hfits.pop
  have hflush := hfits.flush
  rw [afterWrites] at hflush
  rw [afterLines, GoesOn] at *
  unfold pump
  cases hcase : pumpConnect c e with
  | mk d more =>
    rw [hcase] at hconnect hread hpop hflush
    cases more with
    | false => exact hconnect
    | true =>
      dsimp only at hread hpop hflush ⊢
      by_cases hfd : d.fd = true
      · have hlines : Inv (drainIn d e) := by
          rw [drainIn]
          split
          · exact inv_onLines hconnect e.reads
          · next hends =>
            exact inv_sockClose (inv_onLines hconnect e.reads) (hread ⟨rfl, hfd⟩ hends) e.now
        have hwrites := inv_pumpWrites hlines (hpop ⟨rfl, hfd⟩)
        rw [if_pos hfd]
        split
        · next hopen =>
          have hflushed := inv_flushLoop hwrites e.writes
          have hclose := hflush ⟨rfl, hfd⟩ hopen
          unfold flushOut
          cases hloop : flushLoop (pumpWrites (drainIn d e) e.now) e.writes with
          | mk g failed =>
            rw [hloop] at hflushed hclose
            cases failed with
            | true => exact inv_sockClose hflushed (hclose rfl) e.now
            | false => exact hflushed
        · exact hwrites
      · have hidle : pumpWrites d e.now = d := by
          unfold pumpWrites
          rw [if_pos (by simp [hfd])]
        rw [if_neg hfd, hidle, if_neg hfd]
        exact hconnect

theorem inv_step {c : JkCtx V} (h : Inv c) {a : Act V} (hfits : Fits c a) : Inv (step c a) := by
  cases a with
  | put r => exact inv_jkPutSettings h hfits
  | action a => exact inv_jkAction h hfits
  | pump e => exact inv_pump h hfits

/-! ## The queue moves on -/

/-- The helper's lines leave the queue as it is. -/
theorem sameQueue_onLine (c : JkCtx V) (line : Received) : SameQueue c (onLine c line) := by
  cases line with
  | connected => exact ⟨rfl, rfl, rfl⟩
  | error drops =>
    cases drops with
    | true =>
      show SameQueue c (markDropped c)
      rw [markDropped]
      split
      · dsimp only
        split
        · exact sameQueue_queueStr _ _
        · exact ⟨rfl, rfl, rfl⟩
      · exact ⟨rfl, rfl, rfl⟩
    | false => exact ⟨rfl, rfl, rfl⟩
  | frame data =>
    rw [onLine]
    split
    · cases jkDecodeSettings data with
      | none => exact ⟨rfl, rfl, rfl⟩
      | some r => exact ⟨rfl, rfl, rfl⟩
    · exact ⟨rfl, rfl, rfl⟩
  | other => exact ⟨rfl, rfl, rfl⟩

theorem sameQueue_onLines (c : JkCtx V) (lines : List Received) :
    SameQueue c (lines.foldl onLine c) := by
  induction lines generalizing c with
  | nil => exact ⟨rfl, rfl, rfl⟩
  | cons line lines ih =>
    obtain ⟨hwq, hindex, hnext⟩ := ih (onLine c line)
    obtain ⟨hwq', hindex', hnext'⟩ := sameQueue_onLine c line
    exact ⟨hwq.trans hwq', hindex.trans hindex', hnext.trans hnext'⟩

theorem pending_popWrite {c : JkCtx V} {w : Write} {rest : List Write}
    (h : pending c = w :: rest) (now : V) : pending (popWrite c w now) = rest := by
  obtain ⟨hwq, hindex, -⟩ := sameQueue_queueStr c (.register w)
  have hnext : c.wq.drop (c.wqI + 1) = rest := by
    rw [← List.drop_drop, ← pending, h]
    rfl
  unfold popWrite
  dsimp only
  generalize queueStr c (.register w) = d at hwq hindex ⊢
  split
  · rw [pending]
    dsimp only
    rw [hwq, hindex, hnext]
  · next hlast =>
    rw [hwq, hindex] at hlast
    rw [← hnext, List.drop_eq_nil_of_le (by omega)]
    rfl

/-- A step of the pump in which the connection stays and the next write is due. -/
structure Due (c : JkCtx V) (e : PumpEnv V) : Prop where
  stream : c.state = .stream
  fd : c.fd = true
  stays : e.readEnd = .again
  online : (e.reads.foldl onLine c).handshakeOk = true ∧ (e.reads.foldl onLine c).fd = true
  paced : le c.wqNext e.now = true
  flushed : (flushLoop (pumpWrites (drainIn c e) e.now) e.writes).2 = false

/-- Such a step takes the next write from the queue. -/
theorem pump_takes_next {c : JkCtx V} {e : PumpEnv V} (h : Due c e) {w : Write} {rest : List Write}
    (hpending : pending c = w :: rest) : pending (pump c e) = rest := by
  have hconnect : pumpConnect c e = (c, true) := by
    unfold pumpConnect
    simp [h.stream]
  have hdrain : drainIn c e = e.reads.foldl onLine c := if_pos h.stays
  have hsame : SameQueue c (drainIn c e) := hdrain ▸ sameQueue_onLines c e.reads
  have hdrained : pending (drainIn c e) = w :: rest := hsame.pending.trans hpending
  have hwrites : pumpWrites (drainIn c e) e.now = popWrite (drainIn c e) w e.now := by
    have honline : (drainIn c e).handshakeOk = true ∧ (drainIn c e).fd = true := hdrain ▸ h.online
    have hdue : le (drainIn c e).wqNext e.now = true := hsame.2.2 ▸ h.paced
    unfold pumpWrites
    rw [if_neg (by simp [honline]), hdrained]
    exact if_pos hdue
  have hpopped := pending_popWrite hdrained e.now
  have hflushed := h.flushed
  unfold pump
  rw [hconnect]
  dsimp only
  rw [if_pos h.fd, hwrites]
  rw [hwrites] at hflushed
  split
  · unfold flushOut
    have hloop := (sameQueue_flushLoop (popWrite (drainIn c e) w e.now) e.writes).pending
    cases hcase : flushLoop (popWrite (drainIn c e) w e.now) e.writes with
    | mk g failed =>
      rw [hcase] at hloop hflushed
      obtain rfl : failed = false := hflushed
      exact hloop.trans hpopped
  · exact hpopped

/-! ## Runs -/

/-- In every run that throws no write away, every write decided on is in the output
or in the queue, in order and once, and no setting shows a value that was thrown
away. The writes in the queue go to the output one by one. -/
theorem writes_kept {mac : CBuf 32} {pollIntervalS nextTry : Double} {acts : List (Act Double)}
    (hfits : Along step Fits (opened mac pollIntervalS nextTry) acts) :
    Always step Kept (opened mac pollIntervalS nextTry) acts ∧
      ∀ e w rest, Due (run step (opened mac pollIntervalS nextTry) acts) e →
        pending (run step (opened mac pollIntervalS nextTry) acts) = w :: rest →
        pending (run step (opened mac pollIntervalS nextTry) (acts ++ [.pump e])) = rest := by
  have hstep (c : JkCtx Double) (a : Act Double) (h : Inv c) (hok : Fits c a) : Inv (step c a) :=
    inv_step h hok
  refine ⟨always_of_along hstep (fun _ h => h.toKept) (inv_opened mac pollIntervalS nextTry) hfits,
    fun e w rest hdue hpending => ?_⟩
  rw [run_append]
  exact pump_takes_next hdue hpending

/-- A step in which the helper takes everything. -/
def calm (now : ℚ) (reads : List Received) : PumpEnv V :=
  { now := lit now, connect := .connected, ready := true, soError := false, reads := reads
    readEnd := .again, writes := [.wrote 4096] }

/-- A request for a charge voltage and an overvoltage limit. -/
def bothLimits : Request V := ⟨none, some (lit (34 / 10)), some (lit (36 / 10)), none⟩

/-- A battery of address 0. -/
def battery : JkCtx V :=
  opened (CBuf.copy 32 (CString.lit "C8:47:8C:00:00:00")) (lit 2) (lit 0)

theorem pumpFits_calm {c : JkCtx V} {now : ℚ} {reads : List Received}
    (hpop : RegisterRoom (afterLines c (calm now reads)))
    (hflush : (flushLoop (afterWrites c (calm now reads)) [.wrote 4096]).2 = false) :
    PumpFits c (calm now reads) where
  connect := nofun
  read := fun _ h => absurd rfl h
  pop := fun _ _ _ _ _ => hpop
  flush := fun _ _ h => absurd (hflush.symm.trans h) Bool.false_ne_true

/-- A request, and the pump that writes its first register. -/
def oneRequest : List (Act Double) :=
  [.pump (calm 0 [.connected]), .put bothLimits, .pump (calm 1 [])]

theorem writes_kept_request :
    Always step Kept battery oneRequest ∧
      ∀ e w rest, Due (run step battery oneRequest) e →
        pending (run step battery oneRequest) = w :: rest →
        pending (run step battery (oneRequest ++ [.pump e])) = rest := by
  refine writes_kept ⟨?_, ?_, ?_, trivial⟩
  · exact pumpFits_calm (by unfold RegisterRoom; decide +kernel) (by decide +kernel)
  · have hcount : (step (battery : JkCtx Double) (.pump (calm 0 [.connected]))).wq.length +
        writeCount (step (battery : JkCtx Double) (.pump (calm 0 [.connected]))) bothLimits ≤
          wqCap := by
      decide +kernel
    have hput : PutFits (step (battery : JkCtx Double) (.pump (calm 0 [.connected])))
        bothLimits := by
      intro _ _
      exact hcount
    exact hput
  · exact pumpFits_calm (by unfold RegisterRoom; decide +kernel) (by decide +kernel)

/-- The queue takes two such requests; of the third nothing is written and all is
shown. -/
theorem third_request_lost :
    ¬Always step Kept (battery : JkCtx Double)
      [.pump (calm 0 [.connected]), .put bothLimits, .put bothLimits, .put bothLimits] := by
  intro h
  have hkept : Kept (step (step (step (step (battery : JkCtx Double)
      (.pump (calm 0 [.connected]))) (.put bothLimits)) (.put bothLimits))
      (.put bothLimits)) := h.2.2.2.1
  exact hkept.shown .cellRcv 6 (by decide +kernel) (by decide +kernel)

end MoonFlare.JkWrites
