import MoonFlare.JkWrites

/-!
# The helper of the JK batteries

The batteries behind one Bluetooth adapter share a helper process. The module
keeps a row for each adapter: what state its helper is in, its process, and how
many batteries use it. What a step of a battery does with the row is listed as
calls beside the step itself; the row decides nothing of the step.
-/

namespace MoonFlare.JkHelper

open JkWrites Arithmetic

/-! ## The rows -/

/-- The states of a helper. -/
inductive HelperState where
  | none
  | starting
  | up
  | dead
  deriving DecidableEq

/-- `helper_row_t`. -/
structure HelperRow where
  adapter : CBuf 16
  st : HelperState
  /-- The process, once there was one. -/
  pid : Option ℕ
  refcnt : ℕ
  deriving DecidableEq

/-- `HMAX`. -/
def hmax : ℕ := 4

/-- The adapter used when none is named. -/
def hci0 : CBuf 16 := CBuf.copy 16 (CString.lit "hci0")

/-- The adapter a name stands for. -/
def orHci0 (adapter : CBuf 16) : CBuf 16 := if adapter.str.nonempty then adapter else hci0

/-- A row of an adapter that was not used before. -/
def HelperRow.new (adapter : CBuf 16) : HelperRow := ⟨adapter, .none, none, 0⟩

/-- `helper_row` as it leaves the table: with a row for the adapter if there is
room. -/
def helperRow (help : List HelperRow) (adapter : CBuf 16) : List HelperRow :=
  if help.any (·.adapter = orHci0 adapter) then help
  else if help.length < hmax then help ++ [.new (orHci0 adapter)]
  else help

/-- The row `helper_row` finds. -/
def findRow (help : List HelperRow) (adapter : CBuf 16) : Option HelperRow :=
  (helperRow help adapter).find? (·.adapter = orHci0 adapter)

/-- A change of the row of an adapter. -/
def onRow (help : List HelperRow) (adapter : CBuf 16) (f : HelperRow → HelperRow) :
    List HelperRow :=
  (helperRow help adapter).map fun h => if h.adapter = orHci0 adapter then f h else h

/-- What the system answers about a helper. -/
structure HelperEnv where
  /-- `helper_needed`: a connection is refused because nobody listens. -/
  needed : Bool
  /-- `kill` says that there is no such process. -/
  gone : Bool
  /-- The process that `fork` makes. -/
  fork : Option ℕ

/-- The helper is still starting, as far as can be seen. -/
def HelperRow.stillStarting (h : HelperRow) (e : HelperEnv) : Bool :=
  h.st = .starting && !(h.pid.isSome && e.gone)

/-- `helper_spawn` forks. -/
def HelperRow.forks (h : HelperRow) (e : HelperEnv) : Bool :=
  !h.stillStarting e && h.st ≠ .up

/-- `helper_spawn` on the row. -/
def HelperRow.spawn (h : HelperRow) (e : HelperEnv) : HelperRow :=
  if h.forks e then
    match e.fork with
    | some pid => { h with pid := some pid, st := .starting }
    | none => { h with st := if h.st = .starting then .none else h.st }
  else h

/-- `helper_up`. -/
def HelperRow.rise (h : HelperRow) : HelperRow := { h with st := .up, refcnt := h.refcnt + 1 }

/-- `helper_dead`. -/
def HelperRow.die (h : HelperRow) : HelperRow :=
  if 0 < h.refcnt then { h with st := .dead } else h

/-- `helper_release`. -/
def HelperRow.release (h : HelperRow) : HelperRow :=
  if h.refcnt = 0 then h
  else { h with
    refcnt := h.refcnt - 1
    st := if h.refcnt - 1 = 0 ∧ h.st = .up then .none else h.st }

/-- A call on the row of the battery's adapter. -/
inductive HelperCall where
  | spawn (e : HelperEnv)
  | up
  | dead
  | release

/-- What a call does to the row. -/
def HelperCall.apply : HelperCall → HelperRow → HelperRow
  | spawn e, h => h.spawn e
  | up, h => h.rise
  | dead, h => h.die
  | release, h => h.release

/-! ## The calls of a battery -/

/-- The calls of `on_line`. -/
def lineCalls (c : JkCtx Double) : Received → List HelperCall
  | .connected => if c.handshakeOk then [] else [.up]
  | _ => []

/-- The calls of the lines a step reads. -/
def linesCalls : JkCtx Double → List Received → List HelperCall
  | _, [] => []
  | c, r :: rs => lineCalls c r ++ linesCalls (onLine c r) rs

/-- The calls of `drain_in`. -/
def drainCalls (c : JkCtx Double) (e : PumpEnv Double) : List HelperCall :=
  linesCalls c e.reads ++
    if e.readEnd = .eof ∧ (e.reads.foldl onLine c).handshakeOk then [.dead] else []

/-- The step tries to connect. -/
def Tries (c : JkCtx Double) (e : PumpEnv Double) :
  Prop := c.state = .idle ∧ ¬lt e.now c.nextTry = true

instance (c : JkCtx Double) (e : PumpEnv Double) : Decidable (Tries c e) := by
  unfold Tries
  infer_instance

/-- The calls of the part of the pump that gets a connection. -/
def connectCalls (c : JkCtx Double) (e : PumpEnv Double) (h : HelperEnv) : List HelperCall :=
  let spawn : List HelperCall := if h.needed then [.spawn h] else []
  let waits := c.state = .idle ∧ lt e.now c.nextTry = true
  let c := if c.state = .idle ∧ ¬waits then startConnect c e else c
  if waits then []
  else if c.state = .idle then spawn
  else if c.state = .connecting ∧ e.ready = true ∧ e.soError = true then spawn
  else []

/-- The calls of `pump`. -/
def pumpCalls (c : JkCtx Double) (e : PumpEnv Double) (h : HelperEnv) : List HelperCall :=
  connectCalls c e h ++
    if (pumpConnect c e).2 ∧ (pumpConnect c e).1.fd then drainCalls (pumpConnect c e).1 e else []

/-- The lines with which a battery takes its leave. -/
inductive Farewell where
  | quit
  | disconnect
  deriving DecidableEq

/-- The text of such a line. -/
def Farewell.text : Farewell → Bytes
  | .quit => ascii "\x7b\"cmd\":\"quit\"\x7d"
  | .disconnect => ascii "\x7b\"cmd\":\"disconnect\"\x7d"

/-- The line that `jk_close` puts into the output. -/
def farewell (row : Option HelperRow) (c : JkCtx Double) : Option Farewell :=
  if c.fd ∧ c.handshakeOk then
    if row.any (·.refcnt ≤ 1) then some .quit else some .disconnect
  else none

/-- `out_len` behind `queue_str` of a text. -/
def outLenWith (c : JkCtx Double) (text : Bytes) : ℕ :=
  if outLen c + text.length + 1 < lineCap then outLen c + text.length + 1 else outLen c

/-- A `write` fails before `flush_out` is done. -/
def flushFails (off len : ℕ) : List WriteResult → Bool
  | [] => false
  | r :: rs =>
    if off < len then
      match r with
      | .again => false
      | .failed => true
      | .wrote n => flushFails (min (off + n) len) len rs
    else false

/-- The connection fails while the leave is taken; `sock_close` then forgets the
handshake. -/
def leaveFails (row : Option HelperRow) (c : JkCtx Double) (writes : List WriteResult) : Bool :=
  match farewell row c with
  | some line => flushFails c.outOff (outLenWith c line.text) writes
  | none => false

/-- The calls of `jk_close`. -/
def closeCalls (row : Option HelperRow) (c : JkCtx Double) (writes : List WriteResult) :
    List HelperCall :=
  if c.handshakeOk ∧ ¬leaveFails row c writes then [.release] else []

/-! ## All batteries -/

/-- A battery that is open. -/
structure Conn where
  adapter : CBuf 16
  ctx : JkCtx Double

/-- The table and the batteries. -/
structure World where
  help : List HelperRow
  conns : List Conn
  /-- The processes made so far, which the code does not keep. -/
  forked : List ℕ

/-- The calls of a battery. -/
def calls (w : World) (adapter : CBuf 16) (ks : List HelperCall) : World :=
  ks.foldl call w
where
  /-- One call; a table without room for a row takes none. -/
  call (w : World) (k : HelperCall) : World :=
    { w with
      help := onRow w.help adapter k.apply
      forked :=
        match k, findRow w.help adapter with
        | .spawn e, some h => if h.forks e then w.forked ++ e.fork.toList else w.forked
        | _, _ => w.forked }

/-- A call from outside, or a step of a battery's thread. -/
inductive Event where
  /-- `jk_open`, with the address, adapter and poll interval of the text. -/
  | opens (adapter : CBuf 16) (mac : CBuf 32) (pollIntervalS : Double) (e : PumpEnv Double)
    (h : HelperEnv)
  | put (i : ℕ) (r : Request Double)
  | action (i : ℕ) (a : Action Double)
  | pump (i : ℕ) (e : PumpEnv Double) (h : HelperEnv)
  | close (i : ℕ) (writes : List WriteResult)

/-- The adapter of an opening is refused by `connect`. -/
def openCalls (mac : CBuf 32) (e : PumpEnv Double) (h : HelperEnv) : List HelperCall :=
  match e.connect with
  | .failed => if mac.str.nonempty ∧ h.needed then [.spawn h] else []
  | _ => []

/-- The context that `jk_open` leaves. -/
def jkOpen (mac : CBuf 32) (pollIntervalS : Double) (e : PumpEnv Double) : JkCtx Double :=
  if mac.str.nonempty then
    match e.connect with
    | .failed => opened mac pollIntervalS (add e.now (lit (1 / 5)))
    | _ => startConnect (opened mac pollIntervalS (lit 0)) e
  else opened mac pollIntervalS (lit 0)

/-- The context of a battery changes. -/
def setCtx (w : World) (i : ℕ) (ctx : JkCtx Double) : World :=
  { w with conns := w.conns.modify i fun c => { c with ctx := ctx } }

/-- What an event does. -/
def step (w : World) : Event → World
  | .opens adapter mac pollIntervalS e h =>
    let w := calls w (orHci0 adapter) (openCalls mac e h)
    { w with conns := w.conns ++ [⟨orHci0 adapter, jkOpen mac pollIntervalS e⟩] }
  | .put i r =>
    match w.conns[i]? with
    | some c => setCtx w i (jkPutSettings c.ctx r).1
    | none => w
  | .action i a =>
    match w.conns[i]? with
    | some c => setCtx w i (jkAction c.ctx a).1
    | none => w
  | .pump i e h =>
    match w.conns[i]? with
    | some c => setCtx (calls w c.adapter (pumpCalls c.ctx e h)) i (JkWrites.pump c.ctx e)
    | none => w
  | .close i writes =>
    match w.conns[i]? with
    | some c =>
      let w := { w with help := helperRow w.help c.adapter }
      let w := calls w c.adapter (closeCalls (findRow w.help c.adapter) c.ctx writes)
      { w with conns := w.conns.eraseIdx i }
    | none => w

/-- Before the first battery is opened. -/
def init : World := ⟨[], [], []⟩

end MoonFlare.JkHelper
