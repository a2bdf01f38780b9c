import MoonFlare.CJsonText
import MoonFlare.XdBattery

/-!
# The XD serial transport

A command is one frame, and its reply another: start byte, address, command,
length, payload, check byte, end byte. The blocking transaction waits for each
part of the reply. The stepped one is called whenever the port may be ready
and goes on from the byte at which the last call stopped. The descriptor is
the bytes that are still to be read from it and those that were written;
which calls of the system are interrupted, would block or fail, how many bytes
each moves, and the clock, are inputs.
-/

namespace MoonFlare.Xd

/-- `SOI`. -/
def soi : UInt8 := 0x7E

/-- `EOI`. -/
def eoi : UInt8 := 0x0D

/-- `BMS_MAX_FRAME`. -/
def bmsMaxFrame : ℕ := 512

/-! ## Frames -/

/-- `bms_check`. -/
def bmsCheck (buf : Bytes) : UInt8 := buf.foldl (· ^^^ ·) 0 ^^^ buf.foldl (· + ·) 0

/-- `bms_build_frame`. -/
def bmsBuildFrame (addr cmd : UInt8) (data : Bytes) : Bytes :=
  let body := [soi, addr, cmd, UInt8.ofNat data.length] ++ data
  body ++ [bmsCheck body, eoi]

/-! ## The descriptor -/

/-- A serial port: what is still to be read from it, and what was written to it. -/
structure Port where
  wire : Bytes
  sent : Bytes
  deriving DecidableEq

/-- What a call of `read` or `write` does: it moves at least one byte and at most so many more,
it is interrupted, it would block, or it fails. -/
inductive Sys where
  | moved (more : ℕ)
  | interrupted
  | again
  | broken (strerror : CString)
  deriving DecidableEq

/-- How a loop of reads ends. -/
inductive Recv where
  | full
  | wait
  | broken (strerror : CString)
  deriving DecidableEq

/-- The reads of `bms_txrx_step` up to `n` bytes: what was got, what is left on the wire, and
the calls that are left. -/
def recvLoop (n : ℕ) : List Sys → Bytes → Bytes → Bytes × Bytes × List Sys × Recv
  | [], got, wire => (got, wire, [], if n ≤ got.length then .full else .wait)
  | r :: rs, got, wire =>
    if n ≤ got.length then (got, wire, r :: rs, .full)
    else match r with
      | .moved more =>
        -- a read of no bytes is taken as one that would block
        if wire = [] then (got, wire, rs, .wait)
        else
          let k := min (more + 1) (n - got.length)
          recvLoop n rs (got ++ wire.take k) (wire.drop k)
      | .interrupted => recvLoop n rs got wire
      | .again => (got, wire, rs, .wait)
      | .broken e => (got, wire, rs, .broken e)

/-! ## The stepped transaction -/

/-- `phase` of a `bms_txrx_state_t`. -/
inductive Phase where
  | refused
  | write
  | settle
  | head
  | tail
  | done
  deriving DecidableEq

/-- `bms_txrx_state_t`; the two clock fields are decided by the inputs of a step. -/
structure TxRx where
  addr : UInt8
  cmd : UInt8
  tx : Bytes
  txSent : ℕ
  /-- The bytes of `rx_head` up to `rx_head_got`. -/
  rxHead : Bytes
  /-- The bytes of `rx_tail` up to `rx_tail_got`. -/
  rxTail : Bytes
  rxTailNeed : ℕ
  phase : Phase
  body : Bytes
  err : CBuf 96
  deriving DecidableEq

/-- `bms_io_t`, with the body or the error that the state holds then. -/
inductive StepResult where
  | needRead
  | needWrite
  | needTime
  | done (body : Bytes)
  | timeout
  | error
  deriving DecidableEq

/-- What decides a call of `bms_txrx_step`: the deadline has passed, the settle time has, and
the system calls. -/
structure Poll where
  late : Bool
  settled : Bool
  writes : List Sys
  reads : List Sys
  deriving DecidableEq

namespace TxRx

/-- `snprintf(st->err, sizeof(st->err), ...)`. -/
def setErr (st : TxRx) (msg : Bytes) : TxRx := { st with err := CBuf.copy 96 (CString.ofBytes msg) }

/-- The number `%d` or `%u` prints. -/
def decimal (n : ℕ) : Bytes := (Decimal.ofNat n).text

/-- `%02x`. -/
def hexPair (b : UInt8) : Bytes := [CJson.hexDigit (b / 16), CJson.hexDigit (b % 16)]

/-- The number of a phase. -/
def phaseText : Phase → Bytes
  | .refused => ascii "-1"
  | .write => ascii "0"
  | .settle => ascii "1"
  | .head => ascii "2"
  | .tail => ascii "3"
  | .done => ascii "4"

/-- `bms_txrx_init`. -/
def init (addr cmd : UInt8) (data : Bytes) : TxRx :=
  let st : TxRx := ⟨addr, cmd, [], 0, [], [], 0, .write, [], CBuf.zero 96⟩
  if 0xFF < data.length then
    { st.setErr (ascii "data too long: " ++ decimal data.length) with phase := .refused }
  else { st with tx := bmsBuildFrame addr cmd data }

/-- The writes of phase 0. -/
def sendLoop : List Sys → TxRx → Port → TxRx × Port × Option StepResult
  | [], st, p =>
    if st.tx.length ≤ st.txSent then ({ st with phase := .settle }, p, none)
    else (st, p, some .needWrite)
  | w :: ws, st, p =>
    if st.tx.length ≤ st.txSent then ({ st with phase := .settle }, p, none)
    else match w with
      | .moved more =>
        let k := min (more + 1) (st.tx.length - st.txSent)
        sendLoop ws { st with txSent := st.txSent + k }
          { p with sent := p.sent ++ (st.tx.drop st.txSent).take k }
      | .interrupted => sendLoop ws st p
      | .again => (st, p, some .needWrite)
      | .broken e => (st.setErr (ascii "write: " ++ e.bytes), p, some .error)

/-- The checks of a whole header. -/
def checkHead (st : TxRx) : TxRx × Option StepResult :=
  match st.rxHead with
  | [s, a, c, len] =>
    if s ≠ soi then (st.setErr (ascii "bad SOI: 0x" ++ hexPair s), some .error)
    else if a ≠ st.addr then
      (st.setErr (ascii "addr " ++ decimal a.toNat ++ ascii " != " ++ decimal st.addr.toNat),
        some .error)
    else if c ≠ st.cmd then
      (st.setErr (ascii "cmd 0x" ++ hexPair c ++ ascii " != 0x" ++ hexPair st.cmd), some .error)
    else if bmsMaxFrame < len.toNat + 6 then
      (st.setErr (ascii "frame too large: LEN=" ++ decimal len.toNat), some .error)
    else ({ st with rxTailNeed := len.toNat + 2, phase := .tail }, none)
  | _ => (st, some .error)

/-- The checks of a whole tail. -/
def checkTail (st : TxRx) : TxRx × StepResult :=
  let n := st.rxTailNeed - 2
  let want := bmsCheck (st.rxHead ++ st.rxTail.take n)
  let chk := st.rxTail.getD n 0
  let last := st.rxTail.getD (n + 1) 0
  if chk ≠ want then
    (st.setErr (ascii "checksum mismatch: got 0x" ++ hexPair chk ++ ascii " want 0x" ++
      hexPair want), .error)
  else if last ≠ eoi then (st.setErr (ascii "bad EOI: 0x" ++ hexPair last), .error)
  else ({ st with body := st.rxTail.take n, phase := .done }, .done (st.rxTail.take n))

/-- Phase 3. -/
def tailPhase (st : TxRx) (p : Port) (rs : List Sys) : TxRx × Port × StepResult :=
  let (got, wire, _, r) := recvLoop st.rxTailNeed rs st.rxTail p.wire
  let st := { st with rxTail := got }
  let p := { p with wire := wire }
  match r with
  | .wait => (st, p, .needRead)
  | .broken e => (st.setErr (ascii "read body: " ++ e.bytes), p, .error)
  | .full =>
    let (st, r) := st.checkTail
    (st, p, r)

/-- Phase 2, and the next one when the header is whole. -/
def headPhase (st : TxRx) (p : Port) (rs : List Sys) : TxRx × Port × StepResult :=
  let (got, wire, rs, r) := recvLoop 4 rs st.rxHead p.wire
  let st := { st with rxHead := got }
  let p := { p with wire := wire }
  match r with
  | .wait => (st, p, .needRead)
  | .broken e => (st.setErr (ascii "read head: " ++ e.bytes), p, .error)
  | .full =>
    match st.checkHead with
    | (st, some r) => (st, p, r)
    | (st, none) => st.tailPhase p rs

/-- Phase 1, and the next ones once the settle time has passed. -/
def settlePhase (st : TxRx) (p : Port) (e : Poll) : TxRx × Port × StepResult :=
  if e.settled then { st with phase := .head }.headPhase p e.reads else (st, p, .needTime)

/-- `bms_txrx_step`. -/
def step (st : TxRx) (p : Port) (e : Poll) : TxRx × Port × StepResult :=
  match st.phase with
  | .refused => (st, p, .error)
  | phase =>
    if e.late then (st.setErr (ascii "timeout in phase " ++ phaseText phase), p, .timeout)
    else match phase with
      | .write =>
        match sendLoop e.writes st p with
        | (st, p, some r) => (st, p, r)
        | (st, p, none) => st.settlePhase p e
      | .settle => st.settlePhase p e
      | .head => st.headPhase p e.reads
      | .tail => st.tailPhase p e.reads
      | .done => (st, p, .done st.body)
      | .refused => (st, p, .error)

end TxRx

/-- The caller's loop has ended. -/
def StepResult.ended : StepResult → Bool
  | .needRead | .needWrite | .needTime => false
  | .done _ | .timeout | .error => true

/-- The body a transaction ends with. -/
def StepResult.accepted : StepResult → Option Bytes
  | .done body => some body
  | _ => none

/-- `bms_txrx_step` until it ends, or as long as it is called. -/
def drive : List Poll → TxRx → Port → TxRx × Port × Option StepResult
  | [], st, p => (st, p, none)
  | e :: es, st, p =>
    match st.step p e with
    | (st, p, r) => if r.ended then (st, p, some r) else drive es st p

/-! ## The blocking transaction -/

/-- What a round of `serial_read_exact` does: `select` finds bytes and `read` moves one and at
most so many more, one of them is interrupted, the time is over, or one of them fails. -/
inductive Wait where
  | moved (more : ℕ)
  | interrupted
  | expired
  | broken
  deriving DecidableEq

/-- `serial_read_exact`: the bytes got, unless a call failed, what is left on the wire, and the
rounds that are left. -/
def serialReadExact (n : ℕ) : List Wait → Bytes → Bytes → Option Bytes × Bytes × List Wait
  | [], got, wire => (some got, wire, [])
  | w :: ws, got, wire =>
    if n ≤ got.length then (some got, wire, w :: ws)
    else match w with
      | .moved more =>
        let k := min (more + 1) (n - got.length)
        serialReadExact n ws (got ++ wire.take k) (wire.drop k)
      | .interrupted => serialReadExact n ws got wire
      | .expired => (some got, wire, ws)
      | .broken => (none, wire, ws)

/-- How `bms_txrx` ends: the payload, a timeout, a call that fails, or a reply that is refused. -/
inductive TxRxResult where
  | payload (body : Bytes)
  | timeout
  | broken
  | refused
  deriving DecidableEq

/-- The body that `bms_txrx` returns. -/
def TxRxResult.accepted : TxRxResult → Option Bytes
  | .payload body => some body
  | _ => none

/-- The checks of `bms_txrx` on a whole reply. -/
def checkReply (addr cmd : UInt8) (head tail : Bytes) : TxRxResult :=
  match head with
  | [_, a, c, len] =>
    let n := len.toNat
    if a ≠ addr then .refused
    else if c ≠ cmd then .refused
    else if tail.getD (n + 1) 0 ≠ eoi then .refused
    else if tail.getD n 0 ≠ bmsCheck (head ++ tail.take n) then .refused
    else .payload (tail.take n)
  | _ => .refused

/-- `bms_txrx`, where the write moves the whole frame or not, and the rounds of the two reads
are given. -/
def bmsTxrx (addr cmd : UInt8) (data : Bytes) (written : Bool) (ws vs : List Wait) (p : Port) :
    Port × TxRxResult :=
  if 0xFF < data.length then (p, .refused)
  else if !written then (p, .broken)
  else
    let p := { p with sent := p.sent ++ bmsBuildFrame addr cmd data }
    match serialReadExact 4 ws [] p.wire with
    | (none, wire, _) => ({ p with wire := wire }, .broken)
    | (some head, wire, _) =>
      match head with
      | [s, _, _, len] =>
        if s ≠ soi then ({ p with wire := wire }, .refused)
        else if bmsMaxFrame < len.toNat + 6 then ({ p with wire := wire }, .refused)
        else
          match serialReadExact (len.toNat + 2) vs [] wire with
          | (none, wire, _) => ({ p with wire := wire }, .broken)
          | (some tail, wire, _) =>
            if tail.length ≠ len.toNat + 2 then ({ p with wire := wire }, .timeout)
            else ({ p with wire := wire }, checkReply addr cmd head tail)
      | _ => ({ p with wire := wire }, .timeout)

end MoonFlare.Xd
