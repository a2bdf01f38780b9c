import MoonFlare.FrameScan
import MoonFlare.JkBattery
import MoonFlare.Runs

/-!
# Reassembling frames of the JK battery

Notifications carry pieces of the frame stream. The assembler appends each piece
to a buffer of 512 bytes, looks for the header there and hands out whole frames;
`on_line` asks it again until it has none. A piece that does not fit the buffer is
cut, and nothing is looked for then.
-/

namespace MoonFlare.Jk

open FrameScan

/-- `AT_JUNK`. -/
def atJunk : Bytes := [0x41, 0x54, 0x0D, 0x0A]

/-- `JK_FRAME_DEVICE_INFO`. -/
def jkFrameDeviceInfo : UInt8 := 3

/-- `JK_FRAME_SETTINGS`. -/
def jkFrameSettings : UInt8 := 1

/-- `JK_CELL_CRC_OFFSET`. -/
def jkCellCrcOffset : ℕ := 299

/-- The size of the assembler's buffer. -/
def jkBufSize : ℕ := 512

/-- `jk_frame_assembler_t`. -/
structure JkFrameAssembler where
  buf : Bytes
  dropped : UInt32
  corrupt : UInt32
  deriving DecidableEq

/-- `jk_assembler_init`. -/
def jkAssemblerInit : JkFrameAssembler := ⟨[], 0, 0⟩

/-- The markers at the ends of a chunk are stripped. -/
def stripAt (chunk : Bytes) : Bytes :=
  let chunk := if chunk.take 4 = atJunk then chunk.drop 4 else chunk
  if 4 ≤ chunk.length ∧ chunk.drop (chunk.length - 4) = atJunk then chunk.take (chunk.length - 4)
  else chunk

/-- A response header at an offset of the buffer. -/
def headerAt (buf : Bytes) (i : ℕ) : Bool := decide ((buf.drop i).take 4 = jkHeaderRsp)

/-- The first header from an offset on. -/
def findHeader (buf : Bytes) (start : ℕ) : Option ℕ :=
  (List.range (buf.length - 3)).find? fun i => decide (start ≤ i) && headerAt buf i

/-- The check of a frame: its sum and its type. -/
def frameOk (frame : Bytes) : Bool :=
  jkCrc8 (frame.take (jkFrameSize - 1)) == frame.getD jkCellCrcOffset 0 &&
    (frame.getD 4 0 == jkFrameCellInfo || frame.getD 4 0 == jkFrameSettings ||
      frame.getD 4 0 == jkFrameDeviceInfo)

/-- Bytes at the front of the buffer are dropped. -/
def dropBytes (a : JkFrameAssembler) (n : ℕ) : JkFrameAssembler :=
  { a with buf := a.buf.drop n, dropped := a.dropped + UInt32.ofNat n }

/-- What a round of the loop comes to. -/
inductive Round where
  | stop (a : JkFrameAssembler)
  | again (a : JkFrameAssembler)
  | frame (a : JkFrameAssembler) (f : Bytes)

/-- A round of the loop that drains complete frames. -/
def drainRound (a : JkFrameAssembler) : Round :=
  match findHeader a.buf 0 with
  | none => if 4 < a.buf.length then .stop (dropBytes a (a.buf.length - 4)) else .stop a
  | some hpos =>
    if 0 < hpos then .again (dropBytes a hpos)
    else if a.buf.length < jkFrameSize then .stop a
    else if frameOk (a.buf.take jkFrameSize) then
      .frame { a with buf := a.buf.drop jkFrameSize } (a.buf.take jkFrameSize)
    else
      let a := { a with corrupt := a.corrupt + 1 }
      match findHeader a.buf 1 with
      | some next => .again (dropBytes a next)
      | none =>
        if 4 < a.buf.length then .again (dropBytes a (a.buf.length - 4))
        else .again { a with buf := [] }

/-- The loop, for at most so many frames. Every round but the last one shortens
the buffer. -/
def drainLoop : ℕ → JkFrameAssembler → ℕ → JkFrameAssembler × List Bytes
  | 0, a, _ => (a, [])
  | fuel + 1, a, maxFrames =>
    if 0 < maxFrames ∧ 4 ≤ a.buf.length then
      match drainRound a with
      | .stop a => (a, [])
      | .again a => drainLoop fuel a maxFrames
      | .frame a f =>
        let (a, fs) := drainLoop fuel a (maxFrames - 1)
        (a, f :: fs)
    else (a, [])

/-- `jk_assembler_feed`: the frames are those it copied out, one after
another. -/
def jkAssemblerFeed (a : JkFrameAssembler) (chunk : Bytes) (maxFrames : ℕ) :
    JkFrameAssembler × List Bytes :=
  let chunk := stripAt chunk
  if chunk = [] ∧ a.buf.length < jkFrameSize then (a, [])
  else
    let avail := jkBufSize - a.buf.length
    if avail < chunk.length then
      ({ a with
          buf := a.buf ++ chunk.take avail
          dropped := a.dropped + UInt32.ofNat (chunk.length - avail) }, [])
    else
      let a := { a with buf := a.buf ++ chunk }
      drainLoop (a.buf.length + 1) a maxFrames

/-- The loop of `on_line` over a notification: the assembler is asked again,
with nothing, as long as it hands out a frame. -/
def notifyLoop : ℕ → JkFrameAssembler → Bytes → JkFrameAssembler × List Bytes
  | 0, a, _ => (a, [])
  | fuel + 1, a, p =>
    match jkAssemblerFeed a p 1 with
    | (a, []) => (a, [])
    | (a, fs) =>
      let (a, rest) := notifyLoop fuel a []
      (a, fs ++ rest)

/-- The assembler and the frames that `on_line` has got from it. -/
structure Reassembly where
  asm : JkFrameAssembler
  frames : List Bytes
  deriving DecidableEq

/-- Before the first notification. -/
def Reassembly.init : Reassembly := ⟨jkAssemblerInit, []⟩

/-- What `on_line` does with the bytes of a notification. A full buffer holds
one frame. -/
def notify (s : Reassembly) (chunk : Bytes) : Reassembly :=
  if chunk = [] then s
  else
    let (a, fs) := notifyLoop (jkBufSize / jkFrameSize + 1) s.asm chunk
    ⟨a, s.frames ++ fs⟩

/-- The format of the frames. -/
def jkFormat : Format UInt8 where
  header := jkHeaderRsp
  size := jkFrameSize
  valid := frameOk
  fits := by decide
  sharp := by
    intro k hk
    match k with
    | 1 => decide
    | 2 => decide
    | 3 => decide
    | k + 4 => simp [jkHeaderRsp]

end MoonFlare.Jk
