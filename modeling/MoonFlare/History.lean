import MoonFlare.HistorySpec
import MoonFlare.RingBuffer
import MoonFlare.Transactions

/-!
# The history of readings

One file for each module, and one ring of samples that are not yet in them. The calls
of SQLite succeed here. Beside the state it is recorded which samples were put in the
ring and which of them were evicted.
-/

namespace MoonFlare.History

/-! ## Data -/

/-- `MF_HISTORY_RING_CAP`. -/
def mfHistoryRingCap : ℕ := 1024

theorem mfHistoryRingCap_pos : 0 < mfHistoryRingCap := by decide

/-- `MF_HISTORY_MAX_MODULES`. -/
def mfHistoryMaxModules : ℕ := 32

/-- `MF_HISTORY_BACKFILL_S`. -/
def mfHistoryBackfillS : Double := Double.ofInt (2 * 86400)

/-- `mf_sample_t`. -/
structure Sample where
  uuid : CBuf 40
  ts : Double
  online : ℤ
  reading : CBuf 4096
  captureIntervalS : Double
  deriving DecidableEq

/-- The keys of a file's `module` table. -/
inductive MetaKey where
  | uuid
  | name
  | kind
  | driver
  | createdTs
  | retiredTs
  | capture
  | migrated
  | retentionDays
  deriving DecidableEq

/-- A value of that table; a number stands for its text. -/
inductive MetaValue where
  | text (s : CString)
  | number (v : Double)
  deriving DecidableEq

/-- The contents of a module's file. -/
structure ModFile where
  info : MetaKey → Option MetaValue
  columns : List HistCol
  samples : List Row

/-- A file with only its schema. -/
def ModFile.fresh : ModFile := ⟨fun _ => none, [], []⟩

/-- `hist_mod_t`, while it is used. -/
structure HistMod where
  uuid : CBuf 40
  kind : CBuf 16
  /-- The columns of the prepared `INSERT`, when there is one. -/
  ins : Option (List HistCol)
  cols : List HistCol
  graph : CBuf 32
  /-- When the last sample was queued. -/
  lastTs : Double
  /-- Inside the `BEGIN` of a slice. -/
  inTxn : Bool
  captures : Bool
  keepDefault : Double
  keepDays : Double
  nextPrune : Double
  marks : List Watermark
  nextMark : Double

/-- The file a sample belongs to: the directory and the module. -/
abbrev FileId := CString × CString

/-- What was put in the ring. -/
structure Logged where
  file : FileId
  sample : Sample
  evicted : Bool

/-- The state of `history.c` and of its files. -/
structure Store where
  dir : CBuf 256
  isOpen : Bool
  mods : Fin mfHistoryMaxModules → Option HistMod
  ring : RingBuffer Sample mfHistoryRingCap
  files : FileId → TxnFile ModFile
  /-- Every sample put in the ring, oldest first. -/
  log : List Logged

/-- What the surroundings decide in a call. -/
structure HistEnv where
  /-- `time(NULL)`. -/
  now : Double
  /-- `json_extract` of a reading, nothing without JSON support. -/
  jsonExtract : CString → CString → Option SqlValue

namespace Store

variable (st : Store)

/-- `find_mod`: the slot of a module. -/
def findMod (uuid : CString) : Option (Fin mfHistoryMaxModules) :=
  (List.finRange mfHistoryMaxModules).find? fun i =>
    (st.mods i).any fun m => decide (m.uuid.str = uuid)

/-- The file of a module. -/
def fileId (uuid : CString) : FileId := (st.dir.str, uuid)

/-- A slot is written. -/
def setMod (i : Fin mfHistoryMaxModules) (m : Option HistMod) : Store :=
  { st with mods := Function.update st.mods i m }

/-- The file of a module is changed. -/
def onFile (uuid : CString) (f : TxnFile ModFile → TxnFile ModFile) : Store :=
  { st with files := Function.update st.files (st.fileId uuid) (f (st.files (st.fileId uuid))) }

/-! ## Files -/

/-- `set_meta`. -/
def setMeta (uuid : CString) (key : MetaKey) (value : Option MetaValue) : Store :=
  st.onFile uuid fun f => f.write fun c => { c with info := Function.update c.info key value }

/-- `get_meta`. -/
def getMeta (uuid : CString) (key : MetaKey) : Option MetaValue :=
  (st.files (st.fileId uuid)).view.info key

/-- A file has a column of that name. -/
def hasColumn (f : ModFile) (c : HistCol) : Bool := f.columns.any fun d => decide (d.name = c.name)

/-- A column is added; the rows have nothing in it. -/
def extendColumn (c : HistCol) (f : ModFile) : ModFile :=
  { f with
    columns := f.columns ++ [c]
    samples := f.samples.map fun row => { row with values := row.values ++ [(c.name.str, .null)] } }

/-- A column is filled in from the readings of the last days. -/
def backfillColumn (e : HistEnv) (c : HistCol) (f : ModFile) : ModFile :=
  let since := e.now.sub mfHistoryBackfillS
  { f with samples := f.samples.map fun row =>
      if row.ts.ge since then
        let found := ((e.jsonExtract row.reading c.path.str).getD .null).keptAs c.isText
        { row with values := row.values.map fun v => if v.1 = c.name.str then (v.1, found) else v }
      else row }

/-- A declared column that a file does not have is added and filled in. -/
def addColumn (e : HistEnv) (f : ModFile) (c : HistCol) : ModFile :=
  if hasColumn f c then f else backfillColumn e c (extendColumn c f)

/-- `sync_columns`. -/
def syncColumns (e : HistEnv) (i : Fin mfHistoryMaxModules) (m : HistMod) : Store :=
  (st.onFile m.uuid.str fun f => f.write fun c => m.cols.foldl (addColumn e) c).setMod i
    (some { m with ins := some m.cols })

/-! ## Lifecycle -/

/-- `close_mod`. -/
def closeMod (i : Fin mfHistoryMaxModules) : Store := st.setMod i none

/-- `mf_history_close`. -/
def close : Store :=
  { st with
    mods := fun _ => none
    ring := st.ring.clear ⟨0, by decide⟩
    isOpen := false }

/-- `mf_history_open`, given whether the directory can be made. -/
def open_ (dir : CString) (made : Bool) : Store × Bool :=
  if dir.nonempty then
    let st := { st.close with dir := CBuf.copy 256 dir }
    if made then ({ st with isOpen := true }, true) else (st, false)
  else (st, false)

/-- The module that a new slot holds at first. -/
def newMod (uuid : CString) : HistMod :=
  { uuid := CBuf.copy 40 uuid, kind := CBuf.zero 16, ins := none, cols := [], graph := CBuf.zero 32
    lastTs := Double.negOne, inTxn := false, captures := false, keepDefault := Double.zero
    keepDays := Double.negOne, nextPrune := Double.zero, marks := [], nextMark := Double.zero }

/-- A module with its kind and with what its capture spec says. -/
def takeSpec (m : HistMod) (kind : CString) (spec : Option HistSpec) : HistMod :=
  let m := { m with kind := CBuf.copy 16 kind }
  match spec with
  | some s =>
    { m with
      cols := s.cols, graph := s.graph, marks := s.marks, keepDefault := s.keepDefault
      captures := true }
  | none => { m with cols := [], graph := CBuf.zero 32, marks := [], captures := false }

/-- Pruning and the marks are due. -/
def dueNow (m : HistMod) : HistMod := { m with nextPrune := Double.zero, nextMark := Double.zero }

/-- What `mf_history_register` writes into the `module` table. -/
def describe (uuid name kind driver capture : CString) (e : HistEnv) : Store :=
  let st := st.setMeta uuid .uuid (some (.text uuid))
  let st := st.setMeta uuid .name (some (.text name))
  let st := st.setMeta uuid .kind (some (.text kind))
  let st := st.setMeta uuid .driver (some (.text driver))
  let st := st.setMeta uuid .capture (if capture.nonempty then some (.text capture) else none)
  let st := st.setMeta uuid .retiredTs none
  if (st.getMeta uuid .createdTs).isNone then st.setMeta uuid .createdTs (some (.number e.now))
  else st

/-- `mf_history_register` behind its search for a slot. -/
def registerAt (i : Fin mfHistoryMaxModules) (m : HistMod)
    (uuid name kind driver capture : CString) (e : HistEnv) : Store :=
  let m := dueNow (takeSpec m kind (parseSpec capture))
  (st.syncColumns e i m).describe uuid name kind driver capture e

/-- `mf_history_register`. -/
def register (uuid name kind driver capture : CString) (e : HistEnv) : Store × Bool :=
  if !st.isOpen ∨ !safeUuid uuid then (st, false)
  else
    match st.findMod uuid with
    | some i =>
      match st.mods i with
      | some m => (st.registerAt i m uuid name kind driver capture e, true)
      | none => (st, false)
    | none =>
      match (List.finRange mfHistoryMaxModules).find? fun i => (st.mods i).isNone with
      | some i => (st.registerAt i (newMod uuid) uuid name kind driver capture e, true)
      | none => (st, false)

/-! ## Capture -/

/-- The oldest sample of the ring is dropped. -/
def dropOldest : Store :=
  { st with
    ring := st.ring.popFront
    log := st.log.modify (st.log.length - st.ring.count) fun l => { l with evicted := true } }

/-- A sample is written into the ring. -/
def putSample (s : Sample) : Store :=
  { st with
    ring := st.ring.pushBack s
    log := st.log ++ [⟨st.fileId s.uuid.str, s, false⟩] }

/-- `mf_history_enqueue`. -/
def enqueue (s : Sample) : Store × Bool :=
  if !st.isOpen ∨ Double.zero.ge s.captureIntervalS then (st, true)
  else
    match st.findMod s.uuid.str with
    | none => (st, false)
    | some i =>
      match st.mods i with
      | none => (st, false)
      | some m =>
        if !m.captures then (st, true)
        else if m.lastTs.ge Double.zero ∧ (s.ts.sub m.lastTs).lt s.captureIntervalS then (st, true)
        else
          let st := st.setMod i (some { m with lastTs := s.ts })
          let st := if st.ring.count = mfHistoryRingCap then st.dropOldest else st
          (st.putSample s, true)

/-- A module whose sample was inserted, in the transaction of a slice. -/
def fedMod (m : HistMod) (s : Sample) : HistMod :=
  { m with
    inTxn := true
    marks := if s.online ≠ 0 then
      feedMarks m.cols m.marks s.ts (CJson.parse (readingText s.reading.str)) else m.marks }

/-- A row at the end of a file. -/
def addRow (row : Row) (f : TxnFile ModFile) : TxnFile ModFile :=
  f.write fun c => { c with samples := c.samples ++ [row.keptIn c.columns] }

/-- `insert_sample`, of a sample from the ring. -/
def insertSample (i : Fin mfHistoryMaxModules) (m : HistMod) (ins : List HistCol)
    (s : Sample) : Store :=
  (st.onFile m.uuid.str (addRow
    (sampleRow ins m.cols s.ts s.online s.reading.str []))).setMod i (some (fedMod m s))

/-- The file of a module inside a slice's transaction. -/
def begun (m : HistMod) : Store :=
  if m.inTxn then st else st.onFile m.uuid.str TxnFile.begin

/-- The oldest sample of the ring has been seen to. -/
def popSample : Store := { st with ring := st.ring.popFront }

/-- One sample of a slice. -/
def flushOne : Store :=
  let s := st.ring.front
  let st' := match st.findMod s.uuid.str with
    | some i =>
      match st.mods i with
      | some m =>
        match m.ins with
        | some ins => (st.begun m).insertSample i m ins s
        | none => st
      | none => st
    | none => st
  st'.popSample

/-- The samples of a slice. -/
def flushLoop : ℕ → Store → Store
  | 0, st => st
  | rows + 1, st => if st.ring.count = 0 then st else flushLoop rows st.flushOne

/-- The transaction of a slot is committed. -/
def commitSlot (st : Store) (i : Fin mfHistoryMaxModules) : Store :=
  match st.mods i with
  | some m =>
    if m.inTxn then (st.onFile m.uuid.str TxnFile.commit).setMod i (some { m with inTxn := false })
    else st
  | none => st

/-- `mf_history_flush_slice`, with the rows it reports. -/
def flushSlice (maxRows : ℤ) : Store × ℕ :=
  if !st.isOpen ∨ maxRows ≤ 0 then (st, 0)
  else
    ((List.finRange mfHistoryMaxModules).foldl commitSlot (flushLoop maxRows.toNat st),
      min maxRows.toNat st.ring.count)

/-- `mf_history_retire`. -/
def retire (uuid : CString) (retiredTs : Double) : Store × Bool :=
  match st.findMod uuid with
  | none => (st, false)
  | some i =>
    let st := (st.flushSlice mfHistoryRingCap).1
    let st := st.setMeta uuid .retiredTs (some (.number retiredTs))
    (st.closeMod i, true)

end Store

/-! ## Calls -/

/-- A call of `history.c`. -/
inductive HistCall where
  | open_ (dir : CString) (made : Bool)
  | register (uuid name kind driver capture : CString) (e : HistEnv)
  | enqueue (s : Sample)
  | flushSlice (maxRows : ℤ)
  | retire (uuid : CString) (retiredTs : Double)
  | close

/-- What a call leaves. -/
def histStep (st : Store) : HistCall → Store
  | .open_ dir made => (st.open_ dir made).1
  | .register uuid name kind driver capture e => (st.register uuid name kind driver capture e).1
  | .enqueue s => (st.enqueue s).1
  | .flushSlice maxRows => (st.flushSlice maxRows).1
  | .retire uuid retiredTs => (st.retire uuid retiredTs).1
  | .close => st.close

end MoonFlare.History
