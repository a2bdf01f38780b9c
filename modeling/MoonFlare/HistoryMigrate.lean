import MoonFlare.History
import MoonFlare.Interruptible

/-!
# Moving the old history

`mf_history_migrate` copies the rows of the old shared file into the modules' own
files and renames it. Here every call of SQLite can fail, with the transaction it is
in or without, and the process can end in front of it. The calls of one statement are
one call.
-/

namespace MoonFlare.History

open Prog

/-! ## Data -/

/-- The calls that can fail. -/
inductive SqlCall where
  /-- Opening the old file, and the query for its modules. -/
  | openOld
  | prepareDevices
  /-- Fetching the next module. -/
  | stepDevices
  /-- Opening a module's file, and its schema. -/
  | openFile
  /-- The columns of `sync_columns`. -/
  | tableInfo
  | columnInfo
  | addColumn
  | backfill
  | prepareInsert
  /-- `set_meta` and `get_meta` of `mf_history_register`. -/
  | describe (key : MetaKey)
  | readCreated
  /-- The capture spec of a module that is there. -/
  | readCapture
  /-- The mark of a module that was migrated. -/
  | readMigrated
  /-- The query for a module's rows. -/
  | prepareRows
  | bindUuid
  | begin
  /-- Fetching the next row, and its text. -/
  | stepRows
  | columnText
  /-- Binding a declared column, and the insertion. -/
  | bindColumn
  | insert
  | rollback
  /-- `set_meta` inside the transaction. -/
  | setCreated
  | setRetired
  | setMigrated
  | commit
  | checkpoint
  /-- Renaming the old file. -/
  | rename
  deriving DecidableEq

/-- A row of the old file. -/
structure OldRow where
  ts : Double
  online : ℤ
  extraJson : CString
  packV : SqlValue
  currentA : SqlValue
  powerW : SqlValue
  soc : SqlValue

/-- A module that the old file lists. -/
structure OldDevice where
  id : CString
  name : CString
  kind : CString
  driver : CString
  createdTs : Double
  /-- Zero without one. -/
  retiredTs : Double

/-- The old file: the modules it lists, and the rows of each by time. -/
structure OldFile where
  devices : List OldDevice
  rows : CString → List OldRow

/-- The history of a process and the old file. Beside them it is recorded what was
stored in the modules' files otherwise. -/
structure Moving where
  store : Store
  /-- The old file is out of the way. -/
  moved : Bool
  others : CString → List (Double × ℤ × CString)

/-- A part of the migration. -/
abbrev MigProg := Prog SqlCall Moving

/-- A change of the history. -/
def onStore (f : Store → Store) : MigProg Unit := update fun s => { s with store := f s.store }

/-! ## Registering with calls that can fail -/

/-- A column that `sync_columns` sees to. -/
def syncColumn (e : HistEnv) (uuid : CString) (c : HistCol) : MigProg Bool := do
  match ← ask .tableInfo with
  | .ok =>
    let there := fun s : Moving => Store.hasColumn (s.store.files (s.store.fileId uuid)).view c
    let info ← ask .columnInfo
    let s ← read
    if info = .ok ∧ there s then return true
    match ← ask .addColumn with
    | .ok =>
      -- The file refuses a column that it has already.
      if there s then return false
      onStore fun st => st.onFile uuid fun f => f.write (Store.extendColumn c)
      match ← ask .backfill with
      | .ok => onStore fun st => st.onFile uuid fun f => f.write (Store.backfillColumn e c)
      | _ => pure ()
      return true
    | _ => return false
  | _ => return false

/-- The columns in turn. -/
def syncAll (e : HistEnv) (uuid : CString) : List HistCol → MigProg Bool
  | [] => pure true
  | c :: cs => do
    match ← syncColumn e uuid c with
    | true => syncAll e uuid cs
    | false => pure false

/-- `sync_columns`. -/
def syncColumns (e : HistEnv) (i : Fin mfHistoryMaxModules) (m : HistMod) : MigProg Bool := do
  match ← syncAll e m.uuid.str m.cols with
  | true =>
    match ← ask .prepareInsert with
    | .ok =>
      onStore fun st => st.setMod i (some { m with ins := some m.cols })
      return true
    | _ =>
      onStore fun st => st.setMod i (some { m with ins := none })
      return false
  | false => return false

/-- `set_meta`. -/
def setMeta (call : SqlCall) (uuid : CString) (key : MetaKey) (value : Option MetaValue) :
    MigProg Unit := do
  match ← ask call with
  | .ok => onStore fun st => st.setMeta uuid key value
  | .fail => pure ()
  | .rolledBack => onStore fun st => st.onFile uuid TxnFile.rollback

/-- `get_meta`. -/
def getMeta (call : SqlCall) (uuid : CString) (key : MetaKey) : MigProg (Option MetaValue) := do
  match ← ask call with
  | .ok => return (← read).store.getMeta uuid key
  | _ => return none

/-- What registering a module writes about it. -/
def describeAll (uuid : CString) : List (MetaKey × Option MetaValue) → MigProg Unit
  | [] => pure ()
  | kv :: kvs => do
    setMeta (.describe kv.1) uuid kv.1 kv.2
    describeAll uuid kvs

/-- `mf_history_register` behind its search for a slot. -/
def registerAt (i : Fin mfHistoryMaxModules) (m : HistMod)
    (uuid name kind driver capture : CString) (e : HistEnv) : MigProg Bool := do
  let m := Store.takeSpec m kind (parseSpec capture)
  onStore fun st => st.setMod i (some m)
  match ← syncColumns e i m with
  | false => return false
  | true =>
    describeAll uuid [(.uuid, some (.text uuid)), (.name, some (.text name)),
      (.kind, some (.text kind)), (.driver, some (.text driver)),
      (.capture, if capture.nonempty then some (.text capture) else none), (.retiredTs, none)]
    onStore fun st => st.setMod i ((st.mods i).map Store.dueNow)
    match ← getMeta .readCreated uuid .createdTs with
    | some _ => pure ()
    | none => setMeta (.describe .createdTs) uuid .createdTs (some (.number e.now))
    return true

/-- `mf_history_register`. -/
def register (uuid name kind driver capture : CString) (e : HistEnv) : MigProg Bool := do
  let s ← read
  if !s.store.isOpen ∨ !safeUuid uuid then return false
  match s.store.findMod uuid with
  | some i =>
    match s.store.mods i with
    | some m => registerAt i m uuid name kind driver capture e
    | none => return false
  | none =>
    match (List.finRange mfHistoryMaxModules).find? fun i => (s.store.mods i).isNone with
    | none => return false
    | some i =>
      match ← ask .openFile with
      | .ok => registerAt i (Store.newMod uuid) uuid name kind driver capture e
      | _ => return false

/-! ## Copying -/

/-- The columns of the query, by which a declared column can be filled. -/
def OldRow.columns (r : OldRow) : List (CString × SqlValue) :=
  [(CString.lit "ts", .real r.ts), (CString.lit "online", .int r.online),
    (CString.lit "extra_json", .text r.extraJson), (CString.lit "pack_v", r.packV),
    (CString.lit "current_a", r.currentA), (CString.lit "power_w", r.powerW),
    (CString.lit "soc", r.soc)]

/-- The values of the declared columns; a binding that fails leaves nothing. -/
def bindColumns (r : Option CJson) (fallback : List (CString × SqlValue)) :
    List HistCol → MigProg (List SqlValue)
  | [] => pure []
  | c :: cs => do
    let v := match ← ask .bindColumn with
      | .ok => bindValue r fallback c
      | _ => .null
    return v :: (← bindColumns r fallback cs)

/-- `insert_sample` of a row of the old file. -/
def insertOld (m : HistMod) (ins : List HistCol) (r : OldRow) (text : CString) : MigProg Bool := do
  let reading := readingText text
  let bound ← bindColumns (CJson.parse reading) r.columns m.cols
  match ← ask .insert with
  | .ok =>
    let row : Row :=
      { ts := r.ts, online := r.online, reading := reading
        values := ins.zipIdx.map fun c => (c.1.name.str, bound.getD c.2 .null) }
    onStore fun st => st.onFile m.uuid.str (Store.addRow row)
    return true
  | .fail => return false
  | .rolledBack =>
    onStore fun st => st.onFile m.uuid.str TxnFile.rollback
    return false

/-- The rows in turn: how many there were and the time of the last, or nothing when an
insertion fails. -/
def copyRows (m : HistMod) (ins : List HistCol) : List OldRow → ℕ → Double →
    MigProg (Option (ℕ × Double))
  | [], rows, last => do
    let _ ← ask .stepRows
    return some (rows, last)
  | r :: rs, rows, last => do
    match ← ask .stepRows with
    | .ok =>
      let text := match ← ask .columnText with
        | .ok => r.extraJson
        | _ => CString.empty
      match ← insertOld m ins r text with
      | true => copyRows m ins rs (rows + 1) r.ts
      | false => return none
    -- An error ends the loop as the last row does.
    | _ => return some (rows, last)

/-- `BEGIN`, `COMMIT` or `ROLLBACK` of a module's file, which the code does not look
at. -/
def endTxn (call : SqlCall) (uuid : CString) (f : TxnFile ModFile → TxnFile ModFile) :
    MigProg Unit := do
  match ← ask call with
  | .ok => onStore fun st => st.onFile uuid f
  | .fail => pure ()
  | .rolledBack => onStore fun st => st.onFile uuid TxnFile.rollback

/-- When a module that is no longer configured was removed, at its last sample if that
is not known. -/
def markRetired (d : OldDevice) (wasRegistered : Bool) (last : Double) : MigProg Unit :=
  if wasRegistered then pure ()
  else
    setMeta .setRetired d.id .retiredTs
      (some (.number (if Double.zero.lt d.retiredTs then d.retiredTs else last)))

/-- The file of such a module is closed, which takes back what is open. -/
def leaveModule (d : OldDevice) (wasRegistered : Bool) (i : Fin mfHistoryMaxModules) :
    MigProg Unit := do
  let _ ← ask .checkpoint
  if wasRegistered then pure ()
  else onStore fun st => (st.onFile d.id TxnFile.rollback).closeMod i

/-- `migrate_one` from the query for the rows on. -/
def copyModule (old : OldFile) (d : OldDevice) (i : Fin mfHistoryMaxModules) (m : HistMod)
    (ins : List HistCol) (wasRegistered : Bool) : MigProg (Option ℕ) := do
  match ← ask .prepareRows with
  | .ok =>
    let rows := match ← ask .bindUuid with
      | .ok => old.rows d.id
      | _ => []
    endTxn .begin d.id TxnFile.begin
    match ← copyRows m ins rows 0 Double.zero with
    | none =>
      endTxn .rollback d.id TxnFile.rollback
      return none
    | some (n, last) =>
      setMeta .setCreated d.id .createdTs (some (.number d.createdTs))
      markRetired d wasRegistered last
      setMeta .setMigrated d.id .migrated (some (.text (CString.lit "1")))
      endTxn .commit d.id TxnFile.commit
      leaveModule d wasRegistered i
      return some n
  | _ => return none

/-- The statement of a module, prepared when there is none. -/
def statement (e : HistEnv) (i : Fin mfHistoryMaxModules) (m : HistMod) :
    MigProg (Option (List HistCol)) :=
  match m.ins with
  | some ins => pure (some ins)
  | none => do
    match ← syncColumns e i m with
    | true => return some m.cols
    | false => return none

/-- A module was migrated on an earlier run. -/
def isMigrated (uuid : CString) : MigProg Bool := do
  let flag ← getMeta .readMigrated uuid .migrated
  return flag = some (.text (CString.lit "1"))

/-- A module that is not configured any more is registered for its migration. -/
def registerUnless (wasRegistered : Bool) (d : OldDevice) (spec : CString) (e : HistEnv) :
    MigProg Bool :=
  if wasRegistered then pure true else register d.id d.name d.kind d.driver spec e

/-- `migrate_one` of a module that is there. -/
def migrateModule (old : OldFile) (e : HistEnv) (d : OldDevice) (i : Fin mfHistoryMaxModules)
    (m : HistMod) (wasRegistered : Bool) : MigProg (Option ℕ) := do
  match ← isMigrated m.uuid.str with
  | true => return some 0
  | false =>
    match ← statement e i m with
    | some ins => copyModule old d i m ins wasRegistered
    | none => return none

/-- `migrate_one`: the rows copied, or nothing on an error. -/
def migrateOne (old : OldFile) (e : HistEnv) (d : OldDevice) (spec : CString) :
    MigProg (Option ℕ) := do
  let before ← read
  let wasRegistered := (before.store.findMod d.id).isSome
  match ← registerUnless wasRegistered d spec e with
  | false => return none
  | true =>
    let s ← read
    match s.store.findMod d.id with
    | none => return none
    | some i =>
      match s.store.mods i with
      | none => return none
      | some m => migrateModule old e d i m wasRegistered

/-- The capture spec a module is migrated with. -/
def specOf (specFor : CString → CString → CString) (d : OldDevice) : MigProg CString := do
  match (← read).store.findMod d.id with
  | some _ =>
    match ← getMeta .readCapture d.id .capture with
    | some (.text spec) => return spec
    | _ => return CString.empty
  | none => return specFor d.kind d.driver

/-- The listed modules in turn: the rows copied, and whether a module failed. -/
def migrateAll (old : OldFile) (specFor : CString → CString → CString) (e : HistEnv) :
    List OldDevice → ℕ → Bool → MigProg (ℕ × Bool)
  | [], total, failed => do
    let _ ← ask .stepDevices
    return (total, failed)
  | d :: ds, total, failed => do
    match ← ask .stepDevices with
    | .ok =>
      let spec ← specOf specFor d
      match ← migrateOne old e d spec with
      | some n => migrateAll old specFor e ds (total + n) failed
      | none => migrateAll old specFor e ds total true
    -- An error ends the loop as the last module does.
    | _ => return (total, failed)

/-- `mf_history_migrate`: the rows copied, or nothing on an error. -/
def migrate (old : OldFile) (specFor : CString → CString → CString) (e : HistEnv) :
    MigProg (Option ℕ) := do
  let s ← read
  if !s.store.isOpen ∨ s.moved then return some 0
  match ← ask .openOld with
  | .ok =>
    match ← ask .prepareDevices with
    | .ok =>
      let (total, failed) ← migrateAll old specFor e old.devices 0 false
      let _ ← ask .checkpoint
      if failed then return none
      match ← ask .rename with
      | .ok =>
        update fun s => { s with moved := true }
        return some total
      | _ => return none
    | _ => return none
  | _ => return none

/-! ## Runs -/

/-- What happens to the history and to the old file. -/
inductive MoveEvent where
  | migrate (specFor : CString → CString → CString) (e : HistEnv) (fates : Fates SqlCall)
  | register (uuid name kind driver capture : CString) (e : HistEnv) (fates : Fates SqlCall)
  /-- A slice's samples of a module are stored. -/
  | store (uuid : CString) (rows : List Row)
  /-- The process ends and the next one opens the history. -/
  | restart

/-- The process ends: no module is there any more, and what was not committed is gone. -/
def ended (s : Moving) : Moving :=
  { s with store := { s.store with
      mods := fun _ => none
      files := fun file => (s.store.files file).rollback } }

/-- A program runs; when it is stopped, the process has ended. -/
def runProg {α : Type} (p : MigProg α) (fates : Fates SqlCall) (s : Moving) : Moving :=
  match p fates (s, 0) with
  | (some _, s, _) => s
  | (none, s, _) => ended s

/-- A slice's samples of a module go into its file. -/
def storeRows (uuid : CString) (rows : List Row) (s : Moving) : Moving :=
  match s.store.findMod uuid with
  | some _ =>
    let addRows := fun f => rows.foldl (fun f row => Store.addRow row f) f
    let stored := rows.map fun row => (row.ts, row.online, row.reading)
    { s with
      store := s.store.onFile uuid fun f => (addRows f.begin).commit
      others := Function.update s.others uuid (s.others uuid ++ stored) }
  | none => s

/-- What an event leaves. -/
def moveStep (old : OldFile) (s : Moving) : MoveEvent → Moving
  | .migrate specFor e fates => runProg (migrate old specFor e) fates s
  | .register uuid name kind driver capture e fates =>
    runProg (register uuid name kind driver capture e) fates s
  | .store uuid rows => storeRows uuid rows s
  | .restart => ended s

end MoonFlare.History
