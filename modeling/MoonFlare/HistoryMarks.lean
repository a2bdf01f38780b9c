import MoonFlare.CJsonNumbers
import MoonFlare.HistoryPruning

/-!
# Marks read from a file

What `read_marks` asks SQLite for: the greatest or the least value of a column among the
rows of a window. The order in which SQLite goes through the rows of a query is a parameter.
Beside it stands the way of one sample to its module, a part of a slice.
-/

namespace MoonFlare.History

/-- `MF_HISTORY_MARK_EVERY_S`. -/
def mfHistoryMarkEveryS : Double := Double.ofInt 60

/-! ## Values -/

namespace SqlValue

/-- `IS NULL`; not-a-number is kept as `NULL`. -/
def isNull : SqlValue → Bool
  | null => true
  | real .nan => true
  | _ => false

/-- A text. -/
def isText : SqlValue → Bool
  | text _ => true
  | _ => false

/-- `sqlite3_column_double`: a text is read as far as it is a number, and an integer in a
column of numbers is kept as a double. -/
def columnDouble : SqlValue → Double
  | null => Double.zero
  | int z => Double.ofRat z
  | real v => v
  | text s =>
    ((Decimal.strtodDecimal (s.bytes.dropWhile Double.isSpace)).map Prod.fst).getD Double.zero

/-- `!= 0`, which neither `NULL` nor a number that is zero meets. -/
def notZero (v : SqlValue) : Bool := !v.isNull && (v.isText || !v.columnDouble.eq Double.zero)

/-- The place in SQLite's order: numbers come before texts, texts are compared by bytes. -/
def sortKey : SqlValue → Lex (WithBot (WithTop ℚ) ⊕ List ℕ)
  | text s => toLex (Sum.inr (s.bytes.map UInt8.toNat))
  | v => toLex (Sum.inl v.columnDouble.key)

end SqlValue

/-- The value of a row in a column; of two columns of one name the first is written. -/
def Row.value (r : Row) (name : CString) : SqlValue :=
  ((r.values.find? fun v => v.1 = name).map Prod.snd).getD .null

/-! ## Marks -/

namespace Watermark

variable (mk : Watermark)

/-- What is asked for, with nothing found. -/
def cleared : Watermark := { mk with has := false, value := Double.zero, ts := Double.zero }

/-- What is found: a value, or nothing. -/
def shown : Option Double := if mk.has then some mk.value else none

/-- The mark's own value in a row. -/
def valueIn (r : Row) : SqlValue := r.value mk.column.str

/-- The rows that the query of a mark takes in. -/
def counts (now : Double) (r : Row) : Bool :=
  r.ts.ge (now.sub mk.windowS) && decide (r.online = 1) && !(mk.valueIn r).isNull &&
    (!mk.whenCol.str.nonempty || (r.value mk.whenCol.str).notZero)

/-- The row that `MAX` or `MIN` is of. -/
def best (rows : List Row) : Option Row :=
  if mk.high then rows.argmax fun r => (mk.valueIn r).sortKey
  else rows.argmin fun r => (mk.valueIn r).sortKey

/-- What the query of a mark finds, its rows in the order SQLite goes through them. -/
def found (order : List Row → List Row) (rows : List Row) (now : Double) : Option Row :=
  mk.best ((order rows).filter (mk.counts now))

/-- One mark of `read_marks`. -/
def read (order : List Row → List Row) (rows : List Row) (now : Double) : Watermark :=
  match mk.found order rows now with
  | some r => { mk with has := true, value := (mk.valueIn r).columnDouble, ts := r.ts }
  | none => { mk with has := false }

end Watermark

namespace Store

variable (st : Store)

/-- The columns that the file of a module has. -/
def columnsOf (m : HistMod) : List HistCol := (st.files (st.fileId m.uuid.str)).view.columns

/-- The rows of the module in a slot. -/
def rowsAt (i : Fin mfHistoryMaxModules) : List Row := ((st.mods i).map st.rowsOf).getD []

/-- The marks of the module in a slot. -/
def marksAt (i : Fin mfHistoryMaxModules) : List Watermark :=
  ((st.mods i).map HistMod.marks).getD []

/-- `read_marks`, of the module in a slot. -/
def readMarks (order : List Row → List Row) (i : Fin mfHistoryMaxModules) (now : Double) : Store :=
  match st.mods i with
  | some m =>
    st.setMod i (some
      { m with
        marks := m.marks.map fun mk => mk.read order (st.rowsOf m) now
        nextMark := now.add mfHistoryMarkEveryS })
  | none => st

/-- `mf_history_watermark_slice`, with whether a module was read. -/
def watermarkSlice (order : List Row → List Row) (now : Double) : Store × Bool :=
  if !st.isOpen then (st, false)
  else
    match (List.finRange mfHistoryMaxModules).find? fun i =>
      (st.mods i).any fun m => m.captures && !m.marks.isEmpty && !now.lt m.nextMark with
    | some i => (st.readMarks order i now, true)
    | none => (st, false)

/-- A sample of a slice on its way to the module in a slot. -/
def flushTo (i : Fin mfHistoryMaxModules) (s : Sample) : Store :=
  match st.mods i with
  | some m =>
    match m.ins with
    | some ins => (st.begun m).insertSample i m ins s
    | none => st
  | none => st

/-- A sample of a slice goes to the slot of its module. -/
theorem flushOne_flushTo {i : Fin mfHistoryMaxModules}
    (h : st.findMod st.ring.front.uuid.str = some i) :
    st.flushOne = (st.flushTo i st.ring.front).popSample := by
  unfold flushOne
  dsimp only
  rw [h]
  rfl

end Store

end MoonFlare.History
