import MoonFlare.Plugin

/-!
# Captured readings

What a module's capture spec asks for, the values a sample puts into the columns of
its row, and the marks that a sample moves. A spec without a pruning policy captures
nothing.
-/

namespace MoonFlare.History

open CJson

/-! ## Numbers -/

/-- `a * b`. -/
def times : Double → Double → Double
  | .nan, _ => .nan
  | _, .nan => .nan
  | .inf m, .inf n => .inf (m != n)
  | .inf m, .fin b => if b.val = 0 then .nan else .inf (m != decide (b.val < 0))
  | .fin a, .inf n => if a.val = 0 then .nan else .inf (n != decide (a.val < 0))
  | .fin a, .fin b => Double.ofRat (a.val * b.val)

/-! ## Specs -/

/-- `MF_HISTORY_MAX_COLS`. -/
def mfHistoryMaxCols : ℕ := 16

/-- `MF_HISTORY_MAX_MARKS`. -/
def mfHistoryMaxMarks : ℕ := 4

/-- `hist_col_t`. -/
structure HistCol where
  name : CBuf 32
  path : CBuf 64
  isText : Bool
  deriving DecidableEq

/-- `mf_watermark_t`: what is asked for and what was found. -/
structure Watermark where
  column : CBuf 32
  /-- Empty, or a column that must not be zero. -/
  whenCol : CBuf 32
  high : Bool
  windowS : Double
  /-- The value and its time are those of a sample. -/
  has : Bool
  value : Double
  ts : Double
  deriving DecidableEq

/-- A small letter, a digit or an underscore. -/
def isNameByte (b : UInt8) : Bool :=
  (97 ≤ b && b ≤ 122) || (48 ≤ b && b ≤ 57) || b == 95

/-- `safe_name`. -/
def safeName (s : CString) (max : ℕ) : Bool :=
  s.nonempty && decide (s.length < max) && s.bytes.all isNameByte

/-- A hexadecimal digit or a hyphen. -/
def isUuidByte (b : UInt8) : Bool :=
  (48 ≤ b && b ≤ 57) || (97 ≤ b && b ≤ 102) || (65 ≤ b && b ≤ 70) || b == 45

/-- `safe_uuid`. -/
def safeUuid (s : CString) : Bool :=
  s.nonempty && decide (s.length < 40) && s.bytes.all isUuidByte

/-- `find_col`. -/
def findCol (cols : List HistCol) (name : CString) : Option HistCol :=
  cols.find? fun c => c.name.str = name

/-- The columns every file has. -/
def ownColumns : List CString :=
  [CString.lit "id", CString.lit "ts", CString.lit "online", CString.lit "reading"]

/-- The column that a member of a spec's `columns` declares. -/
def columnOf (name : CString) (c : CJson) : Option HistCol :=
  let place := match c with
    | .string p => some (p, false)
    | .object _ =>
      match getCase? (some c) "path" with
      | some (.string p) =>
        some (p, decide ((getCase? (some c) "type").bind string? = some (CString.lit "text")))
      | _ => none
    | _ => none
  match place with
  | some (path, isText) =>
    if safeName name 32 ∧ name ∉ ownColumns ∧ path.nonempty ∧ path.length < 64 then
      some ⟨CBuf.copy 32 name, CBuf.copy 64 path, isText⟩
    else none
  | none => none

/-- The declared columns, as many as there is room for. -/
def parseColumns (cols : Option CJson) : List HistCol :=
  (((cols.map members).getD []).filterMap fun m => columnOf m.1 m.2).take mfHistoryMaxCols

/-- What `cJSON_ArrayForEach` goes through. -/
def children : Option CJson → List CJson
  | some (.array xs) => xs
  | some (.object ms) => ms.map Prod.snd
  | _ => []

/-- A declared column that is numeric. -/
def numericCol (cols : List HistCol) (name : CString) : Option HistCol :=
  (findCol cols name).filter fun c => !c.isText

/-- The mark that one of a spec's `watermarks` asks for. -/
def markOf (cols : List HistCol) (w : CJson) : Option Watermark := do
  let col ← (getCase? (some w) "column").bind string?
  let kind ← (getCase? (some w) "kind").bind string?
  let hc ← numericCol cols col
  if kind ≠ CString.lit "high" ∧ kind ≠ CString.lit "low" then none
  else
    let whenCol ← match (getCase? (some w) "when").bind string? with
      | some name => (numericCol cols name).map fun wc => wc.name
      | none => some (CBuf.zero 32)
    let hours ← match getCase? (some w) "window_h" with
      | some (.number h) => if Double.zero.ge h then none else some h
      | some _ => none
      | none => some (Double.ofInt 24)
    some
      { column := hc.name, whenCol := whenCol, high := kind = CString.lit "high"
        windowS := times hours (Double.ofInt 3600), has := false, value := Double.zero
        ts := Double.zero }

/-- `parse_marks`. -/
def parseMarks (cols : List HistCol) (list : Option CJson) : List Watermark :=
  ((children list).filterMap (markOf cols)).take mfHistoryMaxMarks

/-- What `parse_spec` fills in. -/
structure HistSpec where
  cols : List HistCol
  graph : CBuf 32
  marks : List Watermark
  keepDefault : Double
  deriving DecidableEq

/-- `parse_spec`: nothing when the module does not capture. -/
def parseSpec (spec : CString) : Option HistSpec :=
  let s := if spec.nonempty then parse spec else none
  match s.filter isObject, (getCase? s "retention_days").bind number? with
  | some _, some keep =>
    if keep.lt Double.zero then none
    else
      let cols := parseColumns (getCase? s "columns")
      some
        { cols := cols, keepDefault := keep
          graph := match (getCase? s "graph").bind string? with
            | some g => if safeName g 32 then CBuf.copy 32 g else CBuf.zero 32
            | none => CBuf.zero 32
          marks := parseMarks cols (getCase? s "watermarks") }
  | _, _ => none

/-! ## Readings -/

/-- The keys of a dotted path; a dot at the end adds none. -/
def pathKeys (path : CString) : List Bytes :=
  let keys := path.bytes.splitOn 46
  if keys.getLast? = some [] then keys.dropLast else keys

/-- `at_path`. -/
def atPath (root : Option CJson) (path : CString) : Option CJson :=
  (pathKeys path).foldl (fun cur key =>
    if key.length < 64 then cur.bind fun j => j.getCase (CString.ofBytes key) else none) root

/-- A value in a file. -/
inductive SqlValue where
  | null
  | int (z : ℤ)
  | real (v : Double)
  | text (s : CString)
  deriving DecidableEq

/-- A double as SQLite turns it into a text, `%!.15g`: a point is always written. -/
def realText : Double → CString
  | .nan => CString.empty
  | .inf neg => CString.lit (if neg then "-Inf" else "Inf")
  | .fin d =>
    let t := Decimal.ofG 15 |d.val|
    CString.ofBytes (Decimal.signedText (decide (d.val < 0))
      { t with frac := if t.frac = [] then Decimal.digits 1 0 else t.frac })

/-- The number that a text is, blanks around it aside. -/
def textNumber (s : CString) : Option Double :=
  ((Decimal.strtodDecimal (s.bytes.dropWhile Double.isSpace)).filter fun t =>
    t.2.all Double.isSpace).map Prod.fst

/-- What a column of a type keeps of a value: one of texts a number as its text, one of
numbers a text that is a number as that number. -/
def SqlValue.keptAs (isText : Bool) : SqlValue → SqlValue
  | null => null
  | int z => if isText then text (intText z) else int z
  | real v => if isText then (if v = .nan then null else text (realText v)) else real v
  | text s => if isText then text s else ((textNumber s).map real).getD (text s)

/-- A row of a file's samples. -/
structure Row where
  ts : Double
  online : ℤ
  reading : CString
  /-- The values of the declared columns. -/
  values : List (CString × SqlValue)
  deriving DecidableEq

/-- A row as a table with these columns keeps it. A column has the type it was made with,
whatever a later spec declares. -/
def Row.keptIn (columns : List HistCol) (row : Row) : Row :=
  { row with values := row.values.map fun v =>
      (v.1, match findCol columns v.1 with
        | some c => v.2.keptAs c.isText
        | none => v.2) }

/-- The text kept as the reading. -/
def readingText (reading : CString) : CString :=
  if reading.nonempty then reading else CString.lit "\x7b\x7d"

/-- What the row of the old table has in a column of that name. -/
def fallbackValue (fallback : List (CString × SqlValue)) (name : CString) : SqlValue :=
  ((fallback.filter fun v => v.1 = name ∧ v.2 ≠ .null).getLast?.map Prod.snd).getD .null

/-- What a reading binds for a column; a column it does not have takes the value of
the old table's row. -/
def bindValue (r : Option CJson) (fallback : List (CString × SqlValue)) (c : HistCol) : SqlValue :=
  match c.isText, atPath r c.path.str with
  | true, some (.string s) => .text s
  | false, some (.number v) => .real v
  | false, some (.bool b) => .int (if b then 1 else 0)
  | _, _ => fallbackValue fallback c.name.str

/-- The row that `insert_sample` writes: the statement names the columns it was
prepared for, the values are those of the columns that are declared now. -/
def sampleRow (ins cols : List HistCol) (ts : Double) (online : ℤ) (reading : CString)
    (fallback : List (CString × SqlValue)) : Row :=
  let bound := cols.map (bindValue (parse (readingText reading)) fallback)
  { ts := ts, online := online, reading := readingText reading
    values := ins.zipIdx.map fun c => (c.1.name.str, bound.getD c.2 .null) }

/-- A number that a mark can take, or counts as not zero. -/
def markValue (cols : List HistCol) (r : Option CJson) (name : CString) : Option CJson :=
  (findCol cols name).bind fun c => atPath r c.path.str

/-- `when` lets a sample count. -/
def whenHolds (cols : List HistCol) (r : Option CJson) (name : CString) : Bool :=
  !name.nonempty ||
    match markValue cols r name with
    | some (.bool b) => b
    | some (.number v) => !v.eq Double.zero
    | _ => false

/-- A sample at one mark. -/
def feedMark (cols : List HistCol) (ts : Double) (r : Option CJson) (mk : Watermark) : Watermark :=
  match markValue cols r mk.column.str with
  | some (.number v) =>
    if whenHolds cols r mk.whenCol.str ∧ (!mk.has ∨ mk.ts.lt (ts.sub mk.windowS) ∨
        (if mk.high then mk.value.lt v else v.lt mk.value)) then
      { mk with has := true, value := v, ts := ts }
    else mk
  | _ => mk

/-- `feed_marks`. -/
def feedMarks (cols : List HistCol) (marks : List Watermark) (ts : Double) (r : Option CJson) :
    List Watermark := marks.map (feedMark cols ts r)

end MoonFlare.History
