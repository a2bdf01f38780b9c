import MoonFlare.HistoryMarks

/-!
# The live marks and the file

A mark that is kept up to date as samples are written shows what reading it from the file
would, as long as it has not left its window. Four things break this: a boolean in the
mark's column is written as 0 or 1 and is not compared with the mark; a text that an older
row has in the column is read as the mark; a column that an older spec made for texts keeps
the numbers as texts; and a sample that is older than the reading of the marks brings rows
back into the window.
-/

namespace MoonFlare.History

open Runs CJson

/-! ## Values in their order -/

namespace SqlValue

variable {v w : SqlValue}

theorem sortKey_of_number (h : v.isText = false) :
    v.sortKey = toLex (Sum.inl v.columnDouble.key) := by
  cases v with
  | text s => cases h
  | _ => rfl

theorem columnDouble_ne_nan (hnull : v.isNull = false) (htext : v.isText = false) :
    v.columnDouble ≠ .nan := by
  cases v with
  | null => cases hnull
  | int z => exact Double.ofRat_ne_nan _
  | text s => cases htext
  | real d =>
    rintro hnan
    simp only [columnDouble] at hnan
    rw [hnan] at hnull
    cases hnull

/-- A value in the place of a number is that number. -/
theorem number_of_sortKey {d : Double} (hd : d ≠ .nan) (hnull : v.isNull = false)
    (h : v.sortKey = toLex (Sum.inl d.key)) : v.isText = false ∧ v.columnDouble = d := by
  cases htext : v.isText with
  | true =>
    cases v with
    | text s => cases h
    | _ => cases htext
  | false =>
    rw [sortKey_of_number htext] at h
    exact ⟨rfl, Double.key_inj (columnDouble_ne_nan hnull htext) hd
      (Sum.inl_injective (toLex.injective h))⟩

end SqlValue

/-! ## A mark and its rows -/

namespace Watermark

variable {order : List Row → List Row} {rows : List Row} {now ts : Double} {mk : Watermark}

/-- A value would take the mark's place. -/
def beatenBy (mk : Watermark) (v : SqlValue) : Prop :=
  if mk.high then toLex (Sum.inl mk.value.key) < v.sortKey
  else v.sortKey < toLex (Sum.inl mk.value.key)

instance (v : SqlValue) : Decidable (mk.beatenBy v) := by
  unfold beatenBy
  infer_instance

/-- The mark is what the rows give at a time: nothing when none counts, else the number of
one that counts, and no other beats it. -/
def Holds (mk : Watermark) (rows : List Row) (now : Double) : Prop :=
  if mk.has then
    (∃ r ∈ rows, mk.counts now r = true ∧ r.ts = mk.ts ∧ (mk.valueIn r).isText = false ∧
      (mk.valueIn r).columnDouble = mk.value) ∧
    ∀ r ∈ rows, mk.counts now r = true → ¬ mk.beatenBy (mk.valueIn r)
  else ∀ r ∈ rows, mk.counts now r = false

theorem notNull_of_counts {r : Row} (h : mk.counts now r = true) :
    (mk.valueIn r).isNull = false := by
  simp only [counts, Bool.and_eq_true, Bool.not_eq_true'] at h
  exact h.1.2

/-- What is found counts, and nothing that counts is before it. -/
theorem found_spec (horder : ∀ rows, (order rows).Perm rows) {r : Row}
    (h : mk.found order rows now = some r) :
    r ∈ rows ∧ mk.counts now r = true ∧ ∀ r' ∈ rows, mk.counts now r' = true →
      if mk.high then (mk.valueIn r').sortKey ≤ (mk.valueIn r).sortKey
      else (mk.valueIn r).sortKey ≤ (mk.valueIn r').sortKey := by
  have hcounted : ∀ r', r' ∈ (order rows).filter (mk.counts now) ↔
      r' ∈ rows ∧ mk.counts now r' = true := by
    intro r'
    rw [List.mem_filter, (horder rows).mem_iff]
  unfold found best at h
  split at h
  · next hhigh =>
    have hmem := (hcounted r).mp (List.argmax_mem h)
    refine ⟨hmem.1, hmem.2, fun r' hr' hc => ?_⟩
    rw [if_pos hhigh]
    exact List.le_of_mem_argmax (f := fun r => (mk.valueIn r).sortKey)
      ((hcounted r').mpr ⟨hr', hc⟩) h
  · next hlow =>
    have hmem := (hcounted r).mp (List.argmin_mem h)
    refine ⟨hmem.1, hmem.2, fun r' hr' hc => ?_⟩
    rw [if_neg hlow]
    exact List.le_of_mem_argmin (f := fun r => (mk.valueIn r).sortKey)
      ((hcounted r').mpr ⟨hr', hc⟩) h

/-- Nothing is found when no row counts. -/
theorem found_none (horder : ∀ rows, (order rows).Perm rows) :
    mk.found order rows now = none ↔ ∀ r ∈ rows, mk.counts now r = false := by
  have hempty : mk.found order rows now = none ↔ (order rows).filter (mk.counts now) = [] := by
    unfold found best
    split
    · exact List.argmax_eq_none
    · exact List.argmin_eq_none
  rw [hempty, List.filter_eq_nil_iff]
  simp only [(horder rows).mem_iff, Bool.not_eq_true]

/-- A mark that was read is what the rows give, unless it was read from a text. -/
theorem holds_read (horder : ∀ rows, (order rows).Perm rows)
    (htext : ∀ r ∈ mk.found order rows now, (mk.valueIn r).isText = false) :
    (mk.read order rows now).Holds rows now := by
  cases hfound : mk.found order rows now with
  | none =>
    have hread : mk.read order rows now = { mk with has := false } := by
      unfold read
      rw [hfound]
    rw [hread]
    exact (found_none horder).mp hfound
  | some r =>
    have hread : mk.read order rows now =
        { mk with has := true, value := (mk.valueIn r).columnDouble, ts := r.ts } := by
      unfold read
      rw [hfound]
    obtain ⟨hmem, hcounts, hbest⟩ := found_spec horder hfound
    have hnumber := htext r hfound
    rw [hread]
    refine ⟨⟨r, hmem, hcounts, rfl, hnumber, rfl⟩, fun r' hr' hc hbeaten => ?_⟩
    have hle := hbest r' hr' hc
    simp only [beatenBy, ← SqlValue.sortKey_of_number hnumber] at hbeaten
    split at hbeaten
    · next hhigh =>
      rw [if_pos hhigh] at hle
      exact absurd hbeaten (not_lt.mpr hle)
    · next hlow =>
      rw [if_neg hlow] at hle
      exact absurd hbeaten (not_lt.mpr hle)

/-- A mark that is what the rows give shows what reading it would. -/
theorem shown_read (horder : ∀ rows, (order rows).Perm rows) (h : mk.Holds rows now) :
    (mk.read order rows now).shown = mk.shown := by
  cases hhas : mk.has with
  | false =>
    have hnone : ∀ r ∈ rows, mk.counts now r = false := by
      simpa only [Holds, hhas, Bool.false_eq_true, if_false] using h
    unfold read
    rw [(found_none horder).mpr hnone]
    simp [shown, hhas]
  | true =>
    simp only [Holds, hhas, if_true] at h
    obtain ⟨⟨r, hmem, hcounts, -, hnumber, hvalue⟩, hbest⟩ := h
    cases hfound : mk.found order rows now with
    | none =>
      have hnot := (found_none horder).mp hfound r hmem
      rw [hcounts] at hnot
      cases hnot
    | some q =>
      obtain ⟨hqmem, hqcounts, hqbest⟩ := found_spec horder hfound
      have hle := hqbest r hmem hcounts
      have hnot := hbest q hqmem hqcounts
      have hkey : (mk.valueIn q).sortKey = toLex (Sum.inl mk.value.key) := by
        rw [SqlValue.sortKey_of_number hnumber, hvalue] at hle
        simp only [beatenBy] at hnot
        split at hle
        · next hhigh =>
          rw [if_pos hhigh] at hnot
          exact le_antisymm (not_lt.mp hnot) hle
        · next hlow =>
          rw [if_neg hlow] at hnot
          exact le_antisymm hle (not_lt.mp hnot)
      have hfinite : mk.value ≠ .nan := by
        rw [← hvalue]
        exact SqlValue.columnDouble_ne_nan (notNull_of_counts hcounts) hnumber
      obtain ⟨-, hsame⟩ := SqlValue.number_of_sortKey hfinite (notNull_of_counts hqcounts) hkey
      unfold read
      rw [hfound]
      simp [shown, hhas, hsame]

/-! ## One sample -/

/-- A row that does not count changes nothing. -/
theorem holds_skip {x : Row} (h : mk.Holds rows now) (hx : mk.counts now x = false) :
    mk.Holds (rows ++ [x]) now := by
  have hrows : ∀ r ∈ rows ++ [x], mk.counts now r = true → r ∈ rows := by
    intro r hr hc
    rcases List.mem_append.mp hr with hr | hr
    · exact hr
    · rw [List.mem_singleton.mp hr, hx] at hc
      cases hc
  cases hhas : mk.has with
  | false =>
    simp only [Holds, hhas, Bool.false_eq_true, if_false] at h ⊢
    intro r hr
    cases hc : mk.counts now r with
    | false => rfl
    | true => rw [← hc, h r (hrows r hr hc)]
  | true =>
    simp only [Holds, hhas, if_true] at h ⊢
    obtain ⟨⟨r, hmem, hr⟩, hbest⟩ := h
    exact ⟨⟨r, List.mem_append_left _ hmem, hr⟩, fun q hq hc => hbest q (hrows q hq hc) hc⟩

/-- A row that does not beat the mark changes nothing. -/
theorem holds_kept {x : Row} (h : mk.Holds rows now) (hhas : mk.has = true)
    (hx : ¬ mk.beatenBy (mk.valueIn x)) : mk.Holds (rows ++ [x]) now := by
  simp only [Holds, hhas, if_true] at h ⊢
  obtain ⟨⟨r, hmem, hr⟩, hbest⟩ := h
  refine ⟨⟨r, List.mem_append_left _ hmem, hr⟩, fun q hq hc => ?_⟩
  rcases List.mem_append.mp hq with hq | hq
  · exact hbest q hq hc
  · rw [List.mem_singleton.mp hq]
    exact hx

/-- A row with a number that beats the mark takes its place. -/
theorem holds_taken {x : Row} {v : Double} (h : mk.Holds rows now) (hx : mk.counts now x = true)
    (hv : mk.valueIn x = .real v) (hbeats : mk.has = true → mk.beatenBy (.real v)) :
    { mk with has := true, value := v, ts := x.ts : Watermark }.Holds (rows ++ [x]) now := by
  refine ⟨⟨x, by simp, hx, rfl, ?_, ?_⟩, fun r hr hc hbeaten => ?_⟩
  · exact (congrArg SqlValue.isText hv).trans rfl
  · exact (congrArg SqlValue.columnDouble hv).trans rfl
  have hc' : mk.counts now r = true := hc
  have hbeaten' : if mk.high then toLex (Sum.inl v.key) < (mk.valueIn r).sortKey
      else (mk.valueIn r).sortKey < toLex (Sum.inl v.key) := hbeaten
  rcases List.mem_append.mp hr with hr | hr
  · cases hhas : mk.has with
    | false =>
      simp only [Holds, hhas, Bool.false_eq_true, if_false] at h
      rw [h r hr] at hc'
      cases hc'
    | true =>
      simp only [Holds, hhas, if_true] at h
      have hnot := h.2 r hr hc'
      have hnew := hbeats hhas
      simp only [beatenBy, SqlValue.sortKey, SqlValue.columnDouble] at hnot hnew
      split at hbeaten'
      · next hhigh =>
        rw [if_pos hhigh] at hnot hnew
        exact hnot (hnew.trans hbeaten')
      · next hlow =>
        rw [if_neg hlow] at hnot hnew
        exact hnot (hbeaten'.trans hnew)
  · rw [List.mem_singleton.mp hr, hv] at hbeaten'
    simp only [SqlValue.sortKey, SqlValue.columnDouble, lt_irrefl, ite_self] at hbeaten'

/-- No row that a later or an earlier time brings into the window beats the mark. -/
def NoneReturns (mk : Watermark) (rows : List Row) (now ts : Double) : Prop :=
  ∀ r ∈ rows, mk.counts ts r = true →
    mk.counts now r = true ∨ mk.has = true ∧ ¬ mk.beatenBy (mk.valueIn r)

/-- The mark has not left its window. -/
def InWindow (mk : Watermark) (ts : Double) : Prop :=
  mk.has = true → mk.ts.ge (ts.sub mk.windowS) = true

/-- At another time the mark is still what the rows give. -/
theorem holds_at (h : mk.Holds rows now) (hstay : mk.InWindow ts)
    (hback : mk.NoneReturns rows now ts) : mk.Holds rows ts := by
  cases hhas : mk.has with
  | false =>
    simp only [Holds, hhas, Bool.false_eq_true, if_false] at h ⊢
    intro r hr
    cases hc : mk.counts ts r with
    | false => rfl
    | true =>
      rcases hback r hr hc with hnow | ⟨hhas', -⟩
      · rw [← hnow, h r hr]
      · rw [← hhas', hhas]
  | true =>
    simp only [Holds, hhas, if_true] at h ⊢
    obtain ⟨⟨r, hmem, hcounts, hts, hr⟩, hbest⟩ := h
    refine ⟨⟨r, hmem, ?_, hts, hr⟩, fun q hq hc => ?_⟩
    · simp only [counts, Bool.and_eq_true] at hcounts ⊢
      rw [hts]
      exact ⟨⟨⟨hstay hhas, hcounts.1.1.2⟩, hcounts.1.2⟩, hcounts.2⟩
    · rcases hback q hq hc with hnow | ⟨-, hnot⟩
      · exact hbest q hq hnow
      · exact hnot

/-- A later time brings no row into the window. -/
theorem noneReturns_of_ge (hnow : now.IsTime) (hts : ts.IsTime) (hle : ts.ge now = true)
    (hwindow : mk.windowS ≠ .nan) : mk.NoneReturns rows now ts := by
  intro r _ hc
  simp only [counts, Bool.and_eq_true] at hc ⊢
  have hge := Double.ge_trans hc.1.1.1 (Double.sub_ge_sub hnow hts hwindow hle)
  exact Or.inl ⟨⟨⟨hge, hc.1.1.2⟩, hc.1.2⟩, hc.2⟩

end Watermark

/-! ## Samples and their rows -/

/-- The reading of a sample, parsed. -/
def Sample.parsed (s : Sample) : Option CJson := parse (readingText s.reading.str)

/-- The row of a sample. -/
def Sample.row (cols : List HistCol) (s : Sample) : Row :=
  sampleRow cols cols s.ts s.online s.reading.str []

/-- The row of a sample as a table with these columns keeps it. -/
def Sample.stored (columns cols : List HistCol) (s : Sample) : Row := (s.row cols).keptIn columns

/-- What a numeric column keeps of the item at its path. -/
def keptNumber : Option CJson → SqlValue
  | some (.number v) => .real v
  | some (.bool b) => .int (if b then 1 else 0)
  | _ => .null

variable {columns cols : List HistCol} {name : CString} {hc : HistCol}

theorem numericCol_spec (h : numericCol cols name = some hc) :
    findCol cols name = some hc ∧ hc.isText = false ∧ hc.name.str = name := by
  obtain ⟨hfind, hnumeric⟩ := Option.filter_eq_some_iff.mp h
  refine ⟨hfind, by simpa using hnumeric, ?_⟩
  simpa using List.find?_some hfind

/-- A prepared statement of the declared columns writes each its own value. -/
theorem values_row (s : Sample) :
    (s.row cols).values = cols.map fun c => (c.name.str, bindValue s.parsed [] c) := by
  refine List.ext_getElem (by simp [Sample.row, sampleRow]) fun k hk hk' => ?_
  have hlen : k < cols.length := by simpa using hk'
  simp [Sample.row, sampleRow, Sample.parsed, hlen]

theorem value_row (s : Sample) (h : numericCol cols name = some hc) :
    (s.row cols).value name = keptNumber (markValue cols s.parsed name) := by
  obtain ⟨hfind, hnumeric, -⟩ := numericCol_spec h
  have hfirst : ((cols.map fun c => (c.name.str, bindValue s.parsed [] c)).find?
      fun v => v.1 = name) = some (hc.name.str, bindValue s.parsed [] hc) := by
    rw [List.find?_map]
    have hfind' : cols.find? ((fun v : CString × SqlValue => decide (v.1 = name)) ∘
        fun c => (c.name.str, bindValue s.parsed [] c)) = some hc := hfind
    rw [hfind']
    rfl
  rw [Row.value, values_row, hfirst]
  simp only [markValue, hfind, Option.map_some, Option.getD_some, Option.bind_some, bindValue,
    hnumeric]
  cases hj : atPath s.parsed hc.path.str with
  | none => rfl
  | some j => cases j <;> rfl

/-- A column made for numbers keeps what is not a text. -/
theorem keptAs_number {v : SqlValue} (h : v.isText = false) : v.keptAs false = v := by
  cases v with
  | text s => cases h
  | _ => rfl

/-- The value of a kept row in a column. -/
theorem value_keptIn (columns : List HistCol) (r : Row) (name : CString) :
    (r.keptIn columns).value name = match findCol columns name with
      | some c => (r.value name).keptAs c.isText
      | none => r.value name := by
  have hfind : (r.keptIn columns).values.find? (fun v => v.1 = name) =
      (r.values.find? fun v => v.1 = name).map fun v => (v.1, match findCol columns v.1 with
        | some c => v.2.keptAs c.isText
        | none => v.2) := List.find?_map
  unfold Row.value
  rw [hfind]
  cases hv : r.values.find? fun v => v.1 = name with
  | none =>
    cases findCol columns name with
    | none => rfl
    | some c => rfl
  | some v =>
    have hname : v.1 = name := by simpa using List.find?_some hv
    simp only [Option.map_some, Option.getD_some, hname]

/-- In a column that was made for numbers the row of a sample has the number. -/
theorem value_stored (s : Sample) (h : numericCol cols name = some hc)
    (hmade : ∀ c ∈ findCol columns name, c.isText = false) :
    (s.stored columns cols).value name = keptNumber (markValue cols s.parsed name) := by
  have hnumber : ∀ j, (keptNumber j).isText = false := by
    intro j
    unfold keptNumber
    split <;> rfl
  rw [Sample.stored, value_keptIn, value_row s h]
  split
  · next c hc =>
    rw [hmade c hc]
    exact keptAs_number (hnumber _)
  · rfl

/-- A number found in a reading is not not-a-number. -/
theorem numeric_atPath {root : Option CJson} {path : CString} (hroot : ∀ j ∈ root, j.Numeric) :
    ∀ j ∈ atPath root path, j.Numeric := by
  unfold atPath
  generalize pathKeys path = keys
  induction keys generalizing root with
  | nil => exact hroot
  | cons key keys ih =>
    rw [List.foldl_cons]
    refine ih ?_
    split
    · intro j hj
      obtain ⟨k, hk, hjk⟩ := Option.bind_eq_some_iff.mp hj
      exact (hroot k hk).getCase hjk
    · simp

theorem numeric_markValue (s : Sample) : ∀ j ∈ markValue cols s.parsed name, j.Numeric := by
  intro j hj
  obtain ⟨c, -, hj⟩ := Option.bind_eq_some_iff.mp hj
  exact numeric_atPath (fun r hr => numeric_parse hr) j hj

/-- `when` holds of a reading as it does of what the column keeps. -/
theorem whenHolds_eq (s : Sample) (hname : name.nonempty = true) :
    whenHolds cols s.parsed name = (keptNumber (markValue cols s.parsed name)).notZero := by
  have hnumeric : ∀ j ∈ markValue cols s.parsed name, j.Numeric := numeric_markValue s
  rw [whenHolds, hname, Bool.not_true, Bool.false_or]
  cases hj : markValue cols s.parsed name with
  | none => rfl
  | some j =>
    cases j with
    | number v =>
      have hv : v ≠ .nan := hnumeric _ hj
      cases v with
      | nan => exact absurd rfl hv
      | _ => simp [keptNumber, SqlValue.notZero, SqlValue.isNull, SqlValue.isText,
          SqlValue.columnDouble]
    | bool b =>
      clear hj
      revert b
      decide +kernel
    | _ => rfl

/-- A mark whose columns are declared and numeric, over a window that is not negative. -/
structure Watermark.Declared (cols : List HistCol) (mk : Watermark) : Prop where
  column : ∃ hc, numericCol cols mk.column.str = some hc
  whenCol : mk.whenCol.str.nonempty = true → ∃ hc, numericCol cols mk.whenCol.str = some hc
  window : mk.windowS.ge Double.zero = true

/-- A mark whose columns of the file were made for numbers. -/
structure Watermark.MadeNumeric (columns : List HistCol) (mk : Watermark) : Prop where
  column : ∀ c ∈ findCol columns mk.column.str, c.isText = false
  whenCol : mk.whenCol.str.nonempty = true →
    ∀ c ∈ findCol columns mk.whenCol.str, c.isText = false

namespace Watermark

variable {rows : List Row} {mk : Watermark} {s : Sample}

/-- The row of a sample counts when it is online, has a number and `when` holds. -/
theorem counts_row (hmk : mk.Declared cols) (hmade : mk.MadeNumeric columns)
    (htime : s.ts.IsTime) :
    mk.counts s.ts (s.stored columns cols) = (decide (s.online = 1) &&
      !(keptNumber (markValue cols s.parsed mk.column.str)).isNull &&
      whenHolds cols s.parsed mk.whenCol.str) := by
  obtain ⟨hc, hcol⟩ := hmk.column
  have hts : (s.stored columns cols).ts.ge (s.ts.sub mk.windowS) = true :=
    Double.ge_sub htime hmk.window
  have honline : (s.stored columns cols).online = s.online := rfl
  rw [counts, hts, honline, valueIn, value_stored s hcol hmade.column, Bool.true_and]
  congr 1
  cases hwhen : mk.whenCol.str.nonempty with
  | false => simp [whenHolds, hwhen]
  | true =>
    obtain ⟨wc, hwc⟩ := hmk.whenCol hwhen
    rw [value_stored s hwc (hmade.whenCol hwhen), whenHolds_eq s hwhen]
    rfl

/-- A sample at a mark: only one that is online can move it. -/
def fed (cols : List HistCol) (mk : Watermark) (s : Sample) : Watermark :=
  if s.online ≠ 0 then feedMark cols s.ts s.parsed mk else mk

/-- A boolean in the mark's column of a sample that counts does not beat the mark. -/
def NoLostBoolean (cols : List HistCol) (mk : Watermark) (s : Sample) : Prop :=
  ∀ b, s.online ≠ 0 → markValue cols s.parsed mk.column.str = some (.bool b) →
    whenHolds cols s.parsed mk.whenCol.str = true →
    mk.has = true ∧ ¬ mk.beatenBy (.int (if b then 1 else 0))

variable {ts : Double} {r : Option CJson} {v : Double}

/-- A sample leaves a mark, or gives it a value and a time. -/
theorem feedMark_cases (cols : List HistCol) (ts : Double) (r : Option CJson) (mk : Watermark) :
    feedMark cols ts r mk = mk ∨
      ∃ v, feedMark cols ts r mk = { mk with has := true, value := v, ts := ts } := by
  unfold feedMark
  split
  · next v _ => exact (ite_eq_or_eq _ _ _).symm.imp_right fun h => ⟨v, h⟩
  · exact Or.inl rfl

theorem feedMark_idle (h : whenHolds cols r mk.whenCol.str = false) :
    feedMark cols ts r mk = mk := by
  unfold feedMark
  split
  · simp [h]
  · rfl

theorem feedMark_other (h : ∀ v, markValue cols r mk.column.str ≠ some (.number v)) :
    feedMark cols ts r mk = mk := by
  unfold feedMark
  split
  · next v hv => exact absurd hv (h v)
  · rfl

/-- A number that does not beat a mark in its window leaves it. -/
theorem feedMark_kept (hv : markValue cols r mk.column.str = some (.number v))
    (hstay : mk.ts.ge (ts.sub mk.windowS) = true) (hhas : mk.has = true)
    (hbeats : (if mk.high then mk.value.lt v else v.lt mk.value) = false) :
    feedMark cols ts r mk = mk := by
  have hnan := Double.ne_nan_of_ge hstay
  have hleft := (Double.lt_eq_false_iff hnan.1 hnan.2).mpr hstay
  unfold feedMark
  rw [hv]
  simp [hhas, hleft, hbeats]

/-- A number that beats the mark, or is the first, takes its place. -/
theorem feedMark_taken (hv : markValue cols r mk.column.str = some (.number v))
    (hwhen : whenHolds cols r mk.whenCol.str = true)
    (hbeats : mk.has = true → (if mk.high then mk.value.lt v else v.lt mk.value) = true) :
    feedMark cols ts r mk = { mk with has := true, value := v, ts := ts } := by
  unfold feedMark
  rw [hv]
  cases hhas : mk.has with
  | false => simp [hwhen]
  | true => simp [hwhen, hbeats hhas]

/-- The comparison of `feed_marks` is that of the file. -/
theorem beatenBy_real (hvalue : mk.value ≠ .nan) (hv : v ≠ .nan) :
    mk.beatenBy (.real v) ↔ (if mk.high then mk.value.lt v else v.lt mk.value) = true := by
  simp only [beatenBy, SqlValue.sortKey, SqlValue.columnDouble, Sum.Lex.inl_lt_inl_iff]
  cases mk.high with
  | true => simp only [if_true, Double.lt_iff_key hvalue hv]
  | false => simp only [Bool.false_eq_true, if_false, Double.lt_iff_key hv hvalue]

/-- A mark that is there holds a number. -/
theorem value_ne_nan {now : Double} (h : mk.Holds rows now) (hhas : mk.has = true) :
    mk.value ≠ .nan := by
  simp only [Holds, hhas, if_true] at h
  obtain ⟨⟨r, -, hcounts, -, hnumber, hvalue⟩, -⟩ := h
  rw [← hvalue]
  exact SqlValue.columnDouble_ne_nan (notNull_of_counts hcounts) hnumber

/-- A sample that is written and fed leaves the mark what the rows give. -/
theorem holds_fed (hmk : mk.Declared cols) (hmade : mk.MadeNumeric columns)
    (htime : s.ts.IsTime) (honline : s.online = 0 ∨ s.online = 1) (hstay : mk.InWindow s.ts)
    (hbool : mk.NoLostBoolean cols s) (h : mk.Holds rows s.ts) :
    (mk.fed cols s).Holds (rows ++ [s.stored columns cols]) s.ts := by
  have hcounts := counts_row hmk hmade htime
  obtain ⟨hc, hcol⟩ := hmk.column
  have hvalue : mk.valueIn (s.stored columns cols) =
      keptNumber (markValue cols s.parsed mk.column.str) := value_stored s hcol hmade.column
  rcases honline with hoff | hon
  · have hsame : mk.fed cols s = mk := if_neg (by simp [hoff])
    rw [hsame]
    refine holds_skip h ?_
    rw [hcounts, hoff]
    rfl
  have hfed : mk.fed cols s = feedMark cols s.ts s.parsed mk := if_pos (by simp [hon])
  rw [decide_eq_true hon, Bool.true_and] at hcounts
  rw [hfed]
  cases hwhen : whenHolds cols s.parsed mk.whenCol.str with
  | false =>
    -- The sample does not count, for the file and for the mark.
    rw [hwhen, Bool.and_false] at hcounts
    rw [feedMark_idle hwhen]
    exact holds_skip h hcounts
  | true =>
    rw [hwhen, Bool.and_true] at hcounts
    cases hj : markValue cols s.parsed mk.column.str with
    | none =>
      rw [hj] at hcounts
      rw [feedMark_other (by simp [hj])]
      exact holds_skip h hcounts
    | some j =>
      rw [hj] at hcounts hvalue
      cases j with
      | number v =>
        have hfinite : v ≠ .nan := numeric_markValue s _ hj
        have hcounted : mk.counts s.ts (s.stored columns cols) = true := by
          rw [hcounts]
          cases v with
          | nan => exact absurd rfl hfinite
          | _ => rfl
        by_cases htakes : mk.has = true ∧
            (if mk.high then mk.value.lt v else v.lt mk.value) = false
        · rw [feedMark_kept hj (hstay htakes.1) htakes.1 htakes.2]
          refine holds_kept h htakes.1 ?_
          rw [hvalue, keptNumber, beatenBy_real (value_ne_nan h htakes.1) hfinite, htakes.2]
          exact Bool.false_ne_true
        · have hbeats : mk.has = true →
              (if mk.high then mk.value.lt v else v.lt mk.value) = true := by
            intro hhas
            by_contra hnot
            exact htakes ⟨hhas, by simpa using hnot⟩
          rw [feedMark_taken hj hwhen hbeats]
          refine holds_taken h hcounted hvalue fun hhas => ?_
          exact (beatenBy_real (value_ne_nan h hhas) hfinite).mpr (hbeats hhas)
      | bool b =>
        rw [feedMark_other (by simp [hj])]
        obtain ⟨hhas, hnot⟩ := hbool b (by simp [hon]) hj hwhen
        exact holds_kept h hhas (by rw [hvalue]; exact hnot)
      | _ =>
        rw [feedMark_other (by simp [hj])]
        exact holds_skip h hcounts

end Watermark

end MoonFlare.History
