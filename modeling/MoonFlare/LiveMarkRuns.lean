import MoonFlare.LiveMarks

/-!
# Live marks over whole runs

From the reading of a module's marks on, samples are flushed to it one after another. Each
mark that a capture spec can ask for stays what the rows of the file give.
-/

namespace MoonFlare.History

open Runs CJson

/-! ## The marks of a spec -/

theorem times_ge_zero {a : Double} (h : a.ge Double.zero = true) :
    (times a (Double.ofInt 3600)).ge Double.zero = true := by
  have hzero : Double.zero ≠ .nan := (Double.ne_nan_of_ge h).2
  cases a with
  | nan => cases h
  | inf m =>
    cases m with
    | true => cases h
    | false => decide +kernel
  | fin a =>
    have hle : (0 : ℚ) ≤ a.val := by
      have hkey := (Double.ge_iff_key (by simp) hzero).mp h
      exact WithTop.coe_le_coe.mp (WithBot.coe_le_coe.mp hkey)
    have hzeroRat : Double.ofRat 0 = Double.zero := by
      have hint := Double.ofRat_intCast 0
      simpa [Double.ofInt, Double.zero] using hint
    have hprod : times (.fin a) (Double.ofInt 3600) =
        Double.ofRat (a.val * ((3600 : Int32).toInt : ℚ)) := rfl
    rw [hprod, ← hzeroRat, Double.ge_iff_key (Double.ofRat_ne_nan _) (Double.ofRat_ne_nan _)]
    refine Double.ofRat_key_mono (mul_nonneg hle ?_)
    exact_mod_cast (by decide : (0 : ℤ) ≤ (3600 : Int32).toInt)

theorem ge_of_not_ge {a b : Double} (ha : a ≠ .nan) (hb : b ≠ .nan) (h : ¬ a.ge b = true) :
    b.ge a = true := by
  rw [Double.ge_iff_key ha hb, not_le] at h
  exact (Double.ge_iff_key hb ha).mpr h.le

/-- The column that the `when` of a mark names, empty without one. -/
def whenColOf (cols : List HistCol) (w : CJson) : Option (CBuf 32) :=
  match (getCase? (some w) "when").bind string? with
  | some name => (numericCol cols name).map fun wc => wc.name
  | none => some (CBuf.zero 32)

/-- The hours of a mark's window. -/
def hoursOf (w : CJson) : Option Double :=
  match getCase? (some w) "window_h" with
  | some (.number h) => if Double.zero.ge h then none else some h
  | some _ => none
  | none => some (Double.ofInt 24)

/-- The steps of `markOf`: the columns are looked up, then the window is read. -/
theorem markOf_eq (cols : List HistCol) (w : CJson) :
    markOf cols w =
      ((getCase? (some w) "column").bind string?).bind fun col =>
        ((getCase? (some w) "kind").bind string?).bind fun kind =>
          (numericCol cols col).bind fun hc =>
            if kind ≠ CString.lit "high" ∧ kind ≠ CString.lit "low" then none
            else (whenColOf cols w).bind fun whenCol => (hoursOf w).map fun hours =>
              { column := hc.name, whenCol := whenCol, high := kind = CString.lit "high"
                windowS := times hours (Double.ofInt 3600), has := false, value := Double.zero
                ts := Double.zero } := by
  unfold markOf whenColOf hoursOf
  generalize (getCase? (some w) "when").bind string? = whenName
  generalize getCase? (some w) "window_h" = win
  simp only [Option.bind_eq_bind]
  refine congrArg _ (funext fun col => congrArg _ (funext fun kind => congrArg _ (funext fun hc => ?_)))
  split
  · rfl
  cases whenName with
  | none =>
    rcases win with _ | _ | b | v | t | xs | ms
    case some.number =>
      cases hneg : Double.zero.ge v <;> simp [hneg]
    all_goals rfl
  | some name =>
    rcases win with _ | _ | b | v | t | xs | ms
    case some.number =>
      cases hneg : Double.zero.ge v <;> simp [hneg]
    all_goals rfl

/-- What a mark that is asked for consists of. -/
theorem markOf_spec {cols : List HistCol} {w : CJson} {mk : Watermark}
    (h : markOf cols w = some mk) :
    ∃ col hc hours, numericCol cols col = some hc ∧ whenColOf cols w = some mk.whenCol ∧
      hoursOf w = some hours ∧ mk.column = hc.name ∧
      mk.windowS = times hours (Double.ofInt 3600) ∧ mk.cleared = mk := by
  rw [markOf_eq] at h
  obtain ⟨col, -, h⟩ := Option.bind_eq_some_iff.mp h
  obtain ⟨kind, -, h⟩ := Option.bind_eq_some_iff.mp h
  obtain ⟨hc, hcol, h⟩ := Option.bind_eq_some_iff.mp h
  split at h
  · cases h
  obtain ⟨whenCol, hwhen, h⟩ := Option.bind_eq_some_iff.mp h
  obtain ⟨hours, hhours, rfl⟩ := Option.map_eq_some_iff.mp h
  exact ⟨col, hc, hours, hcol, hwhen, hhours, rfl, rfl, rfl⟩

/-- A numeric column is found under its own name. -/
theorem numericCol_self {cols : List HistCol} {col : CString} {hc : HistCol}
    (h : numericCol cols col = some hc) : numericCol cols hc.name.str = some hc := by
  rw [(numericCol_spec h).2.2]
  exact h

/-- A mark that a list asks for is over declared numeric columns. -/
theorem declared_markOf {cols : List HistCol} {w : CJson} {mk : Watermark} (hw : w.Numeric)
    (h : markOf cols w = some mk) : mk.Declared cols ∧ mk.cleared = mk := by
  obtain ⟨col, hc, hours, hcol, hwhen, hhours, hcolumn, hwindow, hcleared⟩ := markOf_spec h
  refine ⟨⟨⟨hc, ?_⟩, fun hname => ?_, ?_⟩, hcleared⟩
  · rw [hcolumn]
    exact numericCol_self hcol
  · unfold whenColOf at hwhen
    split at hwhen
    · obtain ⟨wc, hwc, hsame⟩ := Option.map_eq_some_iff.mp hwhen
      rw [← hsame]
      exact ⟨wc, numericCol_self hwc⟩
    · rw [← Option.some.inj hwhen] at hname
      exact absurd hname (by decide +kernel)
  · rw [hwindow]
    refine times_ge_zero ?_
    unfold hoursOf at hhours
    split at hhours
    · next hv =>
      split at hhours
      · cases hhours
      · next hpos =>
        cases hhours
        have hnumeric : (CJson.number hours).Numeric := hw.getCase hv
        exact ge_of_not_ge (by decide +kernel) hnumeric hpos
    · cases hhours
    · cases hhours
      decide +kernel

/-- What a list of a numeric item goes through is numeric. -/
theorem numeric_children {list : Option CJson} (h : ∀ j ∈ list, j.Numeric) :
    ∀ w ∈ children list, w.Numeric := by
  intro w hw
  cases list with
  | none => cases hw
  | some j =>
    have hj := h j rfl
    cases j with
    | array xs => exact allNumbersItems_iff.mp hj w hw
    | object ms =>
      obtain ⟨m, hm, rfl⟩ := List.mem_map.mp hw
      exact allNumbersMembers_iff.mp hj m hm
    | _ => cases hw

/-- Every mark of a capture spec is over declared numeric columns and has found nothing. -/
theorem marks_parseSpec {capture : CString} {spec : HistSpec}
    (h : parseSpec capture = some spec) {mk : Watermark} (hmk : mk ∈ spec.marks) :
    mk.Declared spec.cols ∧ mk.cleared = mk := by
  unfold parseSpec at h
  dsimp only at h
  split at h
  · next root keep hroot hkeep =>
    split at h
    · cases h
    · cases h
      obtain ⟨w, hw, hmark⟩ := List.mem_filterMap.mp (List.mem_of_mem_take hmk)
      refine declared_markOf (numeric_children (fun j hj => ?_) w hw) hmark
      obtain ⟨root', hroot', hj⟩ := Option.bind_eq_some_iff.mp hj
      split at hroot'
      · exact (numeric_parse hroot').getCase hj
      · cases hroot'
  · cases h

/-! ## Runs of samples -/

/-- Samples as the daemon takes them: each is online or not, and the times do not go back. -/
structure Orderly (samples : List Sample) : Prop where
  times : ∀ s ∈ samples, s.ts.IsTime
  online : ∀ s ∈ samples, s.online = 0 ∨ s.online = 1
  order : samples.Pairwise fun a b => b.ts.ge a.ts = true

theorem Orderly.tail {s : Sample} {samples : List Sample} (h : Orderly (s :: samples)) :
    Orderly samples :=
  ⟨fun a ha => h.times a (List.mem_cons_of_mem _ ha),
    fun a ha => h.online a (List.mem_cons_of_mem _ ha), (List.pairwise_cons.mp h.order).2⟩

namespace Watermark

variable {columns cols : List HistCol} {mk : Watermark} {rows : List Row} {now : Double}

/-- What is asked for stays as samples are fed. -/
theorem fed_same (cols : List HistCol) (mk : Watermark) (s : Sample) :
    (mk.fed cols s).column = mk.column ∧ (mk.fed cols s).whenCol = mk.whenCol ∧
      (mk.fed cols s).windowS = mk.windowS ∧ (mk.fed cols s).cleared = mk.cleared := by
  unfold fed
  split
  · rcases feedMark_cases cols s.ts s.parsed mk with hkept | ⟨v, htaken⟩
    · rw [hkept]
      exact ⟨rfl, rfl, rfl, rfl⟩
    · rw [htaken]
      exact ⟨rfl, rfl, rfl, rfl⟩
  · exact ⟨rfl, rfl, rfl, rfl⟩

theorem Declared.fed (h : mk.Declared cols) (s : Sample) : (mk.fed cols s).Declared cols := by
  obtain ⟨hcolumn, hwhen, hwindow, -⟩ := fed_same cols mk s
  exact ⟨hcolumn ▸ h.column, hwhen ▸ h.whenCol, hwindow ▸ h.window⟩

theorem MadeNumeric.fed (h : mk.MadeNumeric columns) (cols : List HistCol) (s : Sample) :
    (mk.fed cols s).MadeNumeric columns := by
  obtain ⟨hcolumn, hwhen, -, -⟩ := fed_same cols mk s
  exact ⟨hcolumn ▸ h.column, hwhen ▸ h.whenCol⟩

/-- Behind a run of samples a mark is what the rows give at the time of the last. -/
theorem holds_run {samples : List Sample} : ∀ {s : Sample} {mk : Watermark} {rows : List Row}
    {now : Double}, mk.Declared cols → mk.MadeNumeric columns → Orderly (s :: samples) →
    mk.Holds rows now → mk.NoneReturns rows now s.ts →
    Along (Watermark.fed cols) (fun mk s => mk.InWindow s.ts) mk (s :: samples) →
    Along (Watermark.fed cols) (NoLostBoolean cols) mk (s :: samples) →
    (run (Watermark.fed cols) mk (s :: samples)).Holds
      (rows ++ (s :: samples).map (Sample.stored columns cols))
      ((s :: samples).getLast (List.cons_ne_nil _ _)).ts := by
  induction samples with
  | nil =>
    intro s mk rows now hmk hmade horderly h hback hstay hbool
    have htime := horderly.times s (by simp)
    have honline := horderly.online s (by simp)
    exact holds_fed hmk hmade htime honline hstay.1 hbool.1 (holds_at h hstay.1 hback)
  | cons next samples ih =>
    intro s mk rows now hmk hmade horderly h hback hstay hbool
    have htime := horderly.times s (by simp)
    have honline := horderly.online s (by simp)
    have hstep := holds_fed hmk hmade htime honline hstay.1 hbool.1 (holds_at h hstay.1 hback)
    have hnext := horderly.times next (by simp)
    have hle : next.ts.ge s.ts = true :=
      (List.pairwise_cons.mp horderly.order).1 next (by simp)
    have hwindow : (mk.fed cols s).windowS ≠ .nan := (Double.ne_nan_of_ge (hmk.fed s).window).1
    have hrest := ih (hmk.fed s) (hmade.fed cols s) horderly.tail hstep
      (noneReturns_of_ge htime hnext hle hwindow) hstay.2 hbool.2
    rw [List.append_assoc] at hrest
    exact hrest

end Watermark

/-! ## The store -/

/-- A module registered with a capture spec, whatever its marks have found. -/
structure HistMod.Keeps (m : HistMod) (spec : HistSpec) : Prop where
  cols : m.cols = spec.cols
  ins : m.ins = some spec.cols
  marks : m.marks.map Watermark.cleared = spec.marks

/-- A registration makes its module keep its spec. -/
theorem keeps_registerAt {capture : CString} {spec : HistSpec}
    (h : parseSpec capture = some spec) (st : Store) (i : Fin mfHistoryMaxModules) (m : HistMod)
    (uuid name kind driver : CString) (e : HistEnv) :
    ∃ m', (st.registerAt i m uuid name kind driver capture e).mods i = some m' ∧ m'.Keeps spec := by
  have hcleared : spec.marks.map Watermark.cleared = spec.marks := by
    refine (List.map_congr_left fun mk hmk => ?_).trans (List.map_id _)
    exact (marks_parseSpec h hmk).2
  unfold Store.registerAt
  rw [(describe_same _ _ _ _ _ _ _).1]
  refine ⟨_, Store.mods_setMod_self _ _ _, ?_⟩
  rw [h]
  exact ⟨rfl, rfl, hcleared⟩

namespace Store

variable {st : Store} {i : Fin mfHistoryMaxModules} {m : HistMod} {spec : HistSpec}

/-- Samples of one module are flushed to its slot. -/
def flushAll (i : Fin mfHistoryMaxModules) : Store → List Sample → Store :=
  run fun st s => st.flushTo i s

/-- A sample adds its row and is fed to the marks. -/
theorem flushTo_spec (hmod : st.mods i = some m) (hkeeps : m.Keeps spec) (s : Sample) :
    (st.flushTo i s).mods i = some (fedMod m s) ∧
      (st.flushTo i s).rowsOf (fedMod m s) =
        st.rowsOf m ++ [s.stored (st.columnsOf m) spec.cols] ∧
      (st.flushTo i s).columnsOf (fedMod m s) = st.columnsOf m ∧
      (fedMod m s).marks = m.marks.map (fun mk => mk.fed spec.cols s) ∧
      (fedMod m s).Keeps spec := by
  have hmarks : (fedMod m s).marks = m.marks.map fun mk => mk.fed spec.cols s := by
    unfold fedMod Watermark.fed
    rw [← hkeeps.cols]
    split
    · rfl
    · exact (List.map_id _).symm
  have hflush : st.flushTo i s = (st.begun m).insertSample i m spec.cols s := by
    unfold flushTo
    rw [hmod]
    simp only [hkeeps.ins]
  rw [hflush]
  have hfile : ((st.begun m).files (st.fileId m.uuid.str)).view =
      (st.files (st.fileId m.uuid.str)).view := by
    unfold begun
    split
    · rfl
    · simp [onFile]
  have hid := fileId_begun st m m.uuid.str
  have hrow : sampleRow spec.cols m.cols s.ts s.online s.reading.str [] = s.row spec.cols := by
    rw [hkeeps.cols]
    rfl
  have hview : (((st.begun m).onFile m.uuid.str (addRow (s.row spec.cols))).files
      ((st.begun m).fileId m.uuid.str)).view =
      { (st.files (st.fileId m.uuid.str)).view with
        samples := st.rowsOf m ++ [s.stored (st.columnsOf m) spec.cols] } := by
    simp only [onFile, Function.update_self, addRow, TxnFile.view_write, hid, hfile]
    rfl
  refine ⟨mods_setMod_self _ _ _, ?_, ?_, hmarks, hkeeps.cols, hkeeps.ins, ?_⟩
  · simp only [rowsOf, insertSample, hrow]
    exact congrArg ModFile.samples hview
  · have hcolumns := congrArg ModFile.columns hview
    simp only [columnsOf, insertSample, hrow]
    exact hcolumns
  · rw [hmarks, List.map_map, ← hkeeps.marks]
    exact List.map_congr_left fun mk _ => (Watermark.fed_same spec.cols mk s).2.2.2

/-- The rows and the marks behind a run of samples. -/
theorem flushAll_spec {samples : List Sample} : ∀ {st : Store} {m : HistMod},
    st.mods i = some m → m.Keeps spec →
    ∃ m', (st.flushAll i samples).mods i = some m' ∧
      (st.flushAll i samples).rowsOf m' =
        st.rowsOf m ++ samples.map (Sample.stored (st.columnsOf m) spec.cols) ∧
      m'.marks = m.marks.map fun mk => run (Watermark.fed spec.cols) mk samples := by
  induction samples with
  | nil =>
    intro st m hmod _
    exact ⟨m, hmod, (List.append_nil _).symm, (List.map_id _).symm⟩
  | cons s samples ih =>
    intro st m hmod hkeeps
    obtain ⟨hnext, hrows, hcolumns, hmarks, hkeeps'⟩ := flushTo_spec hmod hkeeps s
    obtain ⟨m', hmod', hrows', hmarks'⟩ := ih hnext hkeeps'
    refine ⟨m', hmod', ?_, ?_⟩
    · rw [hrows, hcolumns, List.append_assoc] at hrows'
      exact hrows'
    · rw [hmarks', hmarks, List.map_map]
      rfl

/-- Reading the marks changes nothing else of a module. -/
theorem readMarks_spec {order : List Row → List Row} (hmod : st.mods i = some m)
    (hkeeps : m.Keeps spec) (now : Double) :
    ∃ m', (st.readMarks order i now).mods i = some m' ∧ m'.Keeps spec ∧
      (st.readMarks order i now).rowsOf m' = st.rowsOf m ∧
      (st.readMarks order i now).columnsOf m' = st.columnsOf m ∧
      m'.marks = m.marks.map fun mk => mk.read order (st.rowsOf m) now := by
  unfold readMarks
  rw [hmod]
  refine ⟨_, mods_setMod_self _ _ _, ⟨hkeeps.cols, hkeeps.ins, ?_⟩, rfl, rfl, rfl⟩
  rw [List.map_map, ← hkeeps.marks]
  refine List.map_congr_left fun mk _ => ?_
  simp only [Function.comp_apply, Watermark.read]
  split <;> rfl

end Store

/-- A spec of one column and the highest value of it. -/
def highCapture : CString :=
  CString.lit ("\x7b\"retention_days\":0,\"columns\":\x7b\"p\":\"p\"\x7d," ++
    "\"watermarks\":[\x7b\"column\":\"p\",\"kind\":\"high\"\x7d]\x7d")

/-- The mark of that spec. -/
def highMark : Watermark :=
  { column := CBuf.copy 32 (CString.lit "p"), whenCol := CBuf.zero 32, high := true
    windowS := times (Double.ofInt 24) (Double.ofInt 3600), has := false, value := Double.zero
    ts := Double.zero }

/-- What that spec says. -/
def highSpec : HistSpec :=
  { cols := [⟨CBuf.copy 32 (CString.lit "p"), CBuf.copy 64 (CString.lit "p"), false⟩]
    graph := CBuf.zero 32, keepDefault := Double.zero
    marks := [highMark] }

/-- A module of that spec that has found nothing. -/
def highMod : HistMod :=
  { Store.newMod (CString.lit "a") with
    ins := some highSpec.cols, cols := highSpec.cols, captures := true, marks := highSpec.marks }

/-- A store with that module in the first slot and these rows in its file, whose column was
made for texts or for numbers. -/
def highStore (isText : Bool) (rows : List Row) : Store :=
  { closedStore (fun _ => { ModFile.fresh with
      columns := highSpec.cols.map fun c => { c with isText := isText }, samples := rows }) with
    isOpen := true, mods := fun i => if i = firstPlace then some highMod else none }

/-- An online sample of that module. -/
def highSample (ts : Int32) (reading : String) : Sample :=
  { noSample with
    uuid := CBuf.copy 40 (CString.lit "a"), ts := Double.ofInt ts, online := 1
    reading := CBuf.copy 4096 (CString.lit reading) }

/-- The store behind a reading of the marks and some samples. -/
def highRun (isText : Bool) (rows : List Row) (now : Int32) (samples : List Sample) : Store :=
  ((highStore isText rows).readMarks id firstPlace (Double.ofInt now)).flushAll firstPlace samples

/-- A row of that module's file. -/
def highRow (ts : Int32) (v : SqlValue) : Row :=
  { ts := Double.ofInt ts, online := 1, reading := CString.lit "\x7b\x7d"
    values := [(CString.lit "p", v)] }

/-- What the marks show behind a run, and what reading them at a time would. -/
def highShown (st : Store) (ts : Int32) : List (Option Double × Option Double) :=
  (st.marksAt firstPlace).map fun mk =>
    (mk.shown, (mk.read id (st.rowsAt firstPlace) (Double.ofInt ts)).shown)

end MoonFlare.History
