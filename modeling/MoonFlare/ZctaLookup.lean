import MoonFlare.ZctaConversion

/-!
# Looking a ZIP code up in a converted table

A converted table has a line for each row, short enough for one call of `fgets`, so a lookup
goes from row to row and stops at the first with the code. The table holds every valid row
of the text exactly when no row ends behind its sixteenth field and the guard is not met in
front of the last row.
-/

namespace MoonFlare.Zcta

open Double Decimal

/-! ## Rows of a short line -/

/-- A row of a table: a code that starts with a digit and two coordinates that start with no
white space, on a line of their own. -/
structure Row.Sound (r : Row) : Prop where
  id : r.id.length = 5 ∧ isDigit (r.id.headD 0) = true
  lat : ∃ b ∈ r.lat.head?, isSpace b = false
  lon : ∃ b ∈ r.lon.head?, isSpace b = false
  noTab : 9 ∉ r.id ∧ 9 ∉ r.lat ∧ 9 ∉ r.lon
  noNewline : 10 ∉ r.id ∧ 10 ∉ r.lat ∧ 10 ∉ r.lon
  noNul : 0 ∉ r.id ∧ 0 ∉ r.lat ∧ 0 ∉ r.lon
  length : r.text.length ≤ 95

/-- Lines of at most 90 bytes behind the header, without tabs between bars. -/
structure InDomain (txt : Bytes) : Prop where
  short : ∀ line ∈ dataLines txt, line.length ≤ 90
  noTab : delim txt ≠ 9 → ∀ line ∈ dataLines txt, 9 ∉ line

/-- A line holds neither a line feed nor a zero. -/
theorem mem_dataLines {txt line : Bytes} (h : line ∈ dataLines txt) : 10 ∉ line ∧ 0 ∉ line := by
  have hlines : line ∈ textLines (CString.ofBytes txt).bytes := List.mem_of_mem_drop h
  have hsplit : line ∈ (CString.ofBytes txt).bytes.splitOn 10 := by
    unfold textLines at hlines
    split at hlines
    · exact List.mem_of_mem_dropLast hlines
    · exact hlines
  obtain ⟨hfeed, hmem⟩ := mem_splitOn hsplit
  exact ⟨hfeed, fun hzero => (CString.ofBytes txt).noNul (hmem 0 hzero)⟩

/-- A field that is not blank. -/
theorem mem_fields {line p : Bytes} {d : UInt8} (h : p ∈ fields line d) :
    d ∉ p ∧ (∀ b ∈ p, b ∈ line) ∧ ∃ b ∈ p.head?, isSpace b = false := by
  obtain ⟨hmap, hne⟩ := List.mem_filter.mp h
  obtain ⟨q, hq, rfl⟩ := List.mem_map.mp hmap
  obtain ⟨hdelim, hmem⟩ := mem_splitOn hq
  exact ⟨fun hd => hdelim (trim_subset hd), fun b hb => hmem b (trim_subset hb),
    head_trim (of_decide_eq_true hne)⟩

/-- What a line's fields make is a row of a table. -/
theorem sound_of_rowOf {txt line : Bytes} {f : List Bytes} {r : Row} (h : InDomain txt)
    (hline : line ∈ dataLines txt) (hsub : f.Sublist (fields line (delim txt)))
    (hrow : rowOf f = some r) : r.Sound := by
  obtain ⟨⟨hid, hfive, hdigit⟩, hlat, hlon, hlen⟩ := rowOf_from hrow
  obtain ⟨hfeed, hzero⟩ := mem_dataLines hline
  have hfield : ∀ p ∈ f, (9 ∉ p ∧ 10 ∉ p ∧ 0 ∉ p) ∧ ∃ b ∈ p.head?, isSpace b = false := by
    intro p hp
    obtain ⟨hdelim, hmem, hhead⟩ := mem_fields (hsub.subset hp)
    have htab : 9 ∉ p := by
      intro htab
      rcases eq_or_ne (delim txt) 9 with heq | hne
      · exact hdelim (heq ▸ htab)
      · exact h.noTab hne line hline (hmem 9 htab)
    exact ⟨⟨htab, fun hb => hfeed (hmem 10 hb), fun hb => hzero (hmem 0 hb)⟩, hhead⟩
  have hid := hfield _ hid
  have hlat := hfield _ hlat
  have hlon := hfield _ hlon
  have htotal : total f ≤ line.length + 1 := by
    have hle : total f ≤ total (fields line (delim txt)) :=
      (hsub.map fun p : Bytes => p.length + 1).sum_le_sum fun _ _ => Nat.zero_le _
    exact hle.trans (total_fields_le _ _)
  have hshort := h.short line hline
  exact ⟨⟨hfive, hdigit⟩, hlat.2, hlon.2, ⟨hid.1.1, hlat.1.1, hlon.1.1⟩,
    ⟨hid.1.2.1, hlat.1.2.1, hlon.1.2.1⟩, ⟨hid.1.2.2, hlat.1.2.2, hlon.1.2.2⟩, by omega⟩

theorem validRows_sound {txt : Bytes} (h : InDomain txt) : ∀ r ∈ validRows txt, r.Sound := by
  intro r hr
  obtain ⟨line, hline, hrow⟩ := List.mem_filterMap.mp hr
  exact sound_of_rowOf h hline (List.Sublist.refl _) hrow

theorem codeRows_sound {txt : Bytes} (h : InDomain txt) : ∀ r ∈ codeRows txt, r.Sound := by
  intro r hr
  obtain ⟨line, hline, hrow⟩ := List.mem_filterMap.mp hr
  rw [splitFields_eq] at hrow
  exact sound_of_rowOf h hline (List.take_sublist _ _) hrow

/-! ## From line to line -/

theorem takeWhile_ne {c : UInt8} {l : Bytes} (h : c ∉ l) (rest : Bytes) :
    (l ++ c :: rest).takeWhile (· ≠ c) = l := by
  rw [List.takeWhile_append_of_pos fun b hb => by simpa using fun heq : b = c => h (heq ▸ hb)]
  simp

/-- `fgets` reads a short line and its line feed. -/
theorem fgets_line {l : Bytes} (hfeed : 10 ∉ l) (hlen : l.length < 95) (rest : Bytes) :
    fgets (l ++ 10 :: rest) = (l ++ [10], rest) := by
  have hn : min 95 (l.length + 1) = (l ++ [10]).length := by
    rw [List.length_append, List.length_singleton]
    omega
  have htext : l ++ 10 :: rest = (l ++ [10]) ++ rest := by simp
  unfold fgets
  rw [takeWhile_ne hfeed, hn, htext]
  simp only [List.take_left, List.drop_left]

theorem chunks_lines {ls : List Bytes} (h : ∀ l ∈ ls, 10 ∉ l ∧ l.length < 95) {n : ℕ}
    (hn : ls.length ≤ n) : chunks n (ls.flatMap (· ++ [10])) = ls.map (· ++ [10]) := by
  induction ls generalizing n with
  | nil => cases n <;> rfl
  | cons l ls ih =>
    obtain ⟨m, rfl⟩ : ∃ m, n = m + 1 := ⟨n - 1, by simp at hn; omega⟩
    obtain ⟨⟨hfeed, hlen⟩, hls⟩ := List.forall_mem_cons.mp h
    have htext : (l :: ls).flatMap (· ++ [10]) = l ++ 10 :: ls.flatMap (· ++ [10]) := by simp
    rw [htext, chunks, if_neg (by simp), fgets_line hfeed hlen, List.map_cons,
      ih hls (by simpa using hn)]

/-- A row without its line feed. -/
def Row.line (r : Row) : Bytes := r.id ++ 9 :: (r.lat ++ 9 :: r.lon)

theorem Row.text_eq (r : Row) : r.text = r.line ++ [10] := by simp [Row.text, Row.line]

/-- The year without its line feed. -/
def versionLine (year : Int32) : Bytes := ascii "#moonflare-zcta " ++ (intText year.toInt).bytes

theorem versionLine_fits (year : Int32) :
    10 ∉ versionLine year ∧ (versionLine year).length < 95 := by
  have hmagic : 10 ∉ ascii "#moonflare-zcta " := by
    rw [ascii_ofList]
    decide
  have hlen := length_versionText_le year
  refine ⟨?_, ?_⟩
  · rw [versionLine, List.mem_append, not_or]
    refine ⟨hmagic, fun hmem => ?_⟩
    exact absurd (isNumberByte_of_mem_signedText hmem) (by decide)
  · rw [versionText, List.length_append] at hlen
    rw [versionLine]
    omega

/-- The lines of a table are read one by one. -/
theorem chunks_table (year : Int32) {rows : List Row} (h : ∀ r ∈ rows, r.Sound) :
    chunks (tableText year rows).length (tableText year rows) =
      versionText year :: rows.map Row.text := by
  have htext : tableText year rows =
      (versionLine year :: rows.map Row.line).flatMap (· ++ [10]) := by
    have hrow : Row.text = fun r => r.line ++ [10] := funext Row.text_eq
    simp [tableText, versionText, versionLine, List.flatMap_map, hrow]
  have hlines : ∀ l ∈ versionLine year :: rows.map Row.line, 10 ∉ l ∧ l.length < 95 := by
    rw [List.forall_mem_cons, List.forall_mem_map]
    refine ⟨versionLine_fits year, fun r hr => ⟨?_, ?_⟩⟩
    · have hfeed := (h r hr).noNewline
      simp [Row.line, hfeed]
    · have hlen := (h r hr).length
      rw [Row.text_eq, List.length_append, List.length_singleton] at hlen
      omega
  have hcount : (versionLine year :: rows.map Row.line).length ≤ (tableText year rows).length := by
    rw [htext]
    generalize versionLine year :: rows.map Row.line = ls
    induction ls with
    | nil => exact le_rfl
    | cons l ls ih =>
      simp only [List.flatMap_cons, List.length_append, List.length_cons, List.length_nil]
      omega
  have hchunks := chunks_lines hlines hcount
  rw [← htext] at hchunks
  rw [hchunks, List.map_cons, List.map_map]
  exact congrArg (versionText year :: ·) (List.map_congr_left fun r _ => (r.text_eq).symm)

/-! ## Looking a row up -/

theorem text_bytes {r : Row} (h : r.Sound) : (CString.ofBytes r.text).bytes = r.text := by
  refine CString.bytes_ofBytes ?_
  have hnul := h.noNul
  simp [Row.text, hnul]

/-- The line with the year is none that is looked for. -/
theorem lookupLine_version (zip : CString) (year : Int32) :
    lookupLine zip (CString.ofBytes (versionText year)) = none := by
  have hhead : (CString.ofBytes (versionText year)).bytes.head? = some 35 := by
    have hmagic : ascii "#moonflare-zcta " = 35 :: (ascii "#moonflare-zcta ").tail := rfl
    rw [versionText, hmagic]
    rfl
  exact if_pos (Or.inl hhead)

/-- Another row is passed over. -/
theorem lookupLine_other {zip : CString} {r : Row} (h : r.Sound) (hzip : zip.length = 5)
    (hne : r.id ≠ zip.bytes) : lookupLine zip (CString.ofBytes r.text) = none := by
  refine if_pos (Or.inr (Or.inl ?_))
  rw [CString.startsWith, text_bytes h, Bool.eq_false_iff, ne_eq, List.isPrefixOf_iff_prefix]
  intro hstart
  have hid : r.id <+: r.text := List.prefix_append _ _
  exact hne ((List.prefix_of_prefix_length_le hid hstart (by
    rw [h.id.1]
    exact hzip.ge)).eq_of_length (h.id.1.trans hzip.symm))

/-- The row looked for gives its coordinates. -/
theorem lookupLine_row {r : Row} (h : r.Sound) :
    lookupLine (CString.ofBytes r.id) (CString.ofBytes r.text) =
      some (some (atof (CString.ofBytes r.lat), atof (CString.ofBytes r.lon))) := by
  have hid := CString.bytes_ofBytes h.noNul.1
  have hlat := CString.bytes_ofBytes h.noNul.2.1
  have hlon := CString.bytes_ofBytes h.noNul.2.2
  have htext := text_bytes h
  have hlen : (CString.ofBytes r.id).length = r.id.length := congrArg List.length hid
  obtain ⟨b, bs, hb⟩ : ∃ b bs, r.id = b :: bs :=
    List.exists_cons_of_length_pos (by rw [h.id.1]; norm_num)
  have hhead : r.text.head? ≠ some 35 := by
    have hdigit := h.id.2
    rw [hb, List.headD_cons] at hdigit
    rw [Row.text, hb, List.cons_append, List.head?_cons, ne_eq, Option.some.injEq]
    rintro rfl
    exact absurd hdigit (by decide)
  have hstart : r.id.isPrefixOf r.text = true :=
    List.isPrefixOf_iff_prefix.mpr (List.prefix_append _ _)
  have hcoords : r.text.drop (r.id.length + 1) = r.lat ++ 9 :: (r.lon ++ [10]) := by
    rw [Row.text, ← List.drop_drop, List.drop_left]
    rfl
  have htab : (r.text.drop r.id.length).head? = some 9 := by
    rw [Row.text, List.drop_left]
    rfl
  unfold lookupLine
  rw [if_neg (by simp [CString.startsWith, hlen, htext, hid, hhead, hstart, htab])]
  have hsplit : (9 : UInt8) ∈ ((CString.ofBytes r.text).drop (r.id.length + 1)).bytes := by
    simp [htext, hcoords]
  simp only [CString.splitAt, hlen, if_pos hsplit]
  congr 3
  · refine atof_append stops_tab (x := r.lon ++ [10]) (hlat.symm ▸ h.lat) ?_
    rw [CString.bytes_drop, htext, hcoords, hlat]
  · refine atof_append stops_newline (x := []) (hlon.symm ▸ h.lon) ?_
    rw [CString.bytes_drop, CString.bytes_drop, htext, hcoords, takeWhile_ne h.noTab.2.1, hlon,
      ← List.drop_drop, List.drop_left]
    rfl

/-- A lookup stops at the first row with the code. -/
theorem zctaLookup_table (year : Int32) {rows : List Row} (h : ∀ r ∈ rows, r.Sound) {id : Bytes}
    {r : Row} (hfind : rows.find? (fun r => r.id = id) = some r) :
    zctaLookup (some (tableText year rows)) (CString.ofBytes id) =
      .found (atof (CString.ofBytes r.lat)) (atof (CString.ofBytes r.lon)) := by
  obtain rfl : r.id = id := by simpa using List.find?_some hfind
  have hr := h r (List.mem_of_find?_eq_some hfind)
  have hzip : (CString.ofBytes r.id).length = 5 :=
    (congrArg List.length (CString.bytes_ofBytes hr.noNul.1)).trans hr.id.1
  have hrows : (rows.map Row.text).findSome?
      (fun line => lookupLine (CString.ofBytes r.id) (CString.ofBytes line)) =
        some (some (atof (CString.ofBytes r.lat), atof (CString.ofBytes r.lon))) := by
    induction rows with
    | nil => cases hfind
    | cons s rows ih =>
      rw [List.map_cons, List.findSome?_cons]
      by_cases hid : s.id = r.id
      · rw [List.find?_cons_of_pos (by simpa using hid)] at hfind
        obtain rfl := Option.some.inj hfind
        rw [lookupLine_row hr]
      · rw [List.find?_cons_of_neg (by simpa using hid)] at hfind
        rw [lookupLine_other (h s List.mem_cons_self) hzip
          (by rwa [CString.bytes_ofBytes hr.noNul.1])]
        exact ih (fun t ht => h t (List.mem_cons_of_mem s ht)) hfind
  unfold zctaLookup
  dsimp only
  rw [chunks_table year h, List.findSome?_cons, lookupLine_version, hrows]

/-! ## The table of a text -/

/-- What the last two of the first sixteen fields are. -/
def TailsAgree (f : List Bytes) : Prop :=
  16 < f.length → f.getD 14 [] = f.getD (f.length - 2) [] ∧ f.getD 15 [] = f.getD (f.length - 1) []

instance (f : List Bytes) : Decidable (TailsAgree f) := inferInstanceAs (Decidable (_ → _))

/-- The first sixteen fields make the row of all of them when the tails agree. -/
theorem rowOf_take_iff {f : List Bytes} {r : Row} (h : rowOf f = some r) :
    rowOf (f.take 16) = some r ↔ TailsAgree f := by
  have hsome := isSome_rowOf_take f
  rw [h] at hsome
  obtain ⟨r', hr'⟩ := Option.isSome_iff_exists.mp hsome
  have hrow : ∀ {g : List Bytes} {s : Row}, rowOf g = some s →
      s = ⟨g.getD 0 [], g.getD (g.length - 2) [], g.getD (g.length - 1) []⟩ := by
    intro g s hg
    unfold rowOf at hg
    dsimp only at hg
    split at hg
    · cases hg
    · exact (Option.some.inj hg).symm
  rw [hr', Option.some.injEq, hrow h, hrow hr', Row.mk.injEq]
  unfold TailsAgree
  by_cases hlong : 16 < f.length
  · have hlen : (f.take 16).length = 16 := by
      rw [List.length_take]
      omega
    have hget : ∀ i < 16, (f.take 16).getD i [] = f.getD i [] := by
      intro i hi
      rw [List.getD_eq_getElem?_getD, List.getElem?_take_of_lt hi, ← List.getD_eq_getElem?_getD]
    rw [hlen, hget 0 (by norm_num), hget _ (by norm_num), hget _ (by norm_num)]
    simp [hlong]
  · rw [List.take_of_length_le (not_lt.mp hlong)]
    simp [hlong]

/-- The whole table comes out, nothing is written outside the buffer, and a lookup of a code
in the table finds the first row with it. -/
structure Converted (txt : Bytes) (year : Int32) : Prop where
  table : zctaFromGazetteer txt year = if validRows txt = [] then none
    else some (tableText year (validRows txt), (validRows txt).length)
  inside : (convert txt year).1.high ≤ txt.length + 64
  lookup : ∀ table n, zctaFromGazetteer txt year = some (table, n) → ∀ id r,
    (validRows txt).find? (fun r => r.id = id) = some r →
      zctaLookup (some table) (CString.ofBytes id) =
        .found (atof (CString.ofBytes r.lat)) (atof (CString.ofBytes r.lon))

/-- No valid row ends behind its sixteenth field with other bytes, and the year and all rows
but the last are together shorter than the text. -/
structure KeepsAll (txt : Bytes) (year : Int32) : Prop where
  tails : ∀ line ∈ dataLines txt, (rowOf (fields line (delim txt))).isSome →
    TailsAgree (fields line (delim txt))
  room : validRows txt = [] ∨
    (versionText year).length + ((validRows txt).dropLast.flatMap Row.text).length < txt.length

/-- Rows of the same lines are the same line by line. -/
theorem filterMap_eq_iff {f g : Bytes → Option Row} {ls : List Bytes}
    (h : ∀ l ∈ ls, (f l).isSome = (g l).isSome) :
    ls.filterMap f = ls.filterMap g ↔ ∀ l ∈ ls, f l = g l := by
  refine ⟨fun heq => ?_, fun hall => List.filterMap_congr hall⟩
  induction ls with
  | nil => exact fun l hl => absurd hl List.not_mem_nil
  | cons l ls ih =>
    obtain ⟨hl, hls⟩ := List.forall_mem_cons.mp h
    rw [List.filterMap_cons, List.filterMap_cons] at heq
    rw [List.forall_mem_cons]
    cases hf : f l with
    | none =>
      cases hg : g l with
      | none =>
        rw [hf, hg] at heq
        exact ⟨rfl, ih hls heq⟩
      | some s => simp [hf, hg] at hl
    | some r =>
      cases hg : g l with
      | none => simp [hf, hg] at hl
      | some s =>
        rw [hf, hg] at heq
        obtain ⟨rfl, hrest⟩ := List.cons.inj heq
        exact ⟨rfl, ih hls hrest⟩

/-- The rows that are read are the valid ones when the tails agree. -/
theorem codeRows_eq_iff (txt : Bytes) : codeRows txt = validRows txt ↔
    ∀ line ∈ dataLines txt, (rowOf (fields line (delim txt))).isSome →
      TailsAgree (fields line (delim txt)) := by
  have hsome : ∀ line ∈ dataLines txt, (rowOf (splitFields line (delim txt) 16)).isSome =
      (rowOf (fields line (delim txt))).isSome := by
    intro line _
    rw [splitFields_eq, isSome_rowOf_take]
  unfold codeRows readRows validRows
  rw [filterMap_eq_iff hsome]
  refine forall₂_congr fun line _ => ?_
  rw [splitFields_eq]
  cases hrow : rowOf (fields line (delim txt)) with
  | none =>
    have hnone := isSome_rowOf_take (fields line (delim txt))
    rw [hrow, Option.isSome_none, Option.isSome_eq_false_iff, Option.isNone_iff_eq_none] at hnone
    simp [hnone]
  | some r => simpa using rowOf_take_iff hrow

theorem length_codeRows (txt : Bytes) : (codeRows txt).length = (validRows txt).length := by
  unfold codeRows readRows validRows
  rw [List.length_filterMap_eq_countP, List.length_filterMap_eq_countP]
  refine List.countP_congr fun line _ => ?_
  rw [splitFields_eq, isSome_rowOf_take]

/-- A piece in front of a byte that it does not hold. -/
theorem cut_at {c : UInt8} {a b x y : Bytes} (ha : c ∉ a) (hb : c ∉ b)
    (h : a ++ c :: x = b ++ c :: y) : a = b ∧ x = y := by
  have hfirst := congrArg (List.takeWhile (· ≠ c)) h
  rw [takeWhile_ne ha, takeWhile_ne hb] at hfirst
  subst hfirst
  exact ⟨rfl, (List.cons.inj (List.append_cancel_left h)).2⟩

/-- The rows of a table are known from its text. -/
theorem flatMap_text_inj {rs ss : List Row} (hr : ∀ r ∈ rs, r.Sound) (hs : ∀ s ∈ ss, s.Sound)
    (h : rs.flatMap Row.text = ss.flatMap Row.text) : rs = ss := by
  induction rs generalizing ss with
  | nil =>
    cases ss with
    | nil => rfl
    | cons s ss => simp [Row.text] at h
  | cons r rs ih =>
    cases ss with
    | nil => simp [Row.text] at h
    | cons s ss =>
      obtain ⟨hr, hrs⟩ := List.forall_mem_cons.mp hr
      obtain ⟨hs, hss⟩ := List.forall_mem_cons.mp hs
      simp only [List.flatMap_cons, Row.text, List.append_assoc, List.cons_append,
        List.nil_append] at h
      obtain ⟨hid, h⟩ := cut_at hr.noTab.1 hs.noTab.1 h
      obtain ⟨hlat, h⟩ := cut_at hr.noTab.2.1 hs.noTab.2.1 h
      obtain ⟨hlon, h⟩ := cut_at hr.noNewline.2.2 hs.noNewline.2.2 h
      have hrow : r = s := by
        cases r
        cases s
        simp_all
      rw [hrow, ih hrs hss h]

/-- The rows that are kept are the valid ones under the condition. -/
theorem tableRows_eq_iff (txt : Bytes) (year : Int32) :
    tableRows txt year = validRows txt ↔ KeepsAll txt year := by
  constructor
  · intro h
    have hstart : tableRows txt year <+: codeRows txt := keptRows_prefix _ _ _
    have hcode : tableRows txt year = codeRows txt :=
      hstart.eq_of_length (by rw [h, length_codeRows])
    have hvalid : codeRows txt = validRows txt := hcode.symm.trans h
    refine ⟨(codeRows_eq_iff txt).mp hvalid, ?_⟩
    have hkept := (keptRows_eq_iff _ _ _).mp hcode
    rwa [hvalid] at hkept
  · intro h
    have hvalid := (codeRows_eq_iff txt).mpr h.tails
    have hroom := h.room
    rw [← hvalid] at hroom
    exact ((keptRows_eq_iff _ _ _).mpr hroom).trans hvalid

/-- What the conversion returns says which rows it kept. -/
theorem table_eq_iff {txt : Bytes} (h : InDomain txt) (year : Int32) :
    (zctaFromGazetteer txt year = if validRows txt = [] then none
      else some (tableText year (validRows txt), (validRows txt).length)) ↔
      tableRows txt year = validRows txt := by
  rw [zctaFromGazetteer_eq]
  refine ⟨fun heq => ?_, fun heq => by rw [heq]⟩
  have hstart : tableRows txt year <+: codeRows txt := keptRows_prefix _ _ _
  split at heq
  · next hnone =>
    split at heq
    · next hvalid => rw [hnone, hvalid]
    · cases heq
  · split at heq
    · cases heq
    · have htext := (Prod.mk.inj (Option.some.inj heq)).1
      exact flatMap_text_inj (fun r hr => codeRows_sound h r (hstart.subset hr))
        (validRows_sound h) (List.append_cancel_left htext)

/-- The conversion keeps every valid row, and lookups find them, exactly when no row ends
behind its sixteenth field and the guard is not met in front of the last row. -/
theorem converted_iff {txt : Bytes} (h : InDomain txt) (year : Int32) :
    Converted txt year ↔ KeepsAll txt year := by
  rw [← tableRows_eq_iff]
  constructor
  · exact fun hconverted => (table_eq_iff h year).mp hconverted.table
  · intro heq
    refine ⟨(table_eq_iff h year).mpr heq, (convert_holds txt year).1.high, ?_⟩
    intro table n hsome id r hfind
    rw [zctaFromGazetteer_eq, heq] at hsome
    split at hsome
    · cases hsome
    · obtain ⟨rfl, -⟩ := Prod.mk.inj (Option.some.inj hsome)
      exact zctaLookup_table year (validRows_sound h) hfind

/-- A text of two rows between bars. -/
def barText : Bytes :=
  ascii "GEOID|ALAND|INTPTLAT|INTPTLONG\n" ++ ascii "00601|166744424|18.180621|-66.749931\n" ++
    ascii "75201|3564362|32.788309|-96.799572\n"

theorem barText_converted : Converted barText 2026 :=
  (converted_iff ⟨by decide +kernel, by decide +kernel⟩ 2026).mpr
    ⟨by decide +kernel, by decide +kernel⟩

/-- A text of one row behind a short header. -/
def shortText : Bytes := ascii "ZIP\tA\tB\n" ++ ascii "00601\t18\t-66\n"

/-- The row is given up: the year alone is as long as the text. -/
theorem shortText_not_converted : ¬Converted shortText 2026 := fun h =>
  absurd h.table (by decide +kernel)

end MoonFlare.Zcta
