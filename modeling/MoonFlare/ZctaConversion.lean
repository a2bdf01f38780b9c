import MoonFlare.Zcta

/-!
# The conversion of a Gazetteer text

The buffer is 64 bytes longer than the text. A row takes no more of it than its line takes of
the text, so the table always fits. The guard of the loop asks for 64 free bytes all the same
and gives a row up, with all behind it, as soon as the table is as long as the text.
-/

namespace MoonFlare.Zcta

/-! ## The rows of a line -/

/-- The length of some pieces with a byte behind each. -/
def total (ps : List Bytes) : ℕ := (ps.map fun p => p.length + 1).sum

@[simp] theorem total_nil : total [] = 0 := rfl

@[simp] theorem total_cons (p : Bytes) (ps : List Bytes) :
    total (p :: ps) = p.length + 1 + total ps := rfl

theorem total_append (ps qs : List Bytes) : total (ps ++ qs) = total ps + total qs := by
  simp [total]

theorem total_take_le (n : ℕ) (ps : List Bytes) : total (ps.take n) ≤ total ps := by
  conv_rhs => rw [← List.take_append_drop n ps, total_append]
  exact Nat.le_add_right _ _

/-- Three fields or more end with two behind the first. -/
theorem exists_ends {f : List Bytes} (h : 3 ≤ f.length) : ∃ a m x y, f = a :: (m ++ [x, y]) ∧
    f.getD (f.length - 2) [] = x ∧ f.getD (f.length - 1) [] = y := by
  rcases List.eq_nil_or_concat f with rfl | ⟨g, y, rfl⟩
  · simp at h
  rcases List.eq_nil_or_concat g with rfl | ⟨g, x, rfl⟩
  · simp at h
  cases g with
  | nil => simp at h
  | cons a m =>
    refine ⟨a, m, x, y, by simp, ?_, ?_⟩ <;> simp

/-- What a row takes from its fields. -/
structure FromFields (f : List Bytes) (r : Row) : Prop where
  id : r.id ∈ f ∧ r.id.length = 5 ∧ isDigit (r.id.headD 0) = true
  lat : r.lat ∈ f
  lon : r.lon ∈ f
  length : r.text.length ≤ total f

theorem rowOf_from {f : List Bytes} {r : Row} (h : rowOf f = some r) : FromFields f r := by
  unfold rowOf at h
  dsimp only at h
  split at h
  · cases h
  · next hvalid =>
    push Not at hvalid
    obtain ⟨hlen, hid, hdigit⟩ := hvalid
    obtain ⟨a, m, x, y, hf, hx, hy⟩ := exists_ends hlen
    rw [hx, hy] at h
    have hfirst : f.getD 0 [] = a := by rw [hf]; rfl
    rw [hfirst] at h hid hdigit
    obtain rfl := Option.some.inj h
    subst hf
    refine ⟨⟨List.mem_cons_self, hid, by simpa using hdigit⟩, by simp, by simp, ?_⟩
    simp only [Row.text, List.length_append, List.length_cons, List.length_nil, total_cons,
      total_append, total_nil]
    omega

theorem total_fields_le (line : Bytes) (d : UInt8) : total (fields line d) ≤ line.length + 1 := by
  rw [← length_splitOn d line]
  unfold fields
  generalize line.splitOn d = ps
  induction ps with
  | nil => exact le_rfl
  | cons p ps ih =>
    have htrim := length_trim_le p
    simp only [List.map_cons, List.filter_cons, List.sum_cons]
    split
    · simp only [total_cons]
      omega
    · omega

/-- A row is no longer than its line. -/
theorem length_text_le {line : Bytes} {d : UInt8} {r : Row}
    (h : rowOf (splitFields line d 16) = some r) : r.text.length ≤ line.length + 1 := by
  have hlen := (rowOf_from h).length
  rw [splitFields_eq] at hlen
  exact hlen.trans ((total_take_le _ _).trans (total_fields_le line d))

/-! ## The buffer -/

/-- A buffer that holds a text, with nothing written behind its end. -/
structure Holds (cap : ℕ) (b : OutBuf) (t : Bytes) : Prop where
  bytes : b.bytes = t
  off : b.off = t.length
  high : b.high ≤ cap

theorem Holds.print {cap : ℕ} {b : OutBuf} {t : Bytes} (h : Holds cap b t) (text : Bytes)
    (hfits : t.length + text.length < cap) : Holds cap (b.print cap text) (t ++ text) := by
  have hroom : ¬cap - t.length = 0 := by omega
  have hkept : text.take (cap - t.length - 1) = text := List.take_of_length_le (by omega)
  have hhigh := h.high
  unfold OutBuf.print
  rw [h.off, h.bytes, if_pos (by omega : t.length ≤ cap)]
  dsimp only
  rw [hkept, if_neg hroom]
  refine ⟨by simp, by simp, ?_⟩
  dsimp only
  omega

/-- The rows that the guard lets through, behind a table of `off` bytes. -/
def keptRows (len : ℕ) : ℕ → List Row → List Row
  | _, [] => []
  | off, r :: rs => if len ≤ off then [] else r :: keptRows len (off + r.text.length) rs

/-- The rows that the loop reads. -/
def readRows (d : UInt8) (lines : List Bytes) : List Row :=
  lines.filterMap fun line => rowOf (splitFields line d 16)

/-- The loop prints the rows that the guard lets through, all inside the buffer. -/
theorem convertLoop_holds {len : ℕ} {d : UInt8} {b : OutBuf} {t : Bytes} (rows : ℕ)
    {lines : List Bytes} (h : Holds (len + 64) b t) (hfits : t.length + total lines < len + 64) :
    let kept := keptRows len t.length (readRows d lines)
    Holds (len + 64) (convertLoop (len + 64) d b rows lines).1 (t ++ kept.flatMap Row.text) ∧
      (convertLoop (len + 64) d b rows lines).2 = rows + kept.length := by
  dsimp only
  induction lines generalizing b t rows with
  | nil => simpa [convertLoop, readRows, keptRows] using h
  | cons line lines ih =>
    rw [total_cons] at hfits
    unfold convertLoop readRows
    rw [List.filterMap_cons]
    cases hrow : rowOf (splitFields line d 16) with
    | none => exact ih rows h (by omega)
    | some r =>
      dsimp only
      rw [keptRows, h.off]
      by_cases hguard : len ≤ t.length
      · rw [if_pos (by omega), if_pos hguard]
        simpa using h
      · rw [if_neg (by omega), if_neg hguard]
        have hlen := length_text_le hrow
        have hprint := h.print r.text (by omega)
        have hrest := ih (rows + 1) hprint (by rw [List.length_append]; omega)
        rw [List.length_append] at hrest
        simp only [List.flatMap_cons, List.length_cons]
        rw [← List.append_assoc, Nat.add_comm (keptRows _ _ _).length 1, ← Nat.add_assoc]
        exact hrest

/-! ## The whole text -/

theorem total_textLines_le (b : Bytes) : total (textLines b) ≤ b.length + 1 := by
  have hall : total (b.splitOn 10) = b.length + 1 := length_splitOn 10 b
  unfold textLines
  split
  · rw [List.dropLast_eq_take]
    exact (total_take_le _ _).trans hall.le
  · exact hall.le

theorem length_versionText_le (year : Int32) : (versionText year).length ≤ 28 := by
  have hmagic : (ascii "#moonflare-zcta ").length = 16 := rfl
  have hbound : year.toInt.natAbs < 10 ^ 10 := by
    have hyear := (Double.abs_int32_le year).1
    rw [Int.abs_eq_natAbs] at hyear
    omega
  have hlog : Nat.log 10 year.toInt.natAbs < 10 := Nat.log_lt_of_lt_pow' (by norm_num) hbound
  simp only [versionText, intText, Decimal.signedText, List.length_append, hmagic]
  split <;> simp only [Decimal.ofNat, Decimal.text, Decimal.fracText, Decimal.expText, if_true,
    List.length_append, List.length_cons, List.length_map, Decimal.length_digits, List.length_nil,
    Decimal.width] <;> omega

theorem length_copy_le (txt : Bytes) : (CString.ofBytes txt).bytes.length ≤ txt.length :=
  (List.takeWhile_sublist _).length_le

/-- The year and the lines behind the header fit into the buffer. -/
theorem version_fits (txt : Bytes) (year : Int32) :
    (versionText year).length + total (dataLines txt) < txt.length + 64 := by
  have hversion := length_versionText_le year
  have hcopy := length_copy_le txt
  have htotal := total_textLines_le (CString.ofBytes txt).bytes
  unfold dataLines
  cases hlines : textLines (CString.ofBytes txt).bytes with
  | nil =>
    rw [List.drop_nil, total_nil]
    omega
  | cons header lines =>
    rw [hlines, total_cons] at htotal
    rw [List.drop_succ_cons, List.drop_zero]
    omega

/-- The rows that the conversion reads. -/
def codeRows (txt : Bytes) : List Row := readRows (delim txt) (dataLines txt)

/-- The rows that it keeps. -/
def tableRows (txt : Bytes) (year : Int32) : List Row :=
  keptRows txt.length (versionText year).length (codeRows txt)

theorem convert_holds (txt : Bytes) (year : Int32) :
    Holds (txt.length + 64) (convert txt year).1 (tableText year (tableRows txt year)) ∧
      (convert txt year).2 = (tableRows txt year).length := by
  have hfits := version_fits txt year
  have hempty : Holds (txt.length + 64) ⟨[], 0, 0⟩ [] := ⟨rfl, rfl, Nat.zero_le _⟩
  have hversion := hempty.print (versionText year) (by
    rw [List.length_nil]
    omega)
  have hloop := @convertLoop_holds txt.length (delim txt) _ _ 0 (dataLines txt) hversion hfits
  dsimp only at hloop
  rw [Nat.zero_add] at hloop
  exact hloop

/-- What the conversion returns. -/
theorem zctaFromGazetteer_eq (txt : Bytes) (year : Int32) :
    zctaFromGazetteer txt year = if tableRows txt year = [] then none
      else some (tableText year (tableRows txt year), (tableRows txt year).length) := by
  obtain ⟨⟨hbytes, hoff, -⟩, hrows⟩ := convert_holds txt year
  unfold zctaFromGazetteer
  dsimp only
  rw [hrows, hbytes, hoff, List.take_length]
  simp only [List.length_eq_zero_iff]

/-! ## The rows that are kept -/

theorem keptRows_prefix (len off : ℕ) (rs : List Row) : keptRows len off rs <+: rs := by
  induction rs generalizing off with
  | nil => exact List.prefix_rfl
  | cons r rs ih =>
    rw [keptRows]
    split
    · exact List.nil_prefix
    · exact List.prefix_cons_inj r |>.mpr (ih _)

/-- All rows are kept when the last is reached with room left. -/
theorem keptRows_eq_iff (len off : ℕ) (rs : List Row) :
    keptRows len off rs = rs ↔ rs = [] ∨ off + (rs.dropLast.flatMap Row.text).length < len := by
  induction rs generalizing off with
  | nil => simp [keptRows]
  | cons r rs ih =>
    have hrest := ih (off + r.text.length)
    rw [keptRows]
    by_cases hguard : len ≤ off
    · rw [if_pos hguard]
      simp only [List.nil_eq, reduceCtorEq, false_or, false_iff]
      omega
    · rw [if_neg hguard, List.cons.injEq, hrest]
      cases rs with
      | nil => simp [Nat.lt_of_not_le hguard]
      | cons s ss =>
        simp only [true_and, reduceCtorEq, false_or, List.dropLast_cons_cons, List.flatMap_cons,
          List.length_append]
        omega

end MoonFlare.Zcta
