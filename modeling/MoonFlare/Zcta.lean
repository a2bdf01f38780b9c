import MoonFlare.NumberEnds

/-!
# The table of ZIP codes

The weather plugin looks a ZIP code up in a table with a line for each: the code, its
latitude and its longitude, behind a line with the year. A newer table is made from the
Gazetteer file of the Census, whose rows begin with the code and end with the coordinates.
The fields of a row stand between tabs or bars, and the fields that are blank do not count.
-/

namespace MoonFlare.Zcta

open Double

/-- A row of the table. -/
structure Row where
  id : Bytes
  lat : Bytes
  lon : Bytes
  deriving DecidableEq

/-- A row as `"%s\t%s\t%s\n"` prints it. -/
def Row.text (r : Row) : Bytes := r.id ++ 9 :: (r.lat ++ 9 :: (r.lon ++ [10]))

/-- The line with the year: `ZCTA_MAGIC "%d\n"`. -/
def versionText (year : Int32) : Bytes :=
  ascii "#moonflare-zcta " ++ (intText year.toInt).bytes ++ [10]

/-! ## Looking a code up -/

/-- `fgets` with the `char line[96]`: up to a line feed, at most 95 bytes. -/
def fgets (b : Bytes) : Bytes × Bytes :=
  let n := min 95 ((b.takeWhile (· ≠ 10)).length + 1)
  (b.take n, b.drop n)

/-- What `fgets` returns call by call. Each call takes a byte, so the length of the file
bounds their number. -/
def chunks : ℕ → Bytes → List Bytes
  | 0, _ => []
  | n + 1, b => if b = [] then [] else (fgets b).1 :: chunks n (fgets b).2

/-- What `zcta_lookup` does with a line: none when it goes on to the next, else the
coordinates or their lack. -/
def lookupLine (zip line : CString) : Option (Option (Double × Double)) :=
  if line.bytes.head? = some 35 ∨ line.startsWith zip = false ∨
      (line.drop zip.length).bytes.head? ≠ some 9 then none
  else
    let a := line.drop (zip.length + 1)
    match a.splitAt 9 with
    | none => some none
    | some (_, b) => some (some (atof a, atof b))

/-- What `zcta_lookup` returns. -/
inductive Lookup where
  | found (lat lon : Double)
  | noZip
  | noTable
  deriving DecidableEq

/-- `zcta_lookup` in the file that opens, if any. -/
def zctaLookup (file : Option Bytes) (zip : CString) : Lookup :=
  match file with
  | none => .noTable
  | some b =>
    match (chunks b.length b).findSome? fun line => lookupLine zip (CString.ofBytes line) with
    | some (some (lat, lon)) => .found lat lon
    | _ => .noZip

/-! ## Making a table -/

/-- `isdigit`. -/
def isDigit (b : UInt8) : Bool := 48 ≤ b && b ≤ 57

/-- A field without the white space around it. -/
def trim (b : Bytes) : Bytes := (b.dropWhile isSpace).rdropWhile isSpace

/-- The loop of `split_fields` over what stands between the delimiters, with room for so many
fields. -/
def splitLoop : ℕ → List Bytes → List Bytes
  | 0, _ => []
  | _ + 1, [] => []
  | n + 1, p :: ps => if trim p = [] then splitLoop (n + 1) ps else trim p :: splitLoop n ps

/-- `split_fields`. -/
def splitFields (line : Bytes) (delim : UInt8) (max : ℕ) : List Bytes :=
  splitLoop max (line.splitOn delim)

/-- The row that fields make: at least three of them, the first of five bytes with a digit in
front. -/
def rowOf (f : List Bytes) : Option Row :=
  let n := f.length
  if n < 3 ∨ (f.getD 0 []).length ≠ 5 ∨ isDigit ((f.getD 0 []).headD 0) = false then none
  else some ⟨f.getD 0 [], f.getD (n - 2) [], f.getD (n - 1) []⟩

/-- The lines that the loop over the text visits: what follows a last line feed is one only
when it is not empty. -/
def textLines (b : Bytes) : List Bytes :=
  if (b.splitOn 10).getLast? = some [] then (b.splitOn 10).dropLast else b.splitOn 10

/-- A bar in front of the first line feed makes bars the delimiters, else tabs are. -/
def delimOf (b : Bytes) : UInt8 :=
  if 10 ∈ b ∧ 124 ∈ b.takeWhile (· ≠ 10) then 124 else 9

/-- The buffer of the table, with the place to print at. -/
structure OutBuf where
  bytes : Bytes
  off : ℕ
  /-- Where the bytes end that were ever written, terminators included. -/
  high : ℕ
  deriving DecidableEq

/-- `off += snprintf(buf + off, cap - off, ..)`: past the end of the buffer the room wraps
around. -/
def OutBuf.print (cap : ℕ) (b : OutBuf) (text : Bytes) : OutBuf :=
  let room := if b.off ≤ cap then cap - b.off else 2 ^ 64 - (b.off - cap)
  let kept := text.take (room - 1)
  { bytes := b.bytes.take b.off ++ kept
    off := b.off + text.length
    high := if room = 0 then b.high else max b.high (b.off + kept.length + 1) }

/-- The loop of `zcta_from_gazetteer` over the lines behind the header, with the number of
rows. -/
def convertLoop (cap : ℕ) (delim : UInt8) : OutBuf → ℕ → List Bytes → OutBuf × ℕ
  | b, rows, [] => (b, rows)
  | b, rows, line :: lines =>
    match rowOf (splitFields line delim 16) with
    | none => convertLoop cap delim b rows lines
    | some r =>
      if cap ≤ b.off + 64 then (b, rows)
      else convertLoop cap delim (b.print cap r.text) (rows + 1) lines

/-- The buffer and the number of rows at the end of `zcta_from_gazetteer`, which allocates 64
bytes more than the text has. -/
def convert (txt : Bytes) (year : Int32) : OutBuf × ℕ :=
  let copy := (CString.ofBytes txt).bytes
  let cap := txt.length + 64
  let b := OutBuf.print cap ⟨[], 0, 0⟩ (versionText year)
  convertLoop cap (delimOf copy) b 0 ((textLines copy).drop 1)

/-- `zcta_from_gazetteer`: the table and its number of rows. -/
def zctaFromGazetteer (txt : Bytes) (year : Int32) : Option (Bytes × ℕ) :=
  let (b, rows) := convert txt year
  if rows = 0 then none else some (b.bytes.take b.off, rows)

/-! ## What a table should hold -/

/-- The fields of a line that are not blank. -/
def fields (line : Bytes) (delim : UInt8) : List Bytes :=
  ((line.splitOn delim).map trim).filter (· ≠ [])

/-- The lines of a text behind its header. -/
def dataLines (txt : Bytes) : List Bytes := (textLines (CString.ofBytes txt).bytes).drop 1

/-- The delimiter of a text. -/
def delim (txt : Bytes) : UInt8 := delimOf (CString.ofBytes txt).bytes

/-- The valid rows of a text, each with its first field and its last two. -/
def validRows (txt : Bytes) : List Row :=
  (dataLines txt).filterMap fun line => rowOf (fields line (delim txt))

/-- The table of some rows. -/
def tableText (year : Int32) (rows : List Row) : Bytes := versionText year ++ rows.flatMap Row.text

/-- The loop of `split_fields` keeps the first fields that are not blank. -/
theorem splitLoop_eq (max : ℕ) (ps : List Bytes) :
    splitLoop max ps = ((ps.map trim).filter (· ≠ [])).take max := by
  induction ps generalizing max with
  | nil => cases max <;> rfl
  | cons p ps ih =>
    cases max with
    | zero => rfl
    | succ max =>
      rw [splitLoop]
      split
      · next hblank => simp [hblank, ih]
      · next hfield => simp [hfield, ih]

theorem splitFields_eq (line : Bytes) (delim : UInt8) (max : ℕ) :
    splitFields line delim max = (fields line delim).take max := splitLoop_eq max _

/-- Fields make a row when the first ones do. -/
theorem isSome_rowOf_take (f : List Bytes) : (rowOf (f.take 16)).isSome = (rowOf f).isSome := by
  have hlen : (f.take 16).length < 3 ↔ f.length < 3 := by
    rw [List.length_take]
    omega
  have hfirst : (f.take 16).getD 0 [] = f.getD 0 [] := by cases f <;> rfl
  simp only [rowOf, hlen, hfirst]
  split <;> rfl

/-! ## Where the bytes of a row come from -/

theorem trim_subset {p : Bytes} {b : UInt8} (h : b ∈ trim p) : b ∈ p :=
  (List.dropWhile_sublist _).mem ((List.rdropWhile_prefix _ _).mem h)

theorem length_trim_le (p : Bytes) : (trim p).length ≤ p.length :=
  ((List.rdropWhile_prefix _ _).length_le).trans (List.dropWhile_sublist _).length_le

/-- A field that is not blank starts with a byte that is no white space. -/
theorem head_trim {p : Bytes} (h : trim p ≠ []) :
    ∃ b ∈ (trim p).head?, isSpace b = false := by
  have hdrop : p.dropWhile isSpace ≠ [] := by
    intro hnil
    rw [trim, hnil] at h
    exact h rfl
  obtain ⟨t, ht⟩ := List.rdropWhile_prefix isSpace (p.dropWhile isSpace)
  obtain ⟨b, bs, hb⟩ := List.exists_cons_of_ne_nil h
  have hhead := List.head_dropWhile_not isSpace hdrop
  have hfirst : (p.dropWhile isSpace).head hdrop = b := by
    have hsplit : p.dropWhile isSpace = b :: (bs ++ t) := by
      rw [← ht]
      exact congrArg (· ++ t) hb
    simp only [hsplit, List.head_cons]
  exact ⟨b, by simp [hb], hfirst ▸ hhead⟩

/-- What stands between the delimiters holds none, and comes from the line. -/
theorem mem_splitOn {c : UInt8} {line p : Bytes} (h : p ∈ line.splitOn c) :
    c ∉ p ∧ ∀ b ∈ p, b ∈ line := by
  induction line generalizing p with
  | nil =>
    rw [List.splitOn_nil, List.mem_singleton] at h
    rw [h]
    exact ⟨List.not_mem_nil, fun b hb => hb⟩
  | cons d line ih =>
    rw [List.splitOn_cons_eq_if_modifyHead] at h
    split at h
    · rcases List.mem_cons.mp h with rfl | h
      · exact ⟨List.not_mem_nil, fun b hb => absurd hb List.not_mem_nil⟩
      · exact ⟨(ih h).1, fun b hb => List.mem_cons_of_mem d ((ih h).2 b hb)⟩
    · next hne =>
      obtain ⟨q, qs, hq⟩ := List.exists_cons_of_ne_nil (List.splitOn_ne_nil c line)
      rw [hq] at ih h
      rw [List.modifyHead_cons] at h
      rcases List.mem_cons.mp h with rfl | h
      · have hfirst := ih List.mem_cons_self
        have hdelim : c ≠ d := fun heq => hne (by simp [heq])
        refine ⟨by simp [hdelim, hfirst.1], List.forall_mem_cons.mpr ⟨List.mem_cons_self, ?_⟩⟩
        exact fun b hb => List.mem_cons_of_mem d (hfirst.2 b hb)
      · have hrest := ih (List.mem_cons_of_mem _ h)
        exact ⟨hrest.1, fun b hb => List.mem_cons_of_mem d (hrest.2 b hb)⟩

/-- The pieces of a line and the delimiters between them make the line. -/
theorem length_splitOn (c : UInt8) (line : Bytes) :
    ((line.splitOn c).map fun p => p.length + 1).sum = line.length + 1 := by
  induction line with
  | nil => rfl
  | cons d line ih =>
    rw [List.splitOn_cons_eq_if_modifyHead]
    split
    · simp only [List.map_cons, List.sum_cons, ih, List.length_nil, List.length_cons]
      omega
    · obtain ⟨q, qs, hq⟩ := List.exists_cons_of_ne_nil (List.splitOn_ne_nil c line)
      rw [hq] at ih ⊢
      simp only [List.modifyHead_cons, List.map_cons, List.sum_cons, List.length_cons] at ih ⊢
      omega

end MoonFlare.Zcta
