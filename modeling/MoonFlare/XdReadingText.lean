import MoonFlare.StrictJsonTexts
import MoonFlare.XdBattery

/-!
# The text of a pack's reading

The reading is printed member by member: numbers, the firmware and the barcode as the pack
sent them, and arrays as long as the frame. Each part is kept as its text beside the value
it stands for, and a part of bounded numbers reads as its value and has a bounded text.
-/

namespace MoonFlare

open Decimal StrictJson

/-! ## Numbers -/

/-- The literal of a number with a point. -/
def Fixed.literal (k : ℕ) (f : Fixed) : Decimal :=
  ⟨digits (width (f.scaled / 10 ^ k)) (f.scaled / 10 ^ k), digits k (f.scaled % 10 ^ k), none⟩

theorem Fixed.text_eq {k : ℕ} (hk : 0 < k) (f : Fixed) :
    f.text k = signedText f.neg (f.literal k) := by
  have hfrac : digits k (f.scaled % 10 ^ k) ≠ [] :=
    List.ne_nil_of_length_pos (by rwa [length_digits])
  cases hneg : f.neg with
  | true =>
    simp [Fixed.text, signedText, Fixed.literal, Decimal.text, fracText, expText, hfrac, hneg,
      Decimal.ofNat]
  | false =>
    simp [Fixed.text, signedText, Fixed.literal, Decimal.text, fracText, expText, hfrac, hneg,
      Decimal.ofNat]

/-- `%d` writes no zero in front of a number. -/
theorem isInteger_digits (n : ℕ) : isInteger (digits (width n) n) := by
  rcases Nat.eq_zero_or_pos n with rfl | hpos
  · exact Or.inl rfl
  · refine Or.inr ⟨⟨n / 10 ^ Nat.log 10 n % 10, Nat.mod_lt _ (by norm_num)⟩, rfl, ?_⟩
    have hlow : 10 ^ Nat.log 10 n ≤ n := Nat.pow_log_le_self 10 hpos.ne'
    have hhigh : n < 10 ^ (Nat.log 10 n + 1) := Nat.lt_pow_succ_log_self (by norm_num) n
    have hdiv : n / 10 ^ Nat.log 10 n < 10 := by
      rw [Nat.div_lt_iff_lt_mul (by positivity)]
      rwa [Nat.pow_succ'] at hhigh
    have hone : 1 ≤ n / 10 ^ Nat.log 10 n := (Nat.one_le_div_iff (by positivity)).mpr hlow
    intro hzero
    have hmod : n / 10 ^ Nat.log 10 n % 10 = 0 := hzero
    omega

theorem Fixed.isLiteral (k : ℕ) (f : Fixed) : IsLiteral (f.literal k) :=
  ⟨isInteger_digits _, fun _ _ h => by cases h⟩

theorem isLiteral_ofNat (n : ℕ) : IsLiteral (Decimal.ofNat n) :=
  ⟨isInteger_digits n, fun _ _ h => by cases h⟩

namespace Xd

open Binary

/-- The text of a value, and the value. -/
abbrev Part := Bytes × Json

/-- `%.<k>f`. -/
def fixedPart (k : ℕ) (f : Fixed) : Part := (f.text k, .number f.neg (f.literal k))

/-- `%u`. -/
def countPart (n : ℕ) : Part := ((Decimal.ofNat n).text, .number false (Decimal.ofNat n))

/-- A mark. -/
def boolPart (b : Bool) : Part := (boolText b, .bool b)

/-- A string that is printed as it stands. -/
def stringPart (s : Bytes) : Part := (34 :: (s ++ [34]), .string s)

/-- An array. -/
def arrayPart (ps : List Part) : Part :=
  (91 :: (join (ps.map Prod.fst) ++ [93]), .array (ps.map Prod.snd))

/-- A member as printed. -/
def field (m : String × Part) : Bytes := 34 :: (ascii m.1 ++ 34 :: 58 :: m.2.1)

/-- A member as read. -/
def entry (m : String × Part) : Bytes × Json := (ascii m.1, m.2.2)

/-- An object. -/
def objectPart (ms : List (String × Part)) : Part :=
  (123 :: (join (ms.map field) ++ [125]), .object (ms.map entry))

/-- An entry of the `cells` array. -/
def cellPart (p : (Fixed × Bool) × ℕ) : Part :=
  objectPart [("index", countPart (p.2 + 1)), ("voltage_v", fixedPart 3 p.1.1),
    ("balancing", boolPart p.1.2)]

/-- The name of a temperature. -/
def labelName (i : ℕ) : Bytes :=
  if i = 0 then ascii "MOS" else ascii "T" ++ (Decimal.ofNat i).text

/-- The members in front of the strings. -/
def XdReading.front (p : XdReading) : List (String × Part) :=
  [("pack_voltage_v", fixedPart 2 p.packVoltageV), ("current_a", fixedPart 2 p.currentA),
    ("power_w", fixedPart 1 p.powerW), ("soc_pct", fixedPart 2 p.socPct),
    ("soh_pct", fixedPart 2 p.sohPct), ("cell_count", countPart p.cellCount),
    ("full_capacity_ah", fixedPart 2 p.fullCapacityAh),
    ("remaining_capacity_ah", fixedPart 2 p.remainingCapacityAh), ("cycles", countPart p.cycles)]

/-- The members behind the strings. -/
def XdReading.back (p : XdReading) : List (String × Part) :=
  [("cell_voltages_v", arrayPart (p.cells.map fun cell => fixedPart 3 cell.1)),
    ("cell_balancing", arrayPart (p.cells.map fun cell => boolPart cell.2)),
    ("cells", arrayPart (p.cells.zipIdx.map cellPart)),
    ("temperatures_c", arrayPart (p.temperaturesC.map (fixedPart 1))),
    ("temp_labels",
      arrayPart ((List.range p.temperaturesC.length).map fun i => stringPart (labelName i)))]

/-- The members of a reading. -/
def XdReading.members (p : XdReading) : List (String × Part) :=
  p.front ++ ("firmware", stringPart p.firmware.bytes) ::
    ("barcode", stringPart p.barcode.bytes) :: p.back

/-! ## The text is that of an object -/

/-- The text in front of the first zero, which the texts of a reading do not hold. -/
def XdReading.printed (p : XdReading) : Bytes :=
  ascii "\x7b\"pack_voltage_v\":" ++ p.packVoltageV.text 2 ++
  ascii ",\"current_a\":" ++ p.currentA.text 2 ++
  ascii ",\"power_w\":" ++ p.powerW.text 1 ++
  ascii ",\"soc_pct\":" ++ p.socPct.text 2 ++
  ascii ",\"soh_pct\":" ++ p.sohPct.text 2 ++
  ascii ",\"cell_count\":" ++ (Decimal.ofNat p.cellCount).text ++
  ascii ",\"full_capacity_ah\":" ++ p.fullCapacityAh.text 2 ++
  ascii ",\"remaining_capacity_ah\":" ++ p.remainingCapacityAh.text 2 ++
  ascii ",\"cycles\":" ++ (Decimal.ofNat p.cycles).text ++
  ascii ",\"firmware\":\"" ++ p.firmware.bytes ++
  ascii "\",\"barcode\":\"" ++ p.barcode.bytes ++
  ascii "\",\"cell_voltages_v\":[" ++ commas (p.cells.map fun cell => cell.1.text 3) ++
  ascii "],\"cell_balancing\":[" ++ commas (p.cells.map fun cell => boolText cell.2) ++
  ascii "],\"cells\":[" ++ commas (p.cells.zipIdx.map cellText) ++
  ascii "],\"temperatures_c\":[" ++ commas (p.temperaturesC.map (Fixed.text 1)) ++
  ascii "],\"temp_labels\":[" ++ commas ((List.range p.temperaturesC.length).map labelText) ++
  ascii "]\x7d"

/-- The bytes around a name, in front of a member and behind one. -/
theorem delimiters : ascii "\x7b\"" = [123, 34] ∧ ascii ",\"" = [44, 34] ∧
    ascii "\",\"" = [34, 44, 34] ∧ ascii "],\"" = [93, 44, 34] ∧ ascii "\":" = [34, 58] ∧
    ascii "\":\"" = [34, 58, 34] ∧ ascii "\":[" = [34, 58, 91] ∧ ascii "]\x7d" = [93, 125] ∧
    ascii "\x7d" = [125] ∧ ascii "\"" = [34] :=
  ⟨rfl, rfl, rfl, rfl, rfl, rfl, rfl, rfl, rfl, rfl⟩

theorem cellText_eq (p : (Fixed × Bool) × ℕ) : cellText p = (cellPart p).1 := by
  have hindex : ascii "\x7b\"index\":" = ascii "\x7b\"" ++ (ascii "index" ++ ascii "\":") :=
    ascii_around rfl
  have hvolts : ascii ",\"voltage_v\":" = ascii ",\"" ++ (ascii "voltage_v" ++ ascii "\":") :=
    ascii_around rfl
  have hmark : ascii ",\"balancing\":" = ascii ",\"" ++ (ascii "balancing" ++ ascii "\":") :=
    ascii_around rfl
  simp [cellText, cellPart, objectPart, field, countPart, fixedPart, boolPart, join,
    List.intercalate, hindex, hvolts, hmark, delimiters]

theorem labelText_eq (i : ℕ) : labelText i = (stringPart (labelName i)).1 := by
  have hfirst : ascii "\"MOS\"" = ascii "\"" ++ (ascii "MOS" ++ ascii "\"") := ascii_around rfl
  have hopen : ascii "\"T" = 34 :: ascii "T" := rfl
  unfold labelText stringPart labelName
  split <;> simp [hfirst, hopen, delimiters]

theorem printed_eq (p : XdReading) :
    p.printed = 123 :: (join (p.members.map field) ++ [125]) := by
  have hvolts : ascii "\x7b\"pack_voltage_v\":" =
      ascii "\x7b\"" ++ (ascii "pack_voltage_v" ++ ascii "\":") :=
    ascii_around rfl
  have hcurrent : ascii ",\"current_a\":" = ascii ",\"" ++ (ascii "current_a" ++ ascii "\":") :=
    ascii_around rfl
  have hpower : ascii ",\"power_w\":" = ascii ",\"" ++ (ascii "power_w" ++ ascii "\":") :=
    ascii_around rfl
  have hsoc : ascii ",\"soc_pct\":" = ascii ",\"" ++ (ascii "soc_pct" ++ ascii "\":") :=
    ascii_around rfl
  have hsoh : ascii ",\"soh_pct\":" = ascii ",\"" ++ (ascii "soh_pct" ++ ascii "\":") :=
    ascii_around rfl
  have hcount : ascii ",\"cell_count\":" = ascii ",\"" ++ (ascii "cell_count" ++ ascii "\":") :=
    ascii_around rfl
  have hfull : ascii ",\"full_capacity_ah\":" =
      ascii ",\"" ++ (ascii "full_capacity_ah" ++ ascii "\":") :=
    ascii_around rfl
  have hremaining : ascii ",\"remaining_capacity_ah\":" =
      ascii ",\"" ++ (ascii "remaining_capacity_ah" ++ ascii "\":") :=
    ascii_around rfl
  have hcycles : ascii ",\"cycles\":" = ascii ",\"" ++ (ascii "cycles" ++ ascii "\":") :=
    ascii_around rfl
  have hfirmware : ascii ",\"firmware\":\"" = ascii ",\"" ++ (ascii "firmware" ++ ascii "\":\"") :=
    ascii_around rfl
  have hbarcode : ascii "\",\"barcode\":\"" = ascii "\",\"" ++ (ascii "barcode" ++ ascii "\":\"") :=
    ascii_around rfl
  have hcells : ascii "\",\"cell_voltages_v\":[" =
      ascii "\",\"" ++ (ascii "cell_voltages_v" ++ ascii "\":[") :=
    ascii_around rfl
  have hmarks : ascii "],\"cell_balancing\":[" =
      ascii "],\"" ++ (ascii "cell_balancing" ++ ascii "\":[") :=
    ascii_around rfl
  have hentries : ascii "],\"cells\":[" = ascii "],\"" ++ (ascii "cells" ++ ascii "\":[") :=
    ascii_around rfl
  have htemps : ascii "],\"temperatures_c\":[" =
      ascii "],\"" ++ (ascii "temperatures_c" ++ ascii "\":[") :=
    ascii_around rfl
  have hlabels : ascii "],\"temp_labels\":[" =
      ascii "],\"" ++ (ascii "temp_labels" ++ ascii "\":[") :=
    ascii_around rfl
  have hcommas (ts : List Bytes) : commas ts = join ts := rfl
  have htext : (p.cells.zipIdx.map cellText) = p.cells.zipIdx.map (fun q => (cellPart q).1) :=
    List.map_congr_left fun q _ => cellText_eq q
  have hlabel : (List.range p.temperaturesC.length).map labelText =
      (List.range p.temperaturesC.length).map fun i => (stringPart (labelName i)).1 :=
    List.map_congr_left fun i _ => labelText_eq i
  have hjoin (s t : Bytes) (ts : List Bytes) : join (s :: t :: ts) = s ++ 44 :: join (t :: ts) :=
    join_cons s (by simp)
  have hlast (s : Bytes) : join [s] = s := by simp [join, List.intercalate]
  unfold XdReading.printed
  rw [htext, hlabel]
  simp only [hcommas, hvolts, hcurrent, hpower, hsoc, hsoh, hcount, hfull, hremaining, hcycles,
    hfirmware, hbarcode, hcells, hmarks, hentries, htemps, hlabels, delimiters]
  simp only [XdReading.members, XdReading.front, XdReading.back, List.cons_append,
    List.nil_append, List.map_cons, List.map_nil, hjoin, hlast, field, fixedPart, countPart,
    stringPart, arrayPart, List.map_map, Function.comp_def, boolPart]
  simp only [List.append_assoc, List.cons_append, List.nil_append]

/-! ## What a part reads as, and how long it is -/

/-- Bytes of one byte characters, none of them zero. -/
def Clean (b : Bytes) : Prop := ∀ x ∈ b, x ≠ 0 ∧ x < 128

instance (b : Bytes) : Decidable (Clean b) := List.decidableBAll _ b

theorem Clean.append {a b : Bytes} (ha : Clean a) (hb : Clean b) : Clean (a ++ b) :=
  List.forall_mem_append.mpr ⟨ha, hb⟩

theorem Clean.cons {x : UInt8} {b : Bytes} (hx : x ≠ 0 ∧ x < 128) (hb : Clean b) :
    Clean (x :: b) :=
  List.forall_mem_cons.mpr ⟨hx, hb⟩

theorem clean_number {x : UInt8} (h : isNumberByte x = true) : x ≠ 0 ∧ x < 128 := by
  revert h
  revert x
  decide +kernel

theorem clean_each {ts : List Bytes} (h : ∀ t ∈ ts, Clean t) : Clean (each ts) := by
  intro x hx
  obtain ⟨t, ht, hx⟩ := List.mem_flatMap.mp hx
  exact (h t ht).append (by decide : Clean [44]) x hx

theorem clean_join {ts : List Bytes} (h : ∀ t ∈ ts, Clean t) : Clean (join ts) := by
  rcases List.eq_nil_or_concat ts with rfl | ⟨ts, t, rfl⟩
  · exact fun x hx => absurd hx List.not_mem_nil
  · rw [List.concat_eq_append] at h ⊢
    rw [join_concat]
    exact (clean_each fun s hs => h s (List.mem_append_left _ hs)).append (h t (by simp))

theorem length_each_le {ts : List Bytes} {M : ℕ} (h : ∀ t ∈ ts, t.length ≤ M) :
    (each ts).length ≤ ts.length * (M + 1) := by
  induction ts with
  | nil => simp [each]
  | cons t ts ih =>
    have hhead := h t List.mem_cons_self
    have htail := ih fun s hs => h s (List.mem_cons_of_mem t hs)
    simp only [each, List.flatMap_cons, List.length_append, List.length_cons,
      List.length_nil] at htail ⊢
    rw [Nat.succ_mul]
    omega

theorem length_join_le (ts : List Bytes) : (join ts).length ≤ (each ts).length := by
  rcases List.eq_nil_or_concat ts with rfl | ⟨ts, t, rfl⟩
  · exact le_rfl
  · rw [List.concat_eq_append, join_concat]
    simp only [each, List.flatMap_append, List.flatMap_singleton, List.length_append]
    omega

/-- A part reads as its value, and its text is short. -/
structure Fits (left M : ℕ) (p : Part) : Prop where
  reads : Parses (value left) p.1 p.2
  clean : Clean p.1
  length : p.1.length ≤ M

/-- A name of at most so many letters. -/
def Named (K : ℕ) (name : String) : Prop :=
  Plain (ascii name) ∧ Clean (ascii name) ∧ (ascii name).length ≤ K

instance (K : ℕ) (name : String) : Decidable (Named K name) :=
  inferInstanceAs (Decidable (_ ∧ _))

/-- A name by its letters. -/
theorem named_ofList {K : ℕ} {cs : List Char}
    (h : let b := cs.map fun c => UInt8.ofNat c.toNat; Plain b ∧ Clean b ∧ b.length ≤ K) :
    Named K (String.ofList cs) := by
  rw [Named, ascii_ofList]
  exact h

/-- A number with at most seven digits in front of its point. -/
def Small (k : ℕ) (f : Fixed) : Prop := f.scaled ≤ 2 ^ 20 * 10 ^ k

theorem log_small {n : ℕ} (h : n ≤ 2 ^ 20) : Nat.log 10 n ≤ 6 := by
  have hlog := Nat.log_mono_right (b := 10) h
  have hbound : Nat.log 10 (2 ^ 20) = 6 := by
    rw [Nat.log_eq_iff (by norm_num)]
    norm_num
  omega

theorem fits_fixed {k : ℕ} {f : Fixed} (hk : 0 < k) (hk3 : k ≤ 3) (h : Small k f) (left : ℕ) :
    Fits left 12 (fixedPart k f) := by
  have hdiv : f.scaled / 10 ^ k ≤ 2 ^ 20 := Nat.div_le_of_le_mul (by rw [Nat.mul_comm]; exact h)
  have hlog := log_small hdiv
  refine ⟨?_, ?_, ?_⟩
  · change Parses (value left) (f.text k) _
    rw [Fixed.text_eq hk]
    exact reads_number f.neg (f.isLiteral k) left
  · change Clean (f.text k)
    rw [Fixed.text_eq hk]
    exact fun x hx => clean_number (isNumberByte_of_mem_signedText hx)
  · change (f.text k).length ≤ 12
    simp only [Fixed.text, Decimal.ofNat, Decimal.text, fracText, expText, if_true,
      List.length_append, List.length_cons, List.length_map, length_digits, List.length_nil, width]
    split <;> simp only [List.length_cons, List.length_nil] <;> omega

theorem fits_count {n : ℕ} (h : n ≤ 2 ^ 20) (left : ℕ) : Fits left 12 (countPart n) := by
  have hlog := log_small h
  refine ⟨reads_number false (isLiteral_ofNat n) left, ?_, ?_⟩
  · exact fun x hx => clean_number (isNumberByte_of_mem_text hx)
  · change (Decimal.ofNat n).text.length ≤ 12
    simp only [Decimal.ofNat, Decimal.text, fracText, expText, if_true, List.length_append,
      List.length_map, length_digits, List.length_nil, width]
    omega

theorem fits_bool (b : Bool) (left : ℕ) : Fits left 12 (boolPart b) := by
  refine ⟨reads_bool b left, ?_, ?_⟩ <;> revert b <;> decide

theorem fits_string {s : Bytes} {M : ℕ} (hplain : Plain s) (hclean : Clean s)
    (hlen : s.length ≤ M) (left : ℕ) : Fits left (M + 2) (stringPart s) := by
  refine ⟨reads_string hplain left, .cons (by decide) (hclean.append (by decide)), ?_⟩
  simpa [stringPart] using hlen

theorem fits_array {left M N : ℕ} {ps : List Part} (h : ∀ p ∈ ps, Fits left M p)
    (hlen : ps.length ≤ N) : Fits (left + 1) (N * (M + 1) + 2) (arrayPart ps) := by
  have htexts (P : Bytes → Prop) (hP : ∀ p ∈ ps, P p.1) : ∀ t ∈ ps.map Prod.fst, P t := by
    simpa using fun t v hp => hP (t, v) hp
  refine ⟨reads_array ?_, ?_, ?_⟩
  · rw [List.forall₂_map_left_iff, List.forall₂_map_right_iff, List.forall₂_same]
    exact fun p hp => (h p hp).reads
  · refine .cons (by decide) (Clean.append (clean_join ?_) (by decide))
    exact htexts Clean fun p hp => (h p hp).clean
  · have hjoin := length_join_le (ps.map Prod.fst)
    have heach := length_each_le (htexts (fun t => t.length ≤ M) fun p hp => (h p hp).length)
    rw [List.length_map] at heach
    have hmul : ps.length * (M + 1) ≤ N * (M + 1) := Nat.mul_le_mul_right _ hlen
    simp only [arrayPart, List.length_cons, List.length_append, List.length_nil]
    omega

/-- A member of an object. -/
structure FieldFits (left M : ℕ) (m : String × Part) : Prop where
  reads : Parses (member (value left)) (field m) (entry m)
  clean : Clean (field m)
  length : (field m).length ≤ M

theorem Fits.field {left M K N : ℕ} {m : String × Part} (h : Fits left M m.2)
    (hname : Named K m.1) (hN : K + M + 3 ≤ N) : FieldFits left N m := by
  obtain ⟨hplain, hclean, hlen⟩ := hname
  refine ⟨reads_member hplain h.reads, ?_, ?_⟩
  · exact .cons (by decide) (hclean.append (.cons (by decide) (.cons (by decide) h.clean)))
  · have hvalue := h.length
    simp only [Xd.field, List.length_cons, List.length_append]
    omega

theorem forall_fields {ms : List (String × Part)} {P : Bytes → Prop}
    (h : ∀ m ∈ ms, P (field m)) : ∀ t ∈ ms.map field, P t := List.forall_mem_map.mpr h

/-- The members of an object, read one by one. -/
theorem forall₂_fields {left : ℕ} {ms : List (String × Part)}
    (h : ∀ m ∈ ms, Parses (member (value left)) (field m) (entry m)) :
    List.Forall₂ (Parses (member (value left))) (ms.map field) (ms.map entry) := by
  rw [List.forall₂_map_left_iff, List.forall₂_map_right_iff, List.forall₂_same]
  exact h

theorem length_fields_le {left M : ℕ} {ms : List (String × Part)}
    (h : ∀ m ∈ ms, FieldFits left M m) :
    (each (ms.map field)).length ≤ ms.length * (M + 1) := by
  have heach := length_each_le
    (@forall_fields ms (fun t => t.length ≤ M) fun m hm => (h m hm).length)
  rwa [List.length_map] at heach

theorem fits_object {left M : ℕ} {ms : List (String × Part)}
    (h : ∀ m ∈ ms, FieldFits left M m) :
    Fits (left + 1) (ms.length * (M + 1) + 2) (objectPart ms) := by
  refine ⟨reads_object (forall₂_fields fun m hm => (h m hm).reads), ?_, ?_⟩
  · refine .cons (by decide) (Clean.append (clean_join ?_) (by decide))
    exact forall_fields fun m hm => (h m hm).clean
  · have hjoin := length_join_le (ms.map field)
    have heach := length_fields_le h
    simp only [objectPart, List.length_cons, List.length_append, List.length_nil]
    omega

/-! ## The members of a reading -/

/-- A reading whose numbers are short and whose arrays are those of a frame. -/
structure XdReading.Bounded (p : XdReading) : Prop where
  packVoltageV : Small 2 p.packVoltageV
  currentA : Small 2 p.currentA
  powerW : Small 1 p.powerW
  socPct : Small 2 p.socPct
  sohPct : Small 2 p.sohPct
  cellCount : p.cellCount ≤ 2 ^ 20
  fullCapacityAh : Small 2 p.fullCapacityAh
  remainingCapacityAh : Small 2 p.remainingCapacityAh
  cycles : p.cycles ≤ 2 ^ 20
  firmware : p.firmware.length < 64
  barcode : p.barcode.length < 64
  cells : p.cells.length ≤ bmsMaxCells ∧ ∀ cell ∈ p.cells, Small 3 cell.1
  temperaturesC : p.temperaturesC.length ≤ bmsMaxTemps ∧ ∀ t ∈ p.temperaturesC, Small 1 t

variable {p : XdReading}

theorem front_fits (h : p.Bounded) (left : ℕ) : ∀ m ∈ p.front, FieldFits left 40 m := by
  have hnumber : ∀ {k : ℕ} {f : Fixed} {name : String}, Small k f → 0 < k → k ≤ 3 →
      Named 25 name → FieldFits left 40 (name, fixedPart k f) :=
    fun hsmall hk hk3 hname => (fits_fixed hk hk3 hsmall left).field hname (by decide)
  have hcount : ∀ {n : ℕ} {name : String}, n ≤ 2 ^ 20 → Named 25 name →
      FieldFits left 40 (name, countPart n) :=
    fun hsmall hname => (fits_count hsmall left).field hname (by decide)
  simp only [XdReading.front, List.forall_mem_cons, List.not_mem_nil, false_implies, implies_true,
    and_true]
  refine ⟨hnumber h.packVoltageV ?_ ?_ (named_ofList ?_),
    hnumber h.currentA ?_ ?_ (named_ofList ?_), hnumber h.powerW ?_ ?_ (named_ofList ?_),
    hnumber h.socPct ?_ ?_ (named_ofList ?_), hnumber h.sohPct ?_ ?_ (named_ofList ?_),
    hcount h.cellCount (named_ofList ?_), hnumber h.fullCapacityAh ?_ ?_ (named_ofList ?_),
    hnumber h.remainingCapacityAh ?_ ?_ (named_ofList ?_),
    hcount h.cycles (named_ofList ?_)⟩ <;> decide

theorem fits_cell {q : (Fixed × Bool) × ℕ} (hcell : Small 3 q.1.1) (hindex : q.2 < bmsMaxCells)
    (left : ℕ) : Fits (left + 1) 80 (cellPart q) := by
  have hcount : q.2 + 1 ≤ 2 ^ 20 := by
    unfold bmsMaxCells at hindex
    omega
  have hfields : ∀ m ∈ [("index", countPart (q.2 + 1)), ("voltage_v", fixedPart 3 q.1.1),
      ("balancing", boolPart q.1.2)], FieldFits left 25 m := by
    simp only [List.forall_mem_cons, List.not_mem_nil, false_implies, implies_true, and_true]
    have hindex : Named 10 "index" := named_ofList (by decide)
    have hvolts : Named 10 "voltage_v" := named_ofList (by decide)
    have hmark : Named 10 "balancing" := named_ofList (by decide)
    exact ⟨(fits_count hcount left).field hindex (by decide),
      (fits_fixed (by decide) le_rfl hcell left).field hvolts (by decide),
      (fits_bool q.1.2 left).field hmark (by decide)⟩
  exact fits_object hfields

theorem fits_label {i : ℕ} (h : i < bmsMaxTemps) (left : ℕ) :
    Fits left 12 (stringPart (labelName i)) := by
  have hall : ∀ i : Fin bmsMaxTemps,
      Plain (labelName i) ∧ Clean (labelName i) ∧ (labelName i).length ≤ 10 := by
    decide +kernel
  obtain ⟨hplain, hclean, hlen⟩ := hall ⟨i, h⟩
  exact fits_string hplain hclean hlen left

theorem back_fits (h : p.Bounded) (left : ℕ) : ∀ m ∈ p.back, FieldFits (left + 2) 2622 m := by
  have harray : ∀ {name : String} {ps : List Part}, Named 25 name →
      (∀ q ∈ ps, Fits (left + 1) 80 q) → ps.length ≤ bmsMaxCells →
        FieldFits (left + 2) 2622 (name, arrayPart ps) :=
    fun hname hps hlen => (fits_array hps hlen).field hname (by decide)
  have hshort : ∀ {left : ℕ} {q : Part}, Fits left 12 q → Fits left 80 q :=
    fun hq => ⟨hq.reads, hq.clean, hq.length.trans (by decide)⟩
  have hcells : p.cells.length ≤ bmsMaxCells := h.cells.1
  have htemps : p.temperaturesC.length ≤ bmsMaxCells := h.temperaturesC.1.trans (by decide)
  simp only [XdReading.back, List.forall_mem_cons, List.not_mem_nil, false_implies, implies_true,
    and_true]
  refine ⟨harray (named_ofList (by decide)) ?_ (by simpa using hcells),
    harray (named_ofList (by decide)) ?_ (by simpa using hcells),
    harray (named_ofList (by decide)) ?_ (by simpa using hcells),
    harray (named_ofList (by decide)) ?_ (by simpa using htemps),
    harray (named_ofList (by decide)) ?_ (by simpa using htemps)⟩
  · rintro q hq
    obtain ⟨cell, hcell, rfl⟩ := List.mem_map.mp hq
    exact hshort (fits_fixed (by decide) le_rfl (h.cells.2 cell hcell) _)
  · rintro q hq
    obtain ⟨cell, -, rfl⟩ := List.mem_map.mp hq
    exact hshort (fits_bool _ _)
  · rintro q hq
    obtain ⟨⟨cell, i⟩, hcell, rfl⟩ := List.mem_map.mp hq
    obtain ⟨-, hindex, hget⟩ := List.mem_zipIdx hcell
    refine fits_cell (h.cells.2 cell (hget ▸ List.getElem_mem _)) ?_ left
    change i < bmsMaxCells
    omega
  · rintro q hq
    obtain ⟨t, ht, rfl⟩ := List.mem_map.mp hq
    exact hshort (fits_fixed (by decide) (by decide) (h.temperaturesC.2 t ht) _)
  · rintro q hq
    obtain ⟨i, hi, rfl⟩ := List.mem_map.mp hq
    exact hshort (fits_label ((List.mem_range.mp hi).trans_le h.temperaturesC.1) _)

end Xd

end MoonFlare
