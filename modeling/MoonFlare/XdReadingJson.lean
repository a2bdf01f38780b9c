import MoonFlare.DoubleOrder
import MoonFlare.Runs
import MoonFlare.XdReadingText

/-!
# The reading of a pack as JSON

The numbers that a module holds after any run come from the bytes of frames, so the reading
is never cut at the end of the buffer. Every part of it but the firmware and the barcode is
JSON, so the reading is JSON that gives the two strings back exactly when neither needs an
escape.
-/

namespace MoonFlare.Xd

open Binary StrictJson

/-! ## The numbers of a module -/

/-- Rounding does not go past a power of two. -/
theorem abs_f64_le {q : ℚ} {n : ℕ} (h : |q| ≤ 2 ^ n) : |f64 q| ≤ 2 ^ n := by
  have hplace : ∀ x : ℚ, |x| ≤ 2 ^ n → lastPlace 53 (-1074) x ≤ (n : ℤ) := by
    intro x hx
    have hlog : Int.log 2 |x| ≤ n := by
      rcases eq_or_ne |x| 0 with hzero | hne
      · rw [hzero, Int.log_zero_right]
        exact Int.natCast_nonneg n
      · have hmono := Int.log_mono_right (b := 2) (lt_of_le_of_ne (abs_nonneg x) hne.symm) hx
        have hpow : Int.log 2 ((2 : ℚ) ^ n) = n := by
          have hz := Int.log_zpow (R := ℚ) (b := 2) (by norm_num) (n : ℤ)
          simpa using hz
        rwa [hpow] at hmono
    simp only [lastPlace, max_le_iff]
    omega
  have hle : ∀ x : ℚ, |x| ≤ 2 ^ n → f64 x ≤ 2 ^ n := by
    intro x hx
    have hround := @round_le_pow 53 (-1074) (n : ℤ) x
      (by simpa using (le_abs_self x).trans hx) (hplace x hx)
    simpa [f64] using hround
  have hneg := hle (-q) (by rwa [abs_neg])
  rw [f64, round_neg] at hneg
  exact abs_le'.mpr ⟨hle q h, hneg⟩

theorem small_ofRat {k : ℕ} {x : ℚ} (h : |x| ≤ 2 ^ 20) : Small k (Fixed.ofRat k x) := by
  have hscaled : |x| * 10 ^ k ≤ ((2 ^ 20 * 10 ^ k : ℤ) : ℚ) := by
    push_cast
    exact mul_le_mul_of_nonneg_right h (by positivity)
  have hround := roundHalfEven_mono hscaled
  rw [roundHalfEven_intCast] at hround
  have hnat : (roundHalfEven (|x| * 10 ^ k)).toNat ≤ 2 ^ 20 * 10 ^ k := by
    rw [Int.toNat_le]
    exact_mod_cast hround
  exact hnat

/-- The numbers that frames can hold. -/
structure BmsRealtime.InRange (r : BmsRealtime) : Prop where
  cellCount : r.cellCount ≤ bmsMaxCells
  cells : r.cells.length ≤ bmsMaxCells ∧ ∀ cell ∈ r.cells, |cell.1| ≤ 2 ^ 10
  temperaturesC :
    r.temperaturesC.length ≤ bmsMaxTemps ∧ ∀ t ∈ r.temperaturesC, |t| ≤ 2 ^ 10
  currentA : |r.currentA| ≤ 2 ^ 10
  socPct : |r.socPct| ≤ 2 ^ 10
  sohPct : |r.sohPct| ≤ 2 ^ 10
  fullCapacityAh : |r.fullCapacityAh| ≤ 2 ^ 10
  remainingCapacityAh : |r.remainingCapacityAh| ≤ 2 ^ 20
  packVoltageV : |r.packVoltageV| ≤ 2 ^ 10
  cycles : r.cycles < 2 ^ 16

theorem inRange_zero : BmsRealtime.zero.InRange := by
  constructor <;> simp [BmsRealtime.zero]

theorem byteAt_lt (b : Bytes) (i : ℕ) : byteAt b i < 256 := UInt8.toNat_lt _

theorem be16_lt (b : Bytes) (i : ℕ) : be16 b i < 2 ^ 16 := by
  have hhigh := byteAt_lt b i
  have hlow := byteAt_lt b (i + 1)
  simp only [be16]
  omega

/-- A register in hundredths. -/
theorem abs_hundredths_le (b : Bytes) (i : ℕ) : |f64 (be16 b i / 100)| ≤ 2 ^ 10 := by
  refine abs_f64_le ?_
  have hlt : (be16 b i : ℚ) < 2 ^ 16 := by exact_mod_cast be16_lt b i
  rw [abs_of_nonneg (by positivity)]
  linarith

theorem abs_current_le (b : Bytes) (n : ℕ) : |frameCurrent b n| ≤ 2 ^ 10 := by
  refine abs_f64_le ?_
  have hlt : (be16 b (4 + 2 * n) : ℚ) < 2 ^ 16 := by exact_mod_cast be16_lt b (4 + 2 * n)
  have hpos : (0 : ℚ) ≤ be16 b (4 + 2 * n) := by positivity
  rw [abs_le]
  constructor <;> linarith

theorem abs_cell_le (b : Bytes) (i : ℕ) : |(frameCell b i).1| ≤ 2 ^ 10 := by
  refine abs_f64_le ?_
  have hlow := byteAt_lt b (2 * i + 3)
  have hlt : byteAt b (2 * i + 2) % 32 * 256 + byteAt b (2 * i + 3) < 2 ^ 13 := by omega
  have hcast : ((byteAt b (2 * i + 2) % 32 * 256 + byteAt b (2 * i + 3) : ℕ) : ℚ) < 2 ^ 13 := by
    exact_mod_cast hlt
  rw [abs_of_nonneg (by positivity)]
  linarith

theorem abs_temp_le (b : Bytes) (n i : ℕ) : |frameTemp b n i| ≤ 2 ^ 10 := by
  have hlt : (byteAt b (17 + 2 * n + 2 * i) : ℚ) < 256 := by exact_mod_cast byteAt_lt b _
  have hpos : (0 : ℚ) ≤ byteAt b (17 + 2 * n + 2 * i) := by positivity
  rw [frameTemp, abs_le]
  constructor <;> linarith

theorem abs_remaining_le (b : Bytes) (n : ℕ) : |frameRemaining b n| ≤ 2 ^ 20 := by
  have hproduct : |frameFull b n * frameSoc b n| ≤ 2 ^ 20 := by
    rw [abs_mul]
    calc |frameFull b n| * |frameSoc b n| ≤ 2 ^ 10 * 2 ^ 10 :=
          mul_le_mul (abs_hundredths_le b _) (abs_hundredths_le b _) (abs_nonneg _) (by norm_num)
      _ = 2 ^ 20 := by norm_num
  refine abs_f64_le ?_
  have hround := abs_f64_le hproduct
  rw [abs_div, abs_of_pos (by norm_num : (0 : ℚ) < 100)]
  linarith

theorem tempCountAt_le (b : Bytes) (i : ℕ) : tempCountAt b i ≤ bmsMaxTemps := min_le_right _ _

/-- A frame brings numbers of its range, also when it is refused half way. -/
theorem bmsParseRealtime_inRange (b : Bytes) {r : BmsRealtime} (h : r.InRange) :
    (bmsParseRealtime b r).1.InRange := by
  unfold bmsParseRealtime
  dsimp only
  split
  · exact h
  split
  · exact h
  next hcount =>
  split
  · exact h
  have hn : byteAt b 1 ≤ bmsMaxCells := by omega
  have hcells : ∀ cell ∈ (List.range (byteAt b 1)).map (frameCell b), |cell.1| ≤ 2 ^ 10 :=
    List.forall_mem_map.mpr fun i _ => abs_cell_le b i
  have htemps : ∀ t ∈ (List.range (tempCountAt b (15 + 2 * byteAt b 1))).map
      (frameTemp b (byteAt b 1)), |t| ≤ 2 ^ 10 :=
    List.forall_mem_map.mpr fun i _ => abs_temp_le b _ i
  split
  · exact ⟨hn, ⟨by simpa using hn, hcells⟩, ⟨by simpa using tempCountAt_le b _, htemps⟩,
      abs_current_le b _, abs_hundredths_le b _, h.sohPct, abs_hundredths_le b _,
      abs_remaining_le b _, h.packVoltageV, h.cycles⟩
  · exact ⟨hn, ⟨by simpa using hn, hcells⟩, ⟨by simpa using tempCountAt_le b _, htemps⟩,
      abs_current_le b _, abs_hundredths_le b _, abs_hundredths_le b _, abs_hundredths_le b _,
      abs_remaining_le b _, abs_hundredths_le b _, be16_lt b _⟩

/-- Where the numbers behind a step come from: the module, or a frame. -/
def RtFrom (c : XdCtx) (r : BmsRealtime) : Prop :=
  r = c.rt ∨ ∃ body, r = (bmsParseRealtime body c.rt).1

theorem onReply_rt (c : XdCtx) (now : ℚ) (body : Bytes) : RtFrom c (onReply c now body).1.rt := by
  unfold onReply
  split
  · exact Or.inl rfl
  · exact Or.inl rfl
  · refine Or.inr ⟨body, ?_⟩
    split <;> simp_all

theorem onIo_rt (c : XdCtx) (e : XdEnv) : RtFrom c (onIo c e).1.rt := by
  unfold onIo
  split
  · exact Or.inl rfl
  · exact Or.inl rfl
  · exact Or.inl rfl
  · next body _ => exact onReply_rt { c with ioActive := false } e.now body
  · exact Or.inl rfl

/-- A step leaves the numbers, or takes those of a frame. -/
theorem xdStep_rt (e : XdEnv) (c : XdCtx) : RtFrom c (xdStep e c).1.rt := by
  unfold xdStep
  split
  · split
    · exact Or.inl rfl
    · split
      · exact Or.inl rfl
      · exact onIo_rt (startCmd { c with fdOpen := true } .fw) e
  · split
    · split
      · exact Or.inl rfl
      · exact onIo_rt (startCmd c c.cmdPhase) e
    · exact onIo_rt c e

/-- A step of the module. -/
def xdNext (c : XdCtx) (e : XdEnv) : XdCtx := (xdStep e c).1

theorem run_inRange {c : XdCtx} (h : c.rt.InRange) (es : List XdEnv) :
    (Runs.run xdNext c es).rt.InRange := by
  refine @Runs.invariant_run _ _ xdNext (fun c => c.rt.InRange) (fun _ _ => True) ?_ c h es
    (Runs.along_of_mem c fun _ _ => trivial)
  intro c e hc _
  rcases xdStep_rt e c with heq | ⟨body, heq⟩
  · rw [xdNext, heq]
    exact hc
  · rw [xdNext, heq]
    exact bmsParseRealtime_inRange body hc

/-! ## The reading of numbers in range -/

theorem bounded_ofRealtime {r : BmsRealtime} (h : r.InRange) (firmware barcode : CBuf 64) :
    (XdReading.ofRealtime r firmware.str barcode.str).Bounded := by
  have hten : ∀ {x : ℚ}, |x| ≤ 2 ^ 10 → |x| ≤ 2 ^ 20 := fun hx => hx.trans (by norm_num)
  have hpower : |f64 (r.packVoltageV * r.currentA)| ≤ 2 ^ 20 := by
    refine abs_f64_le ?_
    rw [abs_mul]
    calc |r.packVoltageV| * |r.currentA| ≤ 2 ^ 10 * 2 ^ 10 :=
          mul_le_mul h.packVoltageV h.currentA (abs_nonneg _) (by norm_num)
      _ = 2 ^ 20 := by norm_num
  have hcells : bmsMaxCells ≤ 2 ^ 20 := by norm_num [bmsMaxCells]
  refine ⟨small_ofRat (hten h.packVoltageV), small_ofRat (hten h.currentA),
    (small_ofRat hpower : Small 1 (Fixed.ofRat 1 _)), small_ofRat (hten h.socPct),
    small_ofRat (hten h.sohPct), h.cellCount.trans hcells, small_ofRat (hten h.fullCapacityAh),
    small_ofRat h.remainingCapacityAh, h.cycles.le.trans (by norm_num), firmware.fits,
    barcode.fits, ⟨?_, ?_⟩, ⟨?_, ?_⟩⟩
  · simpa [XdReading.ofRealtime] using h.cells.1
  · exact List.forall_mem_map.mpr fun cell hcell => small_ofRat (hten (h.cells.2 cell hcell))
  · simpa [XdReading.ofRealtime] using h.temperaturesC.1
  · exact List.forall_mem_map.mpr fun t ht => small_ofRat (hten (h.temperaturesC.2 t ht))

/-! ## The text around the two strings -/

/-- What is printed in front of the firmware. -/
def XdReading.lead (p : XdReading) : Bytes :=
  123 :: (each (p.front.map field) ++ 34 :: (ascii "firmware" ++ [34, 58, 34]))

/-- What is printed from the quote behind the firmware up to the barcode. -/
def middle : Bytes := 34 :: 44 :: 34 :: (ascii "barcode" ++ [34, 58, 34])

/-- What is printed behind the quote behind the barcode. -/
def XdReading.tail (p : XdReading) : Bytes := 44 :: (join (p.back.map field) ++ [125])

variable {p : XdReading}

theorem join_members (p : XdReading) : join (p.members.map field) =
    each (p.front.map field) ++ (34 :: (ascii "firmware" ++ [34, 58, 34]) ++ (p.firmware.bytes ++
      (middle ++ (p.barcode.bytes ++ 34 :: 44 :: join (p.back.map field))))) := by
  have hback : p.back.map field ≠ [] := by simp [XdReading.back]
  rw [XdReading.members, List.map_append, join_append _ (by simp), List.map_cons, List.map_cons,
    join_cons _ (by simp), join_cons _ hback]
  simp [field, stringPart, middle]

theorem printed_cut (p : XdReading) :
    p.printed = p.lead ++ (p.firmware.bytes ++ (middle ++ (p.barcode.bytes ++ 34 :: p.tail))) := by
  rw [printed_eq, join_members]
  simp [XdReading.lead, XdReading.tail]

theorem clean_middle : Clean middle := by
  rw [middle, ascii_ofList]
  decide

theorem clean_lead (h : p.Bounded) : Clean p.lead := by
  have hfields : Clean (each (p.front.map field)) :=
    clean_each (forall_fields fun m hm => (front_fits h 0 m hm).clean)
  exact .cons (by decide) (hfields.append (by decide))

theorem clean_tail (h : p.Bounded) : Clean p.tail := by
  have hfields : Clean (join (p.back.map field)) :=
    clean_join (forall_fields fun m hm => (back_fits h 0 m hm).clean)
  exact .cons (by decide) (hfields.append (by decide))

theorem Clean.ascii {b : Bytes} (h : Clean b) : Utf8.Ascii b := fun x hx => (h x hx).2

theorem text_eq (p : XdReading) : p.text = CString.ofBytes p.printed := by
  unfold XdReading.text XdReading.printed
  with_reducible rfl

/-- The texts hold no zero, so nothing of them is lost. -/
theorem text_bytes (h : p.Bounded) : p.text.bytes = p.printed := by
  have hclean : ∀ {b : Bytes}, Clean b → (0 : UInt8) ∉ b := fun hb hzero => (hb 0 hzero).1 rfl
  have hnul : (0 : UInt8) ∉ p.printed := by
    simp only [printed_cut, List.mem_append, List.mem_cons, not_or]
    exact ⟨hclean (clean_lead h), p.firmware.noNul, hclean clean_middle, p.barcode.noNul,
      by decide, hclean (clean_tail h)⟩
  rw [text_eq, CString.bytes_ofBytes hnul]

/-- The buffer holds the whole text. -/
theorem length_text_lt (h : p.Bounded) : p.text.length < 16384 := by
  have hfront := length_fields_le (front_fits h 0)
  have hback := length_fields_le (back_fits h 0)
  have hjoin := length_join_le (p.back.map field)
  have hfirmware := h.firmware
  have hbarcode := h.barcode
  have hname : (ascii "firmware").length = 8 := rfl
  have hmiddle : middle.length = 13 := rfl
  have hnine : p.front.length = 9 := rfl
  have hfive : p.back.length = 5 := rfl
  rw [CString.length, text_bytes h, printed_cut]
  simp only [XdReading.lead, XdReading.tail, List.length_append, List.length_cons, List.length_nil,
    hname, hmiddle]
  rw [hnine] at hfront
  rw [hfive] at hback
  simp only [CString.length] at hfirmware hbarcode
  omega

/-- The text is UTF-8 exactly when both strings are. -/
theorem valid_printed_iff (h : p.Bounded) :
    Utf8.Valid p.printed ↔ Utf8.Valid p.firmware.bytes ∧ Utf8.Valid p.barcode.bytes := by
  have hsplit : ∀ a r : Bytes,
      Utf8.Valid (a ++ 34 :: r) ↔ Utf8.Valid a ∧ Utf8.Valid (34 :: r) := fun a r =>
    ⟨fun hvalid => hvalid.split rfl, fun hboth => hboth.1.append hboth.2⟩
  have hmiddle : middle = 34 :: (middle.drop 1) := rfl
  have htail : Utf8.Valid (34 :: p.tail) := by
    have hascii : Utf8.Ascii (34 :: p.tail) := (clean_tail h).ascii.cons (by decide)
    have hvalid := (Utf8.valid_ascii_append hascii []).mpr Utf8.valid_nil
    rwa [List.append_nil] at hvalid
  rw [printed_cut, Utf8.valid_ascii_append (clean_lead h).ascii, hmiddle, List.cons_append, hsplit,
    ← List.cons_append, ← hmiddle, Utf8.valid_ascii_append clean_middle.ascii, hsplit]
  simp [htail]

/-! ## Reading the text back -/

theorem plain_firmware : Plain (ascii "firmware") := by
  rw [ascii_ofList]
  decide

theorem plain_barcode : Plain (ascii "barcode") := by
  rw [ascii_ofList]
  decide

theorem firmware_ne_barcode : ascii "firmware" ≠ ascii "barcode" := by
  rw [ascii_ofList, ascii_ofList]
  decide

/-- The members in front have other names. -/
theorem front_names (p : XdReading) :
    ∀ m ∈ p.front, ascii m.1 ≠ ascii "firmware" ∧ ascii m.1 ≠ ascii "barcode" := by
  intro m hm
  have hmem : m.1 ∈ p.front.map Prod.fst := List.mem_map_of_mem hm
  have hall : ∀ name ∈ ["pack_voltage_v", "current_a", "power_w", "soc_pct", "soh_pct",
      "cell_count", "full_capacity_ah", "remaining_capacity_ah", "cycles"],
      ascii name ≠ ascii "firmware" ∧ ascii name ≠ ascii "barcode" := by
    decide
  exact hall m.1 hmem

theorem members_read (h : p.Bounded) (hfirmware : Plain p.firmware.bytes)
    (hbarcode : Plain p.barcode.bytes) (left : ℕ) :
    List.Forall₂ (Parses (member (value (left + 2)))) (p.members.map field)
      (p.members.map entry) := by
  have hstring : ∀ {name : String} {s : Bytes}, Plain (ascii name) → Plain s →
      Parses (member (value (left + 2))) (field (name, stringPart s))
        (entry (name, stringPart s)) :=
    fun hname hs => reads_member hname (reads_string hs _)
  refine forall₂_fields ?_
  simp only [XdReading.members, List.forall_mem_append, List.forall_mem_cons]
  exact ⟨fun m hm => (front_fits h _ m hm).reads, hstring plain_firmware hfirmware,
    hstring plain_barcode hbarcode, fun m hm => (back_fits h left m hm).reads⟩

/-- What is found under the two names. -/
theorem lookup_members (p : XdReading) :
    (p.members.map entry).lookup (ascii "firmware") = some (.string p.firmware.bytes) ∧
      (p.members.map entry).lookup (ascii "barcode") = some (.string p.barcode.bytes) := by
  have hfront : ∀ k : Bytes, (∀ m ∈ p.front, ascii m.1 ≠ k) →
      (p.front.map entry).lookup k = none := by
    intro k hk
    rw [List.lookup_eq_none_iff]
    intro m hm
    obtain ⟨m, hfront, rfl⟩ := List.mem_map.mp hm
    simpa [entry] using (hk m hfront).symm
  have hother : (ascii "barcode" == ascii "firmware") = false :=
    beq_eq_false_iff_ne.mpr firmware_ne_barcode.symm
  simp only [XdReading.members, List.map_append, List.map_cons, List.lookup_append]
  rw [hfront _ fun m hm => (front_names p m hm).1, hfront _ fun m hm => (front_names p m hm).2]
  simp [entry, stringPart, List.lookup_cons, hother]

/-- A string that stands in JSON text as it is: no quote, no backslash, no control character,
and UTF-8. -/
def Verbatim (s : CString) : Prop := Plain s.bytes ∧ Utf8.Valid s.bytes

/-- The value of a reading with the strings of a module in it. -/
def HoldsStrings (p : XdReading) (ms : List (Bytes × Json)) : Prop :=
  ms.lookup (ascii "firmware") = some (.string p.firmware.bytes) ∧
    ms.lookup (ascii "barcode") = some (.string p.barcode.bytes)

/-- Two strings that need no escape are read back. -/
theorem parse_printed (h : p.Bounded) (hfirmware : Plain p.firmware.bytes)
    (hbarcode : Plain p.barcode.bytes) :
    parse p.printed = some (.object (p.members.map entry)) := by
  rw [printed_eq]
  obtain ⟨left, hleft⟩ : ∃ left, (join (p.members.map field)).length + 1 = left + 2 := by
    refine ⟨(join (p.members.map field)).length - 1, ?_⟩
    have hlen : 1 ≤ (join (p.members.map field)).length := by
      rw [join_members]
      simp only [List.length_append, List.length_cons]
      omega
    omega
  exact parse_object hleft (members_read h hfirmware hbarcode left)

/-- The text up to the firmware, as members and the rest. -/
theorem printed_firmware (p : XdReading) : ∃ rest, p.printed =
    123 :: (each (p.front.map field) ++
      openMember (ascii "firmware") p.firmware.bytes rest) := by
  refine ⟨ascii "barcode" ++ ([34, 58, 34] ++ (p.barcode.bytes ++ 34 :: p.tail)), ?_⟩
  simp [printed_cut, XdReading.lead, middle, openMember]

/-- The text up to the barcode, as members and the rest. -/
theorem printed_barcode (p : XdReading) : ∃ rest, p.printed =
    123 :: (each ((p.front ++ [("firmware", stringPart p.firmware.bytes)]).map field) ++
      openMember (ascii "barcode") p.barcode.bytes rest) := by
  have hback : ∃ rest, join (p.back.map field) = 34 :: rest := by
    rw [XdReading.back, List.map_cons, join_cons _ (by simp)]
    exact ⟨_, rfl⟩
  obtain ⟨rest, hrest⟩ := hback
  refine ⟨rest ++ [125], ?_⟩
  simp [printed_cut, XdReading.lead, XdReading.tail, middle, each, field, stringPart, openMember,
    hrest]

/-- Strings that are read back need no escape. -/
theorem plain_of_holds (h : p.Bounded) {ms : List (Bytes × Json)}
    (hparse : parse p.printed = some (.object ms)) (hms : HoldsStrings p ms) :
    Plain p.firmware.bytes ∧ Plain p.barcode.bytes := by
  obtain ⟨left, hleft⟩ : ∃ left, p.printed.length = left + 1 := by
    rw [printed_eq]
    exact ⟨_, rfl⟩
  have hfront := fun m hm => (front_fits h left m hm).reads
  have hfirmware : Plain p.firmware.bytes := by
    obtain ⟨rest, htext⟩ := printed_firmware p
    exact plain_of_parse hleft (forall₂_fields hfront) htext plain_firmware
      (List.forall_mem_map.mpr fun m hm => (front_names p m hm).1) hparse hms.1
  obtain ⟨rest, htext⟩ := printed_barcode p
  -- with the firmware read as it stands, the barcode is the next member
  have hread : ∀ m ∈ p.front ++ [("firmware", stringPart p.firmware.bytes)],
      Parses (member (value left)) (field m) (entry m) := by
    simp only [List.forall_mem_append, List.forall_mem_singleton]
    exact ⟨hfront, reads_member plain_firmware (reads_string hfirmware left)⟩
  have hnames : ∀ m ∈ p.front ++ [("firmware", stringPart p.firmware.bytes)],
      ascii m.1 ≠ ascii "barcode" := by
    simp only [List.forall_mem_append, List.forall_mem_singleton]
    exact ⟨fun m hm => (front_names p m hm).2, firmware_ne_barcode⟩
  exact ⟨hfirmware, plain_of_parse hleft (forall₂_fields hread) htext plain_barcode
    (List.forall_mem_map.mpr hnames) hparse hms.2⟩

/-! ## The reading of a module -/

/-- The reading of a module is a whole object: with the two strings in it once a frame was
accepted, and an empty one before. -/
def Readable (c : XdCtx) : Prop :=
  ∀ text, xdGetReading c = some text → ∃ ms, IsJson text.bytes (.object ms) ∧
    match xdPublished c with
    | some p => HoldsStrings p ms
    | none => ms = []

/-- The reading of numbers in range is JSON with the two strings exactly when they need no
escape. -/
theorem readable_iff {c : XdCtx} (h : c.rt.InRange) :
    Readable c ↔ (c.haveData = true → Verbatim c.firmware.str ∧ Verbatim c.barcode.str) := by
  unfold Readable
  cases hdata : c.haveData with
  | false =>
    have hpublished : xdPublished c = none := by simp [xdPublished, hdata]
    simp only [xdGetReading, hpublished, Bool.false_eq_true, false_implies, iff_true]
    rintro text ⟨rfl⟩
    refine ⟨[], ⟨?_, rfl⟩, rfl⟩
    have hascii : Utf8.Ascii (CString.lit "\x7b\x7d").bytes := by decide
    have hvalid := (Utf8.valid_ascii_append hascii []).mpr Utf8.valid_nil
    rwa [List.append_nil] at hvalid
  | true =>
    have hbounded := bounded_ofRealtime h c.firmware c.barcode
    have hpublished : xdPublished c =
        some (XdReading.ofRealtime c.rt c.firmware.str c.barcode.str) := by
      simp [xdPublished, hdata]
    have htake := CString.take_of_length_le (Nat.le_of_lt_succ (length_text_lt hbounded))
    have hreading : ∀ text, xdGetReading c = some text ↔
        text = (XdReading.ofRealtime c.rt c.firmware.str c.barcode.str).text := by
      intro text
      simp only [xdGetReading, hpublished, htake, Option.some.injEq]
      exact eq_comm
    simp only [hreading, forall_eq, hpublished, IsJson, text_bytes hbounded, true_implies,
      valid_printed_iff hbounded]
    constructor
    · rintro ⟨ms, ⟨⟨hfirmware, hbarcode⟩, hparse⟩, hms⟩
      have hplain := plain_of_holds hbounded hparse hms
      exact ⟨⟨hplain.1, hfirmware⟩, ⟨hplain.2, hbarcode⟩⟩
    · rintro ⟨⟨hfirmware, hvalid⟩, ⟨hbarcode, hvalid'⟩⟩
      exact ⟨_, ⟨⟨hvalid, hvalid'⟩, parse_printed hbounded hfirmware hbarcode⟩,
        lookup_members _⟩

/-- After any run of a module its reading is a whole JSON object that gives the firmware and
the barcode back exactly when they stand in JSON text as they are. -/
theorem run_readable_iff (pollIntervalS now : ℚ) (opened : Bool) (openError : CString)
    (es : List XdEnv) :
    let c := Runs.run xdNext (xdOpened pollIntervalS now opened openError) es
    Readable c ↔ (c.haveData = true → Verbatim c.firmware.str ∧ Verbatim c.barcode.str) :=
  readable_iff (run_inRange inRange_zero es)

/-- The replies of a pack whose firmware has a quote in it. -/
def quotedFirmware : List XdEnv :=
  [ascii "A\"B", ascii "C", 0 :: 1 :: List.replicate 60 0].map fun body =>
    ⟨0, true, CString.empty, .done body⟩

/-- The reading is not JSON with the quote in it. -/
theorem quote_not_readable :
    ¬Readable (Runs.run xdNext (xdOpened 2 0 true CString.empty) quotedFirmware) := by
  rw [readable_iff (run_inRange inRange_zero _)]
  intro h
  have hdata : (Runs.run xdNext (xdOpened 2 0 true CString.empty) quotedFirmware).haveData = true :=
    by decide +kernel
  have hquote : ¬Plain (Runs.run xdNext (xdOpened 2 0 true CString.empty)
      quotedFirmware).firmware.str.bytes := by
    decide +kernel
  exact hquote (h hdata).1.1

end MoonFlare.Xd
