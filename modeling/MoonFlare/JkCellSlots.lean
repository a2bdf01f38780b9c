import MoonFlare.DoubleOrder
import MoonFlare.JkBattery

/-!
# The cell slots of a JK frame

A frame has a voltage for each of its slots, and 0 where no cell is wired. The decoder
keeps a cell for each slot that has one, with the number of the slot. A reading numbers the
cells again by their place in the list. In the layout of 24 slots the fields that follow the
voltages are read from 16 bytes too early, so those of the last slots are other fields too.
-/

namespace MoonFlare.Jk

open Binary

/-! ## What the decoder keeps -/

/-- The structure before the balancing marks are made. -/
def filled (data : Bytes) (proto : JkProto) : JkCellInfo :=
  writeFields data proto { JkCellInfo.zero with
    enabledMask := jkU32 data (proto.at 70), cells := frameCells data proto }

/-- What an accepted frame is decoded to. -/
theorem decode_ok {data : Bytes} {proto : JkProto} {expectedCells : ℕ} {r : JkCellInfo}
    (h : jkDecodeCellInfo data proto expectedCells = (r, .ok)) :
    r = markBalancing (filled data proto) := by
  unfold jkDecodeCellInfo at h
  dsimp only at h
  split_ifs at h
  all_goals first | exact (Prod.ext_iff.mp h).1.symm | cases h

/-- An accepted frame is a cell info frame. -/
theorem decode_type {data : Bytes} {proto : JkProto} {expectedCells : ℕ} {r : JkCellInfo}
    (h : jkDecodeCellInfo data proto expectedCells = (r, .ok)) :
    data.getD 4 0 = jkFrameCellInfo := by
  by_contra htype
  unfold jkDecodeCellInfo at h
  dsimp only at h
  rw [if_pos htype] at h
  split_ifs at h
  all_goals cases h

@[simp] theorem cells_filled (data : Bytes) (proto : JkProto) :
    (filled data proto).cells = frameCells data proto := by
  cases proto <;> rfl

@[simp] theorem balancingAction_filled (data : Bytes) (proto : JkProto) :
    (filled data proto).balancingAction = jkByte data (proto.at 172) := by
  cases proto <;> rfl

@[simp] theorem balancingIndicator_filled (data : Bytes) (proto : JkProto) :
    (filled data proto).balancingIndicator = jkFlag data (proto.at 201) := by
  cases proto <;> rfl

/-- A slot with a cell. -/
def populated (data : Bytes) (i : ℕ) : Bool := jkU16 data (6 + i * 2) != 0

/-- The voltage a slot shows. -/
def slotVoltage (data : Bytes) (i : ℕ) : ℚ := milli (jkU16 data (6 + i * 2))

/-- The highest voltage of the slots. -/
def highest (data : Bytes) (proto : JkProto) : ℚ :=
  ((List.range proto.slots).map (slotVoltage data)).foldl max 0

/-- Whether a cell is marked as balancing: while the pack balances, those within 2 mV of the
highest. -/
def marked (data : Bytes) (proto : JkProto) (v : ℚ) : Bool :=
  (jkByte data (proto.at 172) != 0 || jkFlag data (proto.at 201)) &&
    decide (f32 (highest data proto - v) ≤ f32 (2 / 1000))

/-- The cell of a slot. -/
theorem frameCell_eq (data : Bytes) (proto : JkProto) (i : ℕ) :
    frameCell data proto i = if populated data i then
      some ⟨i + 1, slotVoltage data i,
        if proto.at 80 + i * 2 + 2 ≤ jkFrameSize then milli (jkU16 data (proto.at 80 + i * 2))
          else 0, true, false⟩ else none := by
  unfold frameCell populated slotVoltage
  dsimp only
  by_cases h : jkU16 data (6 + i * 2) = 0
  · rw [if_pos h, if_neg (by simp [h])]
  · have hne : (jkU16 data (6 + i * 2) != 0) = true := by simpa using h
    rw [if_neg h, hne]
    rfl

theorem milli_zero : milli 0 = 0 := by
  unfold milli f32
  rw [Int.cast_zero, round_zero, zero_mul, round_zero]

/-- The highest voltage of the cells is that of the slots. -/
theorem highest_eq (data : Bytes) (proto : JkProto) :
    (frameCells data proto).foldl (fun m c => if m < c.voltageV then c.voltageV else m) 0 =
      highest data proto := by
  have hslots : ∀ (slots : List ℕ) (m : ℚ), 0 ≤ m →
      (slots.filterMap (frameCell data proto)).foldl
          (fun m c => if m < c.voltageV then c.voltageV else m) m =
        (slots.map (slotVoltage data)).foldl max m := by
    intro slots
    induction slots with
    | nil => exact fun _ _ => rfl
    | cons i slots ih =>
      intro m hm
      rw [List.filterMap_cons, frameCell_eq, List.map_cons, List.foldl_cons]
      by_cases hpop : populated data i = true
      · have hmax : (if m < slotVoltage data i then slotVoltage data i else m) =
            max m (slotVoltage data i) := by
          split_ifs with hlt
          · rw [max_eq_right hlt.le]
          · rw [max_eq_left (not_lt.mp hlt)]
        rw [if_pos hpop]
        dsimp only
        rw [List.foldl_cons, hmax]
        exact ih _ (hm.trans (le_max_left _ _))
      · have hempty : slotVoltage data i = 0 := by
          have hmv : jkU16 data (6 + i * 2) = 0 := by simpa [populated] using hpop
          rw [slotVoltage, hmv]
          exact milli_zero
        rw [if_neg hpop, hempty, max_eq_left hm]
        exact ih m hm
  exact hslots _ 0 le_rfl

/-- The cells of an accepted frame: those of its slots, with their marks. -/
theorem cells_decoded {data : Bytes} {proto : JkProto} {expectedCells : ℕ} {r : JkCellInfo}
    (h : jkDecodeCellInfo data proto expectedCells = (r, .ok)) :
    r.cells = (frameCells data proto).map fun c =>
      { c with balancing := marked data proto c.voltageV } := by
  have hcells := highest_eq data proto
  rw [decode_ok h]
  unfold markBalancing
  dsimp only
  rw [balancingAction_filled, balancingIndicator_filled, cells_filled, hcells]
  by_cases hon : jkByte data (proto.at 172) ≠ 0 ∨ jkFlag data (proto.at 201) = true
  · have hbool : (jkByte data (proto.at 172) != 0 || jkFlag data (proto.at 201)) = true := by
      simpa using hon
    rw [if_pos hon]
    unfold marked
    rw [hbool]
    rfl
  · have hbool : (jkByte data (proto.at 172) != 0 || jkFlag data (proto.at 201)) = false := by
      simpa using hon
    rw [if_neg hon, cells_filled]
    symm
    unfold marked
    rw [hbool]
    refine (List.map_congr_left fun c hc => ?_).trans (List.map_id _)
    obtain ⟨i, -, hi⟩ := List.mem_filterMap.mp hc
    rw [frameCell_eq] at hi
    split_ifs at hi
    all_goals
      rw [← Option.some.inj hi]
      rfl

/-! ## The numbers of a reading -/

/-- An entry of `cells` in a reading. -/
structure ReadingCell where
  index : ℕ
  voltageV : Fixed
  balancing : Bool
  deriving DecidableEq

/-- The entries `jk_get_reading` prints; the index is the place in the list. -/
def readingCells (c : JkCtx) : List ReadingCell :=
  c.cell.cells.mapIdx fun i cell => ⟨i + 1, Fixed.ofRat 3 cell.voltageV, cell.balancing⟩

/-- Without the index they are those of the reading. -/
theorem readingCells_values (c : JkCtx) :
    (readingCells c).map (fun e => (e.voltageV, e.balancing)) = (JkReading.ofCtx c).cells := by
  refine List.ext_getElem (by simp [readingCells, JkReading.ofCtx]) ?_
  intro i h h'
  simp [readingCells, JkReading.ofCtx]

/-- What a slot is to be in a reading, unless it is empty. -/
def slotCell (data : Bytes) (proto : JkProto) (i : ℕ) : Option ReadingCell :=
  if populated data i then
    some ⟨i + 1, Fixed.ofRat 3 (slotVoltage data i), marked data proto (slotVoltage data i)⟩
  else none

/-- The populated slots in order, with their own numbers. -/
def slotCells (data : Bytes) (proto : JkProto) : List ReadingCell :=
  (List.range proto.slots).filterMap (slotCell data proto)

/-- An entry as it is printed under the number of its slot. -/
def ownEntry (cell : JkCell) : ReadingCell :=
  ⟨cell.index, Fixed.ofRat 3 cell.voltageV, cell.balancing⟩

/-- The cells of an accepted frame are the populated slots. -/
theorem ownEntries_decoded {data : Bytes} {proto : JkProto} {expectedCells : ℕ} {r : JkCellInfo}
    (h : jkDecodeCellInfo data proto expectedCells = (r, .ok)) :
    r.cells.map ownEntry = slotCells data proto := by
  rw [cells_decoded h, List.map_map]
  unfold frameCells slotCells
  rw [List.map_filterMap]
  refine List.filterMap_congr fun i _ => ?_
  rw [frameCell_eq]
  unfold slotCell
  split_ifs <;> rfl

/-- The numbers of the cells. -/
theorem index_decoded {data : Bytes} {proto : JkProto} {expectedCells : ℕ} {r : JkCellInfo}
    (h : jkDecodeCellInfo data proto expectedCells = (r, .ok)) :
    r.cells.map JkCell.index =
      ((List.range proto.slots).filter (populated data)).map (· + 1) := by
  rw [cells_decoded h, List.map_map]
  unfold frameCells
  rw [List.map_filterMap, ← List.filterMap_eq_map, List.filterMap_filter]
  refine List.filterMap_congr fun i _ => ?_
  rw [frameCell_eq]
  split_ifs <;> rfl

/-- The printed numbers are the cells' own when these count from 1. -/
theorem readingCells_eq_iff (c : JkCtx) :
    readingCells c = c.cell.cells.map ownEntry ↔
      c.cell.cells.map JkCell.index = (List.range c.cell.cells.length).map (· + 1) := by
  unfold readingCells
  constructor
  · intro h
    refine List.ext_getElem (by simp) ?_
    intro i hi hi'
    have hlt : i < c.cell.cells.length := by simpa using hi
    have hentry := congrArg (fun l => (l[i]?).map ReadingCell.index) h
    simp only [List.getElem?_mapIdx, List.getElem?_map, List.getElem?_eq_getElem hlt,
      Option.map_some, ownEntry, Option.some.injEq] at hentry
    simpa using hentry.symm
  · intro h
    refine List.ext_getElem (by simp) ?_
    intro i hi hi'
    have hlt : i < c.cell.cells.length := by simpa using hi
    have hindex := congrArg (fun l => l[i]?) h
    simp only [List.getElem?_map, List.getElem?_eq_getElem hlt, Option.map_some,
      List.getElem?_range hlt, Option.some.injEq] at hindex
    simp [ownEntry, hindex]

/-- The numbers that meet a condition are the first ones when none is left out. -/
theorem filter_range_iff (p : ℕ → Bool) (n : ℕ) :
    (List.range n).filter p = List.range ((List.range n).filter p).length ↔
      ∀ i j, i < j → j < n → p j = true → p i = true := by
  constructor
  · intro h i j hij hj hpj
    have hmem : j ∈ (List.range n).filter p := List.mem_filter.mpr ⟨List.mem_range.mpr hj, hpj⟩
    rw [h, List.mem_range] at hmem
    have hfirst : i ∈ List.range ((List.range n).filter p).length :=
      List.mem_range.mpr (hij.trans hmem)
    rw [← h] at hfirst
    exact (List.mem_filter.mp hfirst).2
  · induction n with
    | zero => exact fun _ => rfl
    | succ n ih =>
      intro h
      by_cases hpn : p n = true
      · have hall : (List.range (n + 1)).filter p = List.range (n + 1) := by
          refine List.filter_eq_self.mpr fun i hi => ?_
          rcases Nat.lt_succ_iff_lt_or_eq.mp (List.mem_range.mp hi) with hlt | rfl
          · exact h i n hlt (Nat.lt_succ_self n) hpn
          · exact hpn
        rw [hall, List.length_range]
      · rw [List.range_succ, List.filter_append, List.filter_cons_of_neg hpn, List.filter_nil,
          List.append_nil]
        exact ih fun i j hij hj => h i j hij (hj.trans (Nat.lt_succ_self n))

/-- A reading numbers the cells of an accepted frame by their slots exactly when no empty
slot stands in front of a populated one. -/
theorem readingCells_slots_iff (c : JkCtx) (now : ℚ) (frame : Bytes)
    (hok : (jkDecodeCellInfo frame .jk02_32s 0).2 = .ok) :
    readingCells (onFrame c now frame) = slotCells frame .jk02_32s ↔
      ∀ i j, i < j → j < 32 → populated frame j = true → populated frame i = true := by
  rcases hd : jkDecodeCellInfo frame .jk02_32s 0 with ⟨r, rc⟩
  rw [hd] at hok
  obtain rfl : rc = .ok := hok
  have hcell : (onFrame c now frame).cell = r := by
    unfold onFrame
    rw [if_pos (decode_type hd), hd]
  have hindex := index_decoded hd
  have hlength : r.cells.length =
      ((List.range JkProto.jk02_32s.slots).filter (populated frame)).length := by
    simpa using congrArg List.length hindex
  have hsucc : Function.Injective (List.map (· + 1) : List ℕ → List ℕ) :=
    List.map_injective_iff.mpr (add_left_injective 1)
  rw [← ownEntries_decoded hd, ← hcell, readingCells_eq_iff, hcell, hindex, hlength, hsucc.eq_iff]
  exact filter_range_iff (populated frame) 32

/-- A pack whose first slot is empty; the next two hold cells of 3.3 V. -/
def firstSlotEmpty : Bytes :=
  jkHeaderRsp ++ [2, 0, 0, 0, 0xE4, 0x0C, 0xE4, 0x0C] ++ List.replicate 138 0 ++
    [0xC8, 0x19, 0, 0] ++ List.replicate 19 0 ++ [50] ++ List.replicate 125 0 ++ [0x6F]

/-- A reading of that pack gives the cell of its second slot the number 1. -/
theorem firstSlotEmpty_renumbered :
    ¬∀ (c : JkCtx) (now : ℚ) (frame : Bytes), (jkDecodeCellInfo frame .jk02_32s 0).2 = .ok →
      readingCells (onFrame c now frame) = slotCells frame .jk02_32s := by
  intro h
  have hcells := h ⟨JkCellInfo.zero, ⟨0, false⟩, false, false, none, 0⟩ 1 firstSlotEmpty
    (by decide +kernel)
  revert hcells
  decide +kernel

/-- The theorem at that pack. -/
theorem readingCells_slots_iff_first :
    readingCells (onFrame ⟨JkCellInfo.zero, ⟨0, false⟩, false, false, none, 0⟩ 1 firstSlotEmpty) =
        slotCells firstSlotEmpty .jk02_32s ↔
      ∀ i j, i < j → j < 32 →
        populated firstSlotEmpty j = true → populated firstSlotEmpty i = true :=
  readingCells_slots_iff _ _ _ (by decide +kernel)

end MoonFlare.Jk
