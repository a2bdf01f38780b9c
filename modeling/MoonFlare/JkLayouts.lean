import MoonFlare.JkCellSlots

/-!
# The two layouts of a JK cell info frame

The fields of a frame stand behind the voltages of 24 or of 32 slots. With 32 slots no
field shares a byte with a voltage. With 24 slots everything from the enabled mask on is
read 32 bytes further in front, and the mask is where the voltages of the slots 16 and 17
stand; those of 18, 19 and 20 are the average, the difference and the numbers of the
extreme cells, and those of the last three are the resistances of the first three.
-/

namespace MoonFlare.Jk

open Binary

/-- A cell without its mark, and without its voltage if it is in the slot. -/
def blank (i : ℕ) (c : JkCell) : JkCell :=
  { c with voltageV := if c.index = i + 1 then 0 else c.voltageV, balancing := false }

/-- A decoded frame without the voltage of a slot and the marks that voltages give. -/
def withoutVoltage (i : ℕ) (r : JkCellInfo) : JkCellInfo :=
  { r with cells := r.cells.map (blank i) }

/-- Another frame with another voltage in a slot and the sum that goes with it. -/
structure VoltageChange (i : ℕ) (data data' : Bytes) : Prop where
  length : data'.length = data.length
  changed : jkU16 data' (6 + i * 2) ≠ jkU16 data (6 + i * 2)
  other : ∀ j, j ≠ 6 + i * 2 → j ≠ 7 + i * 2 → j ≠ 299 → data'.getD j 0 = data.getD j 0

/-- Nothing else that is decoded is read where the voltage of the slot stands. -/
def OwnBytes (data : Bytes) (proto : JkProto) (i : ℕ) : Prop :=
  proto = .jk02_32s ∨ i < 16 ∨ 21 ≤ i ∧ populated data (i - 21) = false

/-! ## Numbers of a frame -/

theorem jkByte_lt (data : Bytes) (off : ℕ) : jkByte data off < 256 := UInt8.toNat_lt _

theorem jkU16_lt (data : Bytes) (off : ℕ) : jkU16 data off < 65536 := by
  have hlow := jkByte_lt data off
  have hhigh := jkByte_lt data (off + 1)
  unfold jkU16
  omega

theorem jkU32_inj {data data' : Bytes} {off : ℕ} (h : jkU32 data' off = jkU32 data off) :
    jkU16 data' off = jkU16 data off ∧ jkU16 data' (off + 2) = jkU16 data (off + 2) := by
  have hlow := jkU16_lt data off
  have hlow' := jkU16_lt data' off
  unfold jkU32 at h
  omega

/-- Millivolts of 16 bits are told apart as `float`. -/
theorem milli_lt {a b : ℕ} (ha : 0 < a) (hab : a < b) (hb : b < 65536) : milli a < milli b := by
  have hexact : ∀ n : ℕ, n < 65536 → f32 ((n : ℤ) : ℚ) = n := by
    intro n hn
    have habs : |(n : ℤ)| < 2 ^ 24 := by
      rw [abs_of_nonneg (Int.natCast_nonneg n)]
      omega
    have hround := @round_intCast 24 (-149) n (by norm_num) habs
    rw [f32, hround]
    exact Int.cast_natCast n
  have hlow : (999 / 1000000 : ℚ) < f32 (1 / 1000) := by decide +kernel
  have hhigh : f32 (1 / 1000) < (1001 / 1000000 : ℚ) := by decide +kernel
  have hone : (1 : ℚ) ≤ a := by exact_mod_cast ha
  have hstep : (a : ℚ) + 1 ≤ b := by exact_mod_cast hab
  have hbound : (b : ℚ) ≤ 65535 := by exact_mod_cast Nat.le_of_lt_succ hb
  have hgap : (2 : ℚ) ^ ((7 : ℤ) - (24 : ℕ)) = 1 / 131072 := by norm_num
  have htop : (2 : ℚ) ^ (7 : ℤ) = 128 := by norm_num
  unfold milli
  rw [hexact a (hab.trans hb), hexact b hb]
  refine @round_lt_round 24 (-149) 7 _ _ (by positivity) ?_ ?_ (by norm_num)
  · rw [hgap]
    nlinarith
  · rw [htop]
    nlinarith

theorem milli_inj {a b : ℕ} (ha : 0 < a) (hb : 0 < b) (ha' : a < 65536) (hb' : b < 65536)
    (h : milli a = milli b) : a = b := by
  rcases Nat.lt_trichotomy a b with hlt | heq | hgt
  · exact absurd h (milli_lt ha hlt hb').ne
  · exact heq
  · exact absurd h (milli_lt hb hgt ha').ne'

/-! ## What is read where -/

/-- The bytes that are read besides the voltages and the resistances. -/
def Field (proto : JkProto) (off : ℕ) : Prop :=
  proto.at 74 ≤ off ∧ off < proto.at 80 ∨ proto.at 144 ≤ off ∧ off ≤ 290

/-- The fields behind the cells depend on their own bytes. -/
theorem writeFields_congr {data data' : Bytes} {proto : JkProto}
    (h : ∀ off, Field proto off → jkByte data' off = jkByte data off) (r : JkCellInfo) :
    writeFields data' proto r = writeFields data proto r := by
  have hu16 : ∀ off, Field proto off → Field proto (off + 1) →
      jkU16 data' off = jkU16 data off := by
    intro off hoff hnext
    unfold jkU16
    rw [h off hoff, h (off + 1) hnext]
  have hu32 : ∀ off, Field proto off → Field proto (off + 1) → Field proto (off + 2) →
      Field proto (off + 3) → jkU32 data' off = jkU32 data off := by
    intro off h0 h1 h2 h3
    unfold jkU32
    rw [hu16 off h0 h1, hu16 (off + 2) h2 h3]
  have hi16 : ∀ off, Field proto off → Field proto (off + 1) →
      jkI16 data' off = jkI16 data off := by
    intro off hoff hnext
    unfold jkI16
    rw [hu16 off hoff hnext]
  have hi32 : ∀ off, Field proto off → Field proto (off + 1) → Field proto (off + 2) →
      Field proto (off + 3) → jkI32 data' off = jkI32 data off := by
    intro off h0 h1 h2 h3
    unfold jkI32
    rw [hu32 off h0 h1 h2 h3]
  have htemp : ∀ off, Field proto off → Field proto (off + 1) →
      jkTempC data' off = jkTempC data off := by
    intro off hoff hnext
    unfold jkTempC
    rw [hi16 off hoff hnext]
  have hflag : ∀ off, Field proto off → jkFlag data' off = jkFlag data off := by
    intro off hoff
    unfold jkFlag
    rw [h off hoff]
  unfold Field at h hu16 hu32 hi16 hi32 htemp hflag
  unfold writeFields
  cases proto with
  | jk02_32s =>
    simp only [JkProto.at] at h hu16 hu32 hi16 hi32 htemp hflag
    simp (disch := omega) only [JkProto.at, h, hu16, hu32, hi16, hi32, htemp, hflag]
    rfl
  | jk02_24s =>
    simp only [JkProto.at] at h hu16 hu32 hi16 hi32 htemp hflag
    simp (disch := omega) only [JkProto.at, h, hu16, hu32, hi16, hi32, htemp, hflag]
    rfl

/-- The mask and the fields of two frames. -/
theorem withoutVoltage_filled (data : Bytes) (proto : JkProto) (i : ℕ) :
    withoutVoltage i (filled data proto) = writeFields data proto { JkCellInfo.zero with
      enabledMask := jkU32 data (proto.at 70)
      cells := (frameCells data proto).map (blank i) } := by
  cases proto <;> rfl

/-- The marks are not part of what is compared. -/
theorem withoutVoltage_mark (i : ℕ) (r : JkCellInfo) :
    withoutVoltage i (markBalancing r) = withoutVoltage i r := by
  unfold markBalancing
  split_ifs
  · unfold withoutVoltage
    dsimp only
    rw [List.map_map]
    rfl
  · rfl

/-- A byte of neither the voltage nor the sum. -/
theorem VoltageChange.byte {i : ℕ} {data data' : Bytes} (h : VoltageChange i data data')
    {off : ℕ} (hoff : off ≠ 6 + i * 2 ∧ off ≠ 7 + i * 2 ∧ off ≠ 299) :
    jkByte data' off = jkByte data off :=
  congrArg UInt8.toNat (h.other off hoff.1 hoff.2.1 hoff.2.2)

/-- A number that shares no byte with them. -/
theorem VoltageChange.u16 {i : ℕ} {data data' : Bytes} (h : VoltageChange i data data')
    {off : ℕ} (hoff : off + 1 < 6 + i * 2 ∨ 7 + i * 2 < off) (hsum : off < 298) :
    jkU16 data' off = jkU16 data off := by
  unfold jkU16
  rw [h.byte (by omega), h.byte (by omega)]

/-- A cell keeps all but its voltage when its resistance is not read from the voltage. -/
theorem blank_frameCell {i : ℕ} {data data' : Bytes} (h : VoltageChange i data data')
    {proto : JkProto} (hpop : populated data i = true) (hpop' : populated data' i = true)
    {j : ℕ} (hj : j < 32) (hresistance : populated data j = true →
      jkU16 data' (proto.at 80 + j * 2) = jkU16 data (proto.at 80 + j * 2)) :
    (frameCell data' proto j).map (blank i) = (frameCell data proto j).map (blank i) := by
  rw [frameCell_eq, frameCell_eq]
  rcases eq_or_ne j i with rfl | hne
  · rw [if_pos hpop, if_pos hpop', hresistance hpop]
    simp only [Option.map_some, blank, if_true]
  · have hvoltage : jkU16 data' (6 + j * 2) = jkU16 data (6 + j * 2) := h.u16 (by omega) (by omega)
    unfold populated slotVoltage at *
    rw [hvoltage]
    split_ifs with hj
    all_goals first | rfl | rw [hresistance hj]

/-- Frames whose other fields and resistances are the same are decoded to the same, but
for the voltage. -/
theorem withoutVoltage_congr {i : ℕ} {data data' : Bytes} (h : VoltageChange i data data')
    {proto : JkProto} (hpop : populated data i = true) (hpop' : populated data' i = true)
    (hmask : jkU32 data' (proto.at 70) = jkU32 data (proto.at 70))
    (hfields : ∀ off, Field proto off → jkByte data' off = jkByte data off)
    (hresistance : ∀ j, j < proto.slots → populated data j = true →
      jkU16 data' (proto.at 80 + j * 2) = jkU16 data (proto.at 80 + j * 2)) :
    withoutVoltage i (filled data' proto) = withoutVoltage i (filled data proto) := by
  have hslots : proto.slots ≤ 32 := by cases proto <;> decide
  have hcells : (frameCells data' proto).map (blank i) = (frameCells data proto).map (blank i) := by
    unfold frameCells
    rw [List.map_filterMap, List.map_filterMap]
    refine List.filterMap_congr fun j hj => ?_
    have hlt := List.mem_range.mp hj
    exact blank_frameCell h hpop hpop' (by omega) (hresistance j hlt)
  rw [withoutVoltage_filled, withoutVoltage_filled, hmask, hcells]
  exact writeFields_congr hfields _

/-- The resistance of a cell is part of what is compared. -/
theorem resistance_of_eq {i : ℕ} {data data' : Bytes} {proto : JkProto} {k : ℕ}
    (heq : withoutVoltage i (filled data' proto) = withoutVoltage i (filled data proto))
    (hk : k < proto.slots) (hpop : populated data k = true)
    (hroom : proto.at 80 + k * 2 + 2 ≤ jkFrameSize) :
    milli (jkU16 data' (proto.at 80 + k * 2)) = milli (jkU16 data (proto.at 80 + k * 2)) := by
  have hcells := congrArg JkCellInfo.cells heq
  simp only [withoutVoltage, cells_filled] at hcells
  have hmem : blank i ⟨k + 1, slotVoltage data k, milli (jkU16 data (proto.at 80 + k * 2)), true,
      false⟩ ∈ (frameCells data proto).map (blank i) := by
    refine List.mem_map_of_mem (List.mem_filterMap.mpr ⟨k, List.mem_range.mpr hk, ?_⟩)
    rw [frameCell_eq, if_pos hpop, if_pos hroom]
  rw [← hcells] at hmem
  obtain ⟨c, hc, hblank⟩ := List.mem_map.mp hmem
  obtain ⟨j, -, hj⟩ := List.mem_filterMap.mp hc
  rw [frameCell_eq] at hj
  split_ifs at hj with hpopj hroomj
  all_goals
    obtain rfl := Option.some.inj hj
    simp only [blank, JkCell.mk.injEq] at hblank
    obtain ⟨hindex, -, hres, -⟩ := hblank
    obtain rfl : j = k := by omega
  · exact hres
  · exact absurd hroom hroomj

/-- A slot with bytes of its own: its voltage is all that changes. -/
theorem withoutVoltage_of_ownBytes {i : ℕ} {data data' : Bytes} (h : VoltageChange i data data')
    {proto : JkProto} (hi : i < proto.slots) (hpop : populated data i = true)
    (hpop' : populated data' i = true) (hown : OwnBytes data proto i) :
    withoutVoltage i (filled data' proto) = withoutVoltage i (filled data proto) := by
  cases proto with
  | jk02_32s =>
    simp only [JkProto.slots] at hi
    refine withoutVoltage_congr h hpop hpop' ?_ ?_ ?_
    · unfold jkU32
      simp only [JkProto.at]
      rw [h.u16 (by omega) (by omega), h.u16 (by omega) (by omega)]
    · intro off hoff
      unfold Field at hoff
      simp only [JkProto.at] at hoff
      exact h.byte (by omega)
    · intro j hj _
      simp only [JkProto.slots, JkProto.at] at hj ⊢
      exact h.u16 (by omega) (by omega)
  | jk02_24s =>
    simp only [JkProto.slots] at hi
    have hcases : i < 16 ∨ 21 ≤ i ∧ populated data (i - 21) = false := by
      rcases hown with hproto | hown
      · cases hproto
      · exact hown
    refine withoutVoltage_congr h hpop hpop' ?_ ?_ ?_
    · unfold jkU32
      simp only [JkProto.at]
      rw [h.u16 (by omega) (by omega), h.u16 (by omega) (by omega)]
    · intro off hoff
      unfold Field at hoff
      simp only [JkProto.at] at hoff
      exact h.byte (by omega)
    · intro j hj hpopj
      simp only [JkProto.slots, JkProto.at] at hj ⊢
      have hother : i < 16 ∨ j ≠ i - 21 ∧ 21 ≤ i := by
        rcases hcases with hlow | ⟨hhigh, hempty⟩
        · exact Or.inl hlow
        · refine Or.inr ⟨?_, hhigh⟩
          rintro rfl
          rw [hempty] at hpopj
          cases hpopj
      exact h.u16 (by omega) (by omega)

/-- With 24 slots the voltage of a later one is read again as another field. -/
theorem ownBytes_of_withoutVoltage {i : ℕ} {data data' : Bytes} (h : VoltageChange i data data')
    (hi : i < 24) (hpop : populated data i = true) (hpop' : populated data' i = true)
    (heq : withoutVoltage i (filled data' .jk02_24s) = withoutVoltage i (filled data .jk02_24s)) :
    i < 16 ∨ 21 ≤ i ∧ populated data (i - 21) = false := by
  by_contra hown
  rw [not_or, not_lt] at hown
  obtain ⟨hlow, hshared⟩ := hown
  have hpos : 0 < jkU16 data (6 + i * 2) := Nat.pos_of_ne_zero (by simpa [populated] using hpop)
  have hpos' : 0 < jkU16 data' (6 + i * 2) :=
    Nat.pos_of_ne_zero (by simpa [populated] using hpop')
  -- The field that is read there is the number itself, or the number as a `float`.
  have hsame : jkU16 data' (6 + i * 2) = jkU16 data (6 + i * 2) := by
    have hfloat : milli (jkU16 data' (6 + i * 2)) = milli (jkU16 data (6 + i * 2)) →
        jkU16 data' (6 + i * 2) = jkU16 data (6 + i * 2) :=
      milli_inj hpos' hpos (jkU16_lt _ _) (jkU16_lt _ _)
    obtain hmask | hmask | haverage | hdelta | hnumbers | hlast :
        i = 16 ∨ i = 17 ∨ i = 18 ∨ i = 19 ∨ i = 20 ∨ 21 ≤ i := by omega
    · subst hmask
      exact (jkU32_inj (congrArg JkCellInfo.enabledMask heq)).1
    · subst hmask
      exact (jkU32_inj (congrArg JkCellInfo.enabledMask heq)).2
    · subst haverage
      exact hfloat (congrArg JkCellInfo.averageCellV heq)
    · subst hdelta
      exact hfloat (congrArg JkCellInfo.deltaCellV heq)
    · subst hnumbers
      have hmax : jkByte data' 46 = jkByte data 46 := congrArg JkCellInfo.maxCellNumber heq
      have hmin : jkByte data' 47 = jkByte data 47 := congrArg JkCellInfo.minCellNumber heq
      unfold jkU16
      rw [hmax, hmin]
    · have hfirst : populated data (i - 21) = true := by
        rw [← Bool.not_eq_false]
        exact fun hempty => hshared ⟨hlast, hempty⟩
      have hoff : JkProto.jk02_24s.at 80 + (i - 21) * 2 = 6 + i * 2 := by
        simp only [JkProto.at]
        omega
      have hslot : i - 21 < JkProto.jk02_24s.slots := by
        simp only [JkProto.slots]
        omega
      have hroom : JkProto.jk02_24s.at 80 + (i - 21) * 2 + 2 ≤ jkFrameSize := by
        rw [hoff, jkFrameSize]
        omega
      have hres := resistance_of_eq heq hslot hfirst hroom
      rw [hoff] at hres
      exact hfloat hres
  exact h.changed hsame

/-- Changing the voltage of a populated slot changes that voltage and the marks alone exactly
when the slot has its bytes for itself: with 32 slots always, with 24 in the first 16 and in
the last three while the slot whose resistance is read there is empty. -/
theorem voltage_alone_iff {i : ℕ} {data data' : Bytes} {proto : JkProto}
    {expectedCells expectedCells' : ℕ} {r r' : JkCellInfo} (h : VoltageChange i data data')
    (hi : i < proto.slots) (hpop : populated data i = true) (hpop' : populated data' i = true)
    (hr : jkDecodeCellInfo data proto expectedCells = (r, .ok))
    (hr' : jkDecodeCellInfo data' proto expectedCells' = (r', .ok)) :
    withoutVoltage i r' = withoutVoltage i r ↔ OwnBytes data proto i := by
  rw [decode_ok hr, decode_ok hr', withoutVoltage_mark, withoutVoltage_mark]
  constructor
  · intro heq
    cases proto with
    | jk02_32s => exact Or.inl rfl
    | jk02_24s => exact Or.inr (ownBytes_of_withoutVoltage h hi hpop hpop' heq)
  · exact withoutVoltage_of_ownBytes h hi hpop hpop'

/-- The bytes of a frame in front of the voltage of slot 18. -/
def slot18Front : Bytes := jkHeaderRsp ++ [2, 0] ++ List.replicate 36 0

/-- Those between the voltage and the sum. -/
def slot18Back : Bytes :=
  List.replicate 74 0 ++ [0xE4, 0x0C, 0, 0] ++ List.replicate 19 0 ++ [50] ++ List.replicate 157 0

/-- A pack of 24 slots whose slot 18 holds the one cell, with a voltage in millivolts and the
sum of the frame. -/
def slot18Frame (mv : ℕ) (sum : UInt8) : Bytes :=
  slot18Front ++ (UInt8.ofNat mv :: UInt8.ofNat (mv / 256) :: (slot18Back ++ [sum]))

/-- What a frame of that pack is decoded to. -/
def slot18Info (mv : ℕ) (sum : UInt8) : JkCellInfo :=
  (jkDecodeCellInfo (slot18Frame mv sum) .jk02_24s 0).1

theorem slot18_decoded {mv : ℕ} {sum : UInt8}
    (h : (jkDecodeCellInfo (slot18Frame mv sum) .jk02_24s 0).2 = .ok) :
    jkDecodeCellInfo (slot18Frame mv sum) .jk02_24s 0 = (slot18Info mv sum, .ok) := by
  unfold slot18Info
  generalize jkDecodeCellInfo (slot18Frame mv sum) .jk02_24s 0 = decoded at h ⊢
  exact Prod.ext rfl h

/-- One millivolt more in that slot. -/
theorem slot18_change : VoltageChange 18 (slot18Frame 3300 142) (slot18Frame 3301 143) := by
  have hfront : slot18Front.length = 42 := by decide +kernel
  have hback : slot18Back.length = 255 := by decide +kernel
  refine ⟨by decide +kernel, by decide +kernel, ?_⟩
  intro j hlow hhigh hsum
  unfold slot18Frame
  rcases Nat.lt_or_ge j 42 with hj | hj
  · rw [List.getD_append _ _ _ _ (by omega), List.getD_append _ _ _ _ (by omega)]
  · rw [List.getD_append_right _ _ _ _ (by omega), List.getD_append_right _ _ _ _ (by omega),
      hfront]
    obtain ⟨k, hk⟩ : ∃ k, j - 42 = k + 2 := ⟨j - 44, by omega⟩
    rw [hk, List.getD_cons_succ, List.getD_cons_succ, List.getD_cons_succ, List.getD_cons_succ]
    rcases Nat.lt_or_ge k 255 with hin | hout
    · rw [List.getD_append _ _ _ _ (by omega), List.getD_append _ _ _ _ (by omega)]
    · have hover : ∀ sum : UInt8, (slot18Back ++ [sum]).length ≤ k := by
        intro sum
        rw [List.length_append, List.length_singleton]
        omega
      rw [List.getD_eq_default _ _ (hover _), List.getD_eq_default _ _ (hover _)]

/-- A millivolt more in slot 18 is a millivolt more of the average, too. -/
theorem slot18_shared :
    ¬∀ (i : ℕ) (data data' : Bytes) (proto : JkProto) (expectedCells : ℕ) (r r' : JkCellInfo),
      VoltageChange i data data' → i < proto.slots → populated data i = true →
        populated data' i = true → jkDecodeCellInfo data proto expectedCells = (r, .ok) →
          jkDecodeCellInfo data' proto expectedCells = (r', .ok) →
            withoutVoltage i r' = withoutVoltage i r := by
  intro h
  have hpop : populated (slot18Frame 3300 142) 18 = true := by decide +kernel
  have hpop' : populated (slot18Frame 3301 143) 18 = true := by decide +kernel
  have heq := h 18 _ _ .jk02_24s 0 _ _ slot18_change (by decide) hpop hpop'
    (slot18_decoded (by decide +kernel)) (slot18_decoded (by decide +kernel))
  have haverage := congrArg JkCellInfo.averageCellV heq
  revert haverage
  decide +kernel

/-- The theorem at that slot. -/
theorem voltage_alone_iff_slot18 :
    withoutVoltage 18 (slot18Info 3301 143) = withoutVoltage 18 (slot18Info 3300 142) ↔
      OwnBytes (slot18Frame 3300 142) .jk02_24s 18 := by
  have hpop : populated (slot18Frame 3300 142) 18 = true := by decide +kernel
  have hpop' : populated (slot18Frame 3301 143) 18 = true := by decide +kernel
  exact voltage_alone_iff slot18_change (by decide) hpop hpop'
    (slot18_decoded (by decide +kernel)) (slot18_decoded (by decide +kernel))

end MoonFlare.Jk
