import MoonFlare.ClassicCharger
import MoonFlare.JkBattery
import MoonFlare.XdBattery

/-!
# Readings after a rejected frame

Each of the three decoders writes into the structure its plugin prints, and the
plugins keep publishing when the decoder gives up. What is published afterwards
is compared with what was published before, value by value as printed.
-/

namespace MoonFlare.Publication

/-- What is published is what was published before, or nothing. -/
def Undisturbed {α : Type} (before after : Option α) : Prop := after = before ∨ after = none

theorem undisturbed_iff {α : Type} {before after : Option α} (h : after ≠ none) :
    Undisturbed before after ↔ after = before := by
  simp [Undisturbed, h]

section Xd

open Xd

/-- The checks `bms_parse_realtime` makes before it writes anything. -/
def RefusedUnwritten (b : Bytes) : Prop :=
  b.length < 2 ∨ byteAt b 1 = 0 ∨ bmsMaxCells < byteAt b 1 ∨ b.length ≤ 15 + 2 * byteAt b 1

/-- The values in the first part of a frame print as those of a structure. -/
structure FramePrintsAs (b : Bytes) (r : BmsRealtime) : Prop where
  cellCount : byteAt b 1 = r.cellCount
  cells : (List.range (byteAt b 1)).map (fun i => printedCell (frameCell b i)) =
    r.cells.map printedCell
  current : Fixed.ofRat 2 (frameCurrent b (byteAt b 1)) = Fixed.ofRat 2 r.currentA
  power : printedPower r.packVoltageV (frameCurrent b (byteAt b 1)) =
    printedPower r.packVoltageV r.currentA
  soc : Fixed.ofRat 2 (frameSoc b (byteAt b 1)) = Fixed.ofRat 2 r.socPct
  full : Fixed.ofRat 2 (frameFull b (byteAt b 1)) = Fixed.ofRat 2 r.fullCapacityAh
  remaining : Fixed.ofRat 2 (frameRemaining b (byteAt b 1)) = Fixed.ofRat 2 r.remainingCapacityAh
  temperatures : (List.range (tempCountAt b (15 + 2 * byteAt b 1))).map
      (fun i => Fixed.ofRat 1 (frameTemp b (byteAt b 1) i)) =
    r.temperaturesC.map (Fixed.ofRat 1)

/-- The structure after a refused frame: as it was, or with the first part of
the frame in it. -/
theorem bmsParseRealtime_refused {b : Bytes} {r r' : BmsRealtime}
    (h : bmsParseRealtime b r = (r', false)) :
    RefusedUnwritten b ∧ r' = r ∨ ¬RefusedUnwritten b ∧ r' = { r with
      cellCount := byteAt b 1
      tempCount := tempCountAt b (15 + 2 * byteAt b 1)
      cells := (List.range (byteAt b 1)).map (frameCell b)
      currentA := frameCurrent b (byteAt b 1)
      socPct := frameSoc b (byteAt b 1)
      fullCapacityAh := frameFull b (byteAt b 1)
      remainingCapacityAh := frameRemaining b (byteAt b 1)
      temperaturesC := (List.range (tempCountAt b (15 + 2 * byteAt b 1))).map
        (frameTemp b (byteAt b 1)) } := by
  unfold bmsParseRealtime at h
  split at h
  case isTrue hlen =>
    simp only [Prod.mk.injEq, and_true] at h
    exact Or.inl ⟨Or.inl hlen, h.symm⟩
  case isFalse hlen =>
    simp only at h
    split at h
    case isTrue hcells =>
      simp only [Prod.mk.injEq, and_true] at h
      exact Or.inl ⟨Or.inr (hcells.imp_right Or.inl), h.symm⟩
    case isFalse hcells =>
      split at h
      case isTrue hshort =>
        simp only [Prod.mk.injEq, and_true] at h
        exact Or.inl ⟨Or.inr (Or.inr (Or.inr hshort)), h.symm⟩
      case isFalse hshort =>
        split at h
        · simp only [Prod.mk.injEq, and_true] at h
          refine Or.inr ⟨?_, h.symm⟩
          rintro (h1 | h1 | h1 | h1)
          · exact hlen h1
          · exact hcells (Or.inl h1)
          · exact hcells (Or.inr h1)
          · exact hshort h1
        · simp at h

/-- What the battery publishes after a refused realtime frame is undisturbed
exactly when the frame was refused before its first write, or the values in
its first part print as the published ones. -/
theorem xdPublished_refused_iff {c : XdCtx} (hdata : c.haveData = true)
    (hphase : c.cmdPhase = .poll) {body : Bytes} {rt : BmsRealtime}
    (h : bmsParseRealtime body c.rt = (rt, false)) (now : ℚ) :
    Undisturbed (xdPublished c) (xdPublished (onReply c now body).1) ↔
      RefusedUnwritten body ∨ FramePrintsAs body c.rt := by
  have hafter : xdPublished (onReply c now body).1 =
      some (XdReading.ofRealtime rt c.firmware.str c.barcode.str) := by
    simp only [onReply, hphase, h, xdPublished, hdata, if_true]
  have hbefore : xdPublished c =
      some (XdReading.ofRealtime c.rt c.firmware.str c.barcode.str) := by
    simp only [xdPublished, hdata, if_true]
  rw [hafter, hbefore, undisturbed_iff (Option.some_ne_none _), Option.some.injEq]
  rcases bmsParseRealtime_refused h with ⟨hun, rfl⟩ | ⟨hun, rfl⟩
  · exact iff_of_true rfl (Or.inl hun)
  · simp only [hun, false_or, XdReading.ofRealtime, XdReading.mk.injEq, List.map_map, true_and]
    constructor
    · rintro ⟨h1, h2, h3, h4, h5, h6, h7, h8⟩
      exact ⟨h4, h7, h1, h2, h3, h5, h6, h8⟩
    · rintro ⟨h1, h2, h3, h4, h5, h6, h7, h8⟩
      exact ⟨h3, h4, h5, h1, h6, h7, h2, h8⟩

end Xd

section Classic

open Classic

/-- Decoding that meets no missing register writes every field. -/
theorem decodeFields_ok {input : ClassicRegisters} {fields : List FieldRead} {d d' : ClassicData}
    (h : decodeFields input fields d = (d', .ok)) :
    d' = fields.foldl (fun d f => f.write input.regs d) d := by
  induction fields generalizing d with
  | nil => simpa [decodeFields] using h.symm
  | cons f fields ih =>
    rw [decodeFields] at h
    split at h
    · simp at h
    · exact ih h

/-- Every charge stage has a name. -/
theorem classicChargeStageName_nonempty (msb : ℕ) :
    (CBuf.copy 16 (classicChargeStageName msb)).str.nonempty = true := by
  have hunknown (s : CString) :
      (CBuf.copy 16 (CString.lit "Unknown(" ++ s ++ CString.lit ")")).str.nonempty = true := by
    have hu : (CString.lit "Unknown(").bytes = [85, 110, 107, 110, 111, 119, 110, 40] := by decide
    simp [CString.nonempty, hu]
  unfold classicChargeStageName
  split
  case h_9 => exact hunknown _
  all_goals decide

/-- An accepted reply names its charge stage. -/
theorem classicDecode_stage {input : ClassicRegisters} {d : ClassicData}
    (h : classicDecode input = (d, .ok)) : d.chargeStageName.str.nonempty = true := by
  unfold classicDecode at h
  split at h
  · simp at h
  · simp only at h
    split at h
    · simp at h
    · rw [decodeFields_ok h]
      exact classicChargeStageName_nonempty _

/-- A refused reply leaves a structure without a charge stage. -/
theorem classicDecode_refused {c : ClassicCtx} {d : ClassicData} {rc : ClassicResult}
    (h : classicDecode (replyRegisters c) = (d, rc)) (hrc : rc ≠ .ok) :
    d.chargeStageName = CBuf.zero 16 := by
  have hpresent : ∀ f ∈ classicFields, f.addresses.any (fun a => regImage ≤ a) = false := by
    simp [classicFields, regImage]
  have hall : ∀ (fields : List FieldRead) (d : ClassicData), (∀ f ∈ fields, f ∈ classicFields) →
      (decodeFields (replyRegisters c) fields d).2 = .ok := by
    intro fields
    induction fields with
    | nil => exact fun _ _ => rfl
    | cons f fields ih =>
      intro d hmem
      have hf : (f.addresses.any fun a => decide ((replyRegisters c).regCount ≤ a)) = false :=
        hpresent f (hmem f List.mem_cons_self)
      simp only [decodeFields, hf, Bool.false_eq_true, if_false]
      exact ih _ fun g hg => hmem g (List.mem_cons_of_mem f hg)
  unfold classicDecode at h
  split at h
  · cases h
    rfl
  · simp only at h
    split at h
    · cases h
      rfl
    · exact absurd (congrArg Prod.snd h.symm |>.trans (hall classicFields _ fun f hf => hf)) hrc

/-- A reading that came from an accepted reply of a named unit. -/
structure GoodReading (c : ClassicCtx) : Prop where
  haveData : c.haveData = true
  unit : c.unitOk ≠ 0
  accepted : ∃ input, classicDecode input = (c.data, .ok)

/-- No unit tried is 0. -/
theorem currentUnit_ne_zero {c : ClassicCtx} (h : (0 : ℤ) ∉ c.unitTry) : currentUnit c ≠ 0 := by
  intro h0
  unfold currentUnit at h0
  rcases lt_or_ge c.itry c.unitTry.length with hlt | hge
  · rw [List.getD_eq_getElem _ _ hlt] at h0
    exact h (h0 ▸ List.getElem_mem hlt)
  · rw [List.getD_eq_default _ _ hge] at h0
    simp at h0

/-- An accepted reply leaves a good reading. -/
theorem goodReading_of_accepted {e : ClassicEnv} {c : ClassicCtx} (hunits : (0 : ℤ) ∉ c.unitTry)
    (h : (parseFc3 e c).2 = .ok) : GoodReading (parseFc3 e c).1 := by
  unfold parseFc3 at h ⊢
  split at h
  case h_1 hframe =>
    rcases hd : classicDecode (replyRegisters c) with ⟨d, rc⟩
    rw [hd] at h
    cases rc with
    | ok => exact ⟨rfl, currentUnit_ne_zero hunits, replyRegisters c, hd⟩
    | typeMismatch => simp at h
    | missingReg => simp at h
  case h_2 hframe => exact absurd h (by simpa using hframe)

/-- What a reading of the charger depends on. -/
theorem classicPublished_congr {c c' : ClassicCtx} (hunit : c.unitOk ≠ 0)
    (h : c'.haveData = c.haveData ∧ c'.data = c.data ∧ c'.unitOk = c.unitOk) :
    classicPublished c' = classicPublished c := by
  obtain ⟨h1, h2, h3⟩ := h
  simp only [classicPublished, readingUnit, h1, h2, h3, hunit, ne_eq, not_false_eq_true, if_true]

theorem startConnect_kept (e : ClassicEnv) (c : ClassicCtx) :
    (startConnect e c).1.haveData = c.haveData ∧ (startConnect e c).1.data = c.data ∧
      (startConnect e c).1.unitOk = c.unitOk := by
  unfold startConnect
  cases e.connectError <;> exact ⟨rfl, rfl, rfl⟩

/-- The error path keeps what readings print. -/
theorem failStep_kept (e : ClassicEnv) (c : ClassicCtx) :
    (failStep e c).1.haveData = c.haveData ∧ (failStep e c).1.data = c.data ∧
      (failStep e c).1.unitOk = c.unitOk := by
  unfold failStep nextUnitOrReconnect
  simp only
  split
  · exact ⟨rfl, rfl, rfl⟩
  · obtain ⟨h1, h2, h3⟩ := startConnect_kept e { sockClose c with itry := (sockClose c).itry + 1 }
    exact ⟨h1, h2, h3⟩

/-- What the receive loop does with a chunk that completes a refused reply. -/
theorem recvLoop_refused {e : ClassicEnv} {c : ClassicCtx} {b : Bytes} (rest : List RecvResult)
    (hroom : c.rx.length < rxCap)
    (h : (parseFc3 e (receive c b)).2 = .bad ∨ (parseFc3 e (receive c b)).2 = .exception) :
    (recvLoop e (.chunk b :: rest) c).1.haveData = (parseFc3 e (receive c b)).1.haveData ∧
      (recvLoop e (.chunk b :: rest) c).1.data = (parseFc3 e (receive c b)).1.data ∧
      (recvLoop e (.chunk b :: rest) c).1.unitOk = (parseFc3 e (receive c b)).1.unitOk := by
  rw [recvLoop, if_neg (by omega)]
  rcases hp : parseFc3 e (receive c b) with ⟨c', r⟩
  rw [hp] at h
  rcases h with rfl | rfl
  · exact failStep_kept e c'
  · exact failStep_kept e { c' with err := CBuf.copy 96 (CString.lit "modbus exception") }

/-- What the charger publishes after a refused reply is undisturbed exactly when
the reply was refused before the registers in it were decoded. -/
theorem classicPublished_refused_iff {e : ClassicEnv} {c : ClassicCtx} {b : Bytes}
    (hgood : GoodReading c) (hroom : c.rx.length < rxCap)
    (h : (parseFc3 e (receive c b)).2 = .bad ∨ (parseFc3 e (receive c b)).2 = .exception)
    (rest : List RecvResult) :
    Undisturbed (classicPublished c) (classicPublished (recvLoop e (.chunk b :: rest) c).1) ↔
      fc3Frame (receive c b) ≠ .ok := by
  obtain ⟨hdata, hunit, input, haccepted⟩ := hgood
  obtain ⟨hk1, hk2, hk3⟩ := recvLoop_refused rest hroom h
  have hkept : (parseFc3 e (receive c b)).1.haveData = true := by
    unfold parseFc3
    split
    · split <;> first | rfl | exact hdata
    · exact hdata
  rw [undisturbed_iff (by simp [classicPublished, hk1, hkept])]
  by_cases hframe : fc3Frame (receive c b) = .ok
  · refine iff_of_false (fun heq => ?_) (not_not_intro hframe)
    rcases hd : classicDecode (replyRegisters (receive c b)) with ⟨d, rc⟩
    have hrc : rc ≠ .ok := by
      rintro rfl
      simp [parseFc3, hframe, hd] at h
    have hparse : (parseFc3 e (receive c b)).1.data = d := by
      unfold parseFc3
      rw [hframe]
      simp only [hd]
    rw [classicPublished, classicPublished, hk1, hkept, hdata, if_pos rfl, if_pos rfl, hk2,
      hparse, Option.some.injEq] at heq
    have hstage := congrArg ClassicReading.chargeStage heq
    simp only [ClassicReading.ofData, classicDecode_refused hd hrc, CBuf.str_zero] at hstage
    have hnamed := classicDecode_stage haccepted
    rw [← hstage] at hnamed
    simp at hnamed
  · refine iff_of_true (classicPublished_congr hunit ?_) hframe
    have hparse : (parseFc3 e (receive c b)).1 = receive c b := by
      unfold parseFc3
      split
      · contradiction
      · rfl
    rw [hk1, hk2, hk3, hparse]
    exact ⟨rfl, rfl, rfl⟩

end Classic

section Jk

open Jk

/-- What `jk_decode_cell_info` requires of a frame before it reads a field. -/
def Intact (data : Bytes) : Prop :=
  jkFrameSize ≤ data.length ∧ data.take 4 = jkHeaderRsp ∧ data.getD 4 0 = jkFrameCellInfo ∧
    jkCrc8 (data.take (jkFrameSize - 1)) = data.getD 299 0

/-- The values of a frame print as the published ones, no cell of it marked as
balancing. -/
structure CellInfoPrintsAs (data : Bytes) (c : JkCtx) : Prop where
  pack : Fixed.ofRat 3 (milli (jkU32 data 150)) = Fixed.ofRat 3 c.cell.packVoltageV
  current : Fixed.ofRat 2 (milli (jkI32 data 158)) = Fixed.ofRat 2 c.cell.currentA
  power : Jk.printedPower (milli (jkU32 data 150)) (milli (jkI32 data 158)) =
    Jk.printedPower c.cell.packVoltageV c.cell.currentA
  soc : Fixed.ofRat 1 (jkByte data 173) = Fixed.ofRat 1 c.cell.socPct
  soh : Fixed.ofRat 1 (jkByte data 190) = Fixed.ofRat 1 c.cell.sohPct
  full : Fixed.ofRat 2 (milli (jkU32 data 178)) = Fixed.ofRat 2 c.cell.nominalAh
  remaining : Fixed.ofRat 2 (milli (jkU32 data 174)) = Fixed.ofRat 2 c.cell.remainingAh
  chargeMosfet : jkFlag data 198 = c.cell.chargeMosfetOn
  dischargeMosfet : jkFlag data 199 = c.cell.dischargeMosfetOn
  switch : c.balWant = none ∧ c.haveSettings = false →
    (jkFlag data 201 || jkByte data 172 != 0) =
      (c.cell.balancingIndicator || c.cell.balancingAction != 0)
  indicator : jkFlag data 201 = c.cell.balancingIndicator
  balanceCurrent : Fixed.ofRat 3 (milli (jkI16 data 170)) = Fixed.ofRat 3 c.cell.balanceCurrentA
  cells : (Jk.frameCells data .jk02_32s).map (fun cell => (Fixed.ofRat 3 cell.voltageV, false)) =
    c.cell.cells.map fun cell => (Fixed.ofRat 3 cell.voltageV, cell.balancing)
  temperatures : [(CString.lit "MOS", jkTempC data 144), (CString.lit "T1", jkTempC data 162),
      (CString.lit "T2", jkTempC data 164), (CString.lit "T3", jkTempC data 258),
      (CString.lit "T4", jkTempC data 256), (CString.lit "T5", jkTempC data 254)].filterMap
        printedSensor = (sensors c.cell).filterMap printedSensor

/-- A frame's cells never outnumber its slots. -/
theorem frameCells_length_le (data : Bytes) (proto : JkProto) :
    (Jk.frameCells data proto).length ≤ proto.slots := by
  have h := List.length_filterMap_le (Jk.frameCell data proto) (List.range proto.slots)
  rwa [List.length_range] at h

/-- No cell is marked before the frame is accepted. -/
theorem frameCells_balancing {data : Bytes} {proto : JkProto} {cell : JkCell}
    (h : cell ∈ Jk.frameCells data proto) : cell.balancing = false := by
  obtain ⟨i, -, hi⟩ := List.mem_filterMap.mp h
  unfold Jk.frameCell at hi
  dsimp only at hi
  split at hi
  · simp at hi
  · rw [← Option.some.inj hi]

/-- The structure after a refused frame: zeroed, or with all of the frame's
fields in it. -/
theorem jkDecodeCellInfo_refused {data : Bytes} {proto : JkProto} {r : JkCellInfo} {rc : JkResult}
    (h : jkDecodeCellInfo data proto 0 = (r, rc)) (hrc : rc ≠ .ok) :
    ¬Intact data ∧ r = JkCellInfo.zero ∨ Intact data ∧ r = writeFields data proto
      { JkCellInfo.zero with
        enabledMask := jkU32 data (proto.at 70), cells := Jk.frameCells data proto } := by
  by_cases hintact : Intact data
  · obtain ⟨hlen, hhdr, htype, hcrc⟩ := hintact
    refine Or.inr ⟨⟨hlen, hhdr, htype, hcrc⟩, ?_⟩
    have hslots := frameCells_length_le data proto
    rw [jkDecodeCellInfo, if_neg (by omega), if_neg (by simp [hhdr]), if_neg (not_not_intro htype),
      if_neg (not_not_intro hcrc), if_neg (by simpa using hslots), if_neg (by simp)] at h
    dsimp only at h
    split at h
    · exact (congrArg Prod.fst h).symm
    · exact absurd (congrArg Prod.snd h).symm hrc
  · refine Or.inl ⟨hintact, ?_⟩
    unfold jkDecodeCellInfo at h
    split at h
    · exact (congrArg Prod.fst h).symm
    split at h
    · exact (congrArg Prod.fst h).symm
    split at h
    · exact (congrArg Prod.fst h).symm
    split at h
    · exact (congrArg Prod.fst h).symm
    · rename_i hlen hhdr htype hcrc
      exact absurd ⟨by omega, not_not.mp hhdr, not_not.mp htype, not_not.mp hcrc⟩ hintact

/-- The reading printed from a structure that holds a frame's fields. -/
theorem readingOf_writeFields_iff {data : Bytes} {c : JkCtx} {r : JkCellInfo}
    (hcells : r.cells = Jk.frameCells data .jk02_32s) :
    JkReading.ofCtx { c with cell := writeFields data .jk02_32s r } = JkReading.ofCtx c ↔
      CellInfoPrintsAs data c := by
  have hmarks : (Jk.frameCells data .jk02_32s).map
      (fun cell => (Fixed.ofRat 3 cell.voltageV, cell.balancing)) =
      (Jk.frameCells data .jk02_32s).map fun cell => (Fixed.ofRat 3 cell.voltageV, false) :=
    List.map_congr_left fun cell hcell => by rw [frameCells_balancing hcell]
  have hswitch : shownSwitch { c with cell := writeFields data .jk02_32s r } = shownSwitch c ↔
      (c.balWant = none ∧ c.haveSettings = false →
        (jkFlag data 201 || jkByte data 172 != 0) =
          (c.cell.balancingIndicator || c.cell.balancingAction != 0)) := by
    cases hw : c.balWant with
    | some want => simp [shownSwitch, hw]
    | none =>
      cases hs : c.haveSettings with
      | true => simp [shownSwitch, hw, hs]
      | false => simp [shownSwitch, hw, hs, writeFields, JkProto.at]
  simp only [JkReading.ofCtx, JkReading.mk.injEq, hswitch, true_and]
  constructor
  · rintro ⟨h1, h2, h3, h4, h5, -, h7, h8, h9, h10, h11, h12, h13, h15, h16⟩
    rw [show (writeFields data .jk02_32s r).cells = _ from hcells, hmarks] at h15
    exact ⟨h1, h2, h3, h4, h5, h7, h8, h9, h10, h11, h12, h13, h15, h16⟩
  · rintro ⟨h1, h2, h3, h4, h5, h7, h8, h9, h10, h11, h12, h13, h15, h16⟩
    have hcount := congrArg List.length h15
    simp only [List.length_map] at hcount
    refine ⟨h1, h2, h3, h4, h5, ?_, h7, h8, h9, h10, h11, h12, h13, ?_, h16⟩
    · rw [← hcount, ← hcells]
      rfl
    · rw [show (writeFields data .jk02_32s r).cells = _ from hcells, hmarks]
      exact h15

/-- What the battery publishes after a refused cell info frame is undisturbed
exactly when the frame's values print as the published ones, or the frame is
not intact and everything published prints as zero. -/
theorem jkPublished_refused_iff {c : JkCtx} (hdata : c.haveData = true) {frame : Bytes}
    (htype : frame.getD 4 0 = jkFrameCellInfo)
    (h : (jkDecodeCellInfo frame .jk02_32s 0).2 ≠ .ok) (now : ℚ) :
    Undisturbed (jkPublished c) (jkPublished (onFrame c now frame)) ↔
      Intact frame ∧ CellInfoPrintsAs frame c ∨
        ¬Intact frame ∧ JkReading.ofCtx { c with cell := JkCellInfo.zero } = JkReading.ofCtx c := by
  rcases hd : jkDecodeCellInfo frame .jk02_32s 0 with ⟨r, rc⟩
  rw [hd] at h
  have hafter : onFrame c now frame = { c with cell := r } := by
    unfold onFrame
    rw [if_pos htype, hd]
    cases rc with
    | ok => exact absurd rfl h
    | badLen => rfl
    | badHdr => rfl
    | badType => rfl
    | crc => rfl
    | notPlausible => rfl
  rw [hafter, jkPublished, jkPublished, hdata, if_pos rfl, if_pos rfl,
    undisturbed_iff (Option.some_ne_none _), Option.some.injEq]
  rcases jkDecodeCellInfo_refused hd h with ⟨hintact, rfl⟩ | ⟨hintact, rfl⟩
  · simp only [hintact, false_and, false_or, not_false_eq_true, true_and]
  · simp only [hintact, true_and, not_true_eq_false, false_and, or_false]
    exact readingOf_writeFields_iff rfl

end Jk

/-- For each module, exactly when a refused frame or reply leaves what is
published undisturbed: every other one shows zeroed or rejected values. -/
theorem undisturbed_by_refused_iff (frame : Bytes) (now : ℚ) :
    (∀ (c : Xd.XdCtx) (rt : Xd.BmsRealtime), c.haveData = true → c.cmdPhase = .poll →
      Xd.bmsParseRealtime frame c.rt = (rt, false) →
        (Undisturbed (Xd.xdPublished c) (Xd.xdPublished (Xd.onReply c now frame).1) ↔
          RefusedUnwritten frame ∨ FramePrintsAs frame c.rt)) ∧
    (∀ (e : Classic.ClassicEnv) (c : Classic.ClassicCtx) (rest : List Classic.RecvResult),
      GoodReading c → c.rx.length < Classic.rxCap →
      ((Classic.parseFc3 e (Classic.receive c frame)).2 = .bad ∨
        (Classic.parseFc3 e (Classic.receive c frame)).2 = .exception) →
        (Undisturbed (Classic.classicPublished c)
            (Classic.classicPublished (Classic.recvLoop e (.chunk frame :: rest) c).1) ↔
          Classic.fc3Frame (Classic.receive c frame) ≠ .ok)) ∧
    ∀ c : Jk.JkCtx, c.haveData = true →
      frame.getD 4 0 = Jk.jkFrameCellInfo → (Jk.jkDecodeCellInfo frame .jk02_32s 0).2 ≠ .ok →
        (Undisturbed (Jk.jkPublished c) (Jk.jkPublished (Jk.onFrame c now frame)) ↔
          Intact frame ∧ CellInfoPrintsAs frame c ∨
            ¬Intact frame ∧
              Jk.JkReading.ofCtx { c with cell := Jk.JkCellInfo.zero } = Jk.JkReading.ofCtx c) :=
  ⟨fun _ _ hdata hphase h => xdPublished_refused_iff hdata hphase h now,
    fun _ _ rest hgood hroom h => classicPublished_refused_iff hgood hroom h rest,
    fun _ hdata htype h => jkPublished_refused_iff hdata htype h now⟩

/-- A realtime frame of one cell, then zeros up to a length. -/
def oneCellFrame (mv : ℕ) (length : ℕ) : Bytes :=
  [0, 1, UInt8.ofNat (mv / 256), UInt8.ofNat mv] ++ List.replicate (length - 4) 0

/-- A battery being polled, before its first good frame. -/
def polledBattery : Xd.XdCtx :=
  { Xd.xdOpened 2 0 true CString.empty with cmdPhase := .poll }

/-- A battery with a good reading of one cell. -/
def readBattery : Xd.XdCtx := (Xd.onReply polledBattery 1 (oneCellFrame 3300 60)).1

/-- A frame that ends behind its temperatures is refused, and its cell shows in
what is published. -/
theorem truncated_frame_published :
    Xd.xdPublished readBattery ≠ none ∧
      (Xd.bmsParseRealtime (oneCellFrame 2560 18) readBattery.rt).2 = false ∧
      ¬Undisturbed (Xd.xdPublished readBattery)
        (Xd.xdPublished (Xd.onReply readBattery 3 (oneCellFrame 2560 18)).1) := by
  refine ⟨by decide +kernel, by decide +kernel, ?_⟩
  rw [undisturbed_iff (by decide +kernel)]
  decide +kernel

/-- A charger that is waiting for a reply. -/
def waitingCharger : Classic.ClassicCtx :=
  { Classic.classicOpened ⟨CBuf.zero 64, 502, 10, 5⟩
      ⟨0, 0, 0, 0, none, .ready, [], []⟩ with state := .recv }

/-- A reply whose register 4209 holds a name, and whose other registers are
zero. -/
def replyNamed (name : ℕ) : Bytes :=
  [0, 1, 0, 0, 0, 229, 10, 3, 226] ++ List.replicate 218 0 ++ Classic.putBe16 name ++
    List.replicate 6 0

/-- The step in which a reply arrives. -/
def replyStep : Classic.ClassicEnv := ⟨1, 1, 1, 1, none, .ready, [], []⟩

/-- A charger with a good reading, and another reply under way. -/
def readCharger : Classic.ClassicCtx :=
  { (Classic.parseFc3 replyStep (Classic.receive waitingCharger
      (replyNamed Classic.expectedName))).1 with rx := [] }

/-- A cell info frame without cells, with a state of charge. -/
def cellInfoFrame (soc : UInt8) : Bytes :=
  Jk.jkHeaderRsp ++ [2] ++ List.replicate 168 0 ++ [soc] ++ List.replicate 125 0 ++ [0x7C + soc]

/-- A battery with a good reading of a half full pack. -/
def readPack : Jk.JkCtx :=
  Jk.onFrame ⟨Jk.JkCellInfo.zero, ⟨0, false⟩, false, false, none, 0⟩ 1 (cellInfoFrame 50)

/-- The theorem at a frame cut short, a reply of another device, and a frame
with an impossible state of charge. -/
theorem undisturbed_by_refused_iff_cut_short :
    (Undisturbed (Xd.xdPublished readBattery)
        (Xd.xdPublished (Xd.onReply readBattery 3 (oneCellFrame 2560 18)).1) ↔
      RefusedUnwritten (oneCellFrame 2560 18) ∨
        FramePrintsAs (oneCellFrame 2560 18) readBattery.rt) ∧
    (Undisturbed (Classic.classicPublished readCharger)
        (Classic.classicPublished
          (Classic.recvLoop replyStep [.chunk (replyNamed 0)] readCharger).1) ↔
      Classic.fc3Frame (Classic.receive readCharger (replyNamed 0)) ≠ .ok) ∧
    (Undisturbed (Jk.jkPublished readPack)
        (Jk.jkPublished (Jk.onFrame readPack 2 (cellInfoFrame 150))) ↔
      Intact (cellInfoFrame 150) ∧ CellInfoPrintsAs (cellInfoFrame 150) readPack ∨
        ¬Intact (cellInfoFrame 150) ∧
          Jk.JkReading.ofCtx { readPack with cell := Jk.JkCellInfo.zero } =
            Jk.JkReading.ofCtx readPack) :=
  ⟨(undisturbed_by_refused_iff (oneCellFrame 2560 18) 3).1 readBattery
      (Xd.bmsParseRealtime (oneCellFrame 2560 18) readBattery.rt).1 (by decide +kernel)
      (by decide +kernel) (Prod.ext rfl (by decide +kernel)),
    (undisturbed_by_refused_iff (replyNamed 0) 3).2.1 replyStep readCharger []
      { haveData := by decide +kernel
        unit := by decide +kernel
        accepted := ⟨Classic.replyRegisters (Classic.receive waitingCharger
          (replyNamed Classic.expectedName)), by decide +kernel⟩ }
      (by decide +kernel) (Or.inl (by decide +kernel)),
    (undisturbed_by_refused_iff (cellInfoFrame 150) 2).2.2 readPack (by decide +kernel)
      (by decide +kernel) (by decide +kernel)⟩

end MoonFlare.Publication
