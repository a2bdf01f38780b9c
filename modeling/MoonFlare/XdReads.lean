import MoonFlare.CheckedReads
import MoonFlare.XdBattery

/-!
# The bytes a realtime reply is read at

The parser of a realtime reply finds its sections by counts that the reply itself holds, so
where it reads next depends on what it read before. Here it is written as the reads it
makes, in their order, on the payload buffer that a reply may fill only in part.
-/

namespace MoonFlare.Xd

open Binary Reads

/-- Two bytes as a number, the higher one first. -/
def peek16 (i : ℕ) : Reads UInt8 ℕ := do
  let hi ← peek i
  let lo ← peek (i + 1)
  pure (hi.toNat * 256 + lo.toNat)

/-- A cell of a frame. -/
def readCell (i : ℕ) : Reads UInt8 (ℚ × Bool) := do
  let hi ← peek (2 * i + 2)
  let lo ← peek (2 * i + 3)
  pure (f64 ((hi.toNat % 32 * 256 + lo.toNat : ℕ) / 1000), decide (128 ≤ hi.toNat))

/-- A temperature of a frame with `n` cells. -/
def readTemp (n i : ℕ) : Reads UInt8 ℚ := do
  let x ← peek (17 + 2 * n + 2 * i)
  pure (x.toNat - 50)

/-- The number of temperatures that a count byte stands for. -/
def tempCountOf (x : UInt8) : ℕ :=
  min (if x.toNat < 2 ∨ 6 < x.toNat then 5 else x.toNat) bmsMaxTemps

/-- A byte of the status that short frames leave out. -/
def peekWithin (len i : ℕ) : Reads UInt8 UInt8 := if i < len then peek i else pure 0

/-- The pack level fields of a frame, which start `base` bytes late. -/
def readPack (len base : ℕ) (r : BmsRealtime) : Reads UInt8 (BmsRealtime × Bool) := do
  let cycles ← peek16 (30 + base)
  let volts ← peek16 (34 + base)
  let soh ← peek16 (38 + base)
  let status ← each (fun i => peek (18 + base + i)) (List.range 10)
  let tenth ← peekWithin len (42 + base)
  let eleventh ← peekWithin len (43 + base)
  pure ({ r with
    cycles := cycles
    packVoltageV := f64 (volts / 100)
    sohPct := f64 (soh / 100)
    rawStatus := status ++ [tenth, eleventh] }, true)

/-- The rest of a frame with `n` cells, from the temperature count on. -/
def readCells (len n : ℕ) (r : BmsRealtime) : Reads UInt8 (BmsRealtime × Bool) := do
  let t := tempCountOf (← peek (15 + 2 * n))
  let cells ← each readCell (List.range n)
  let current ← peek16 (4 + 2 * n)
  let soc ← peek16 (8 + 2 * n)
  let full ← peek16 (12 + 2 * n)
  let temps ← each (readTemp n) (List.range t)
  let r := { r with
    cellCount := n
    tempCount := t
    cells := cells
    currentA := f64 ((30000 - current : ℚ) / 100)
    socPct := f64 (soc / 100)
    fullCapacityAh := f64 (full / 100)
    remainingCapacityAh := f64 (f64 (f64 (full / 100) * f64 (soc / 100)) / 100)
    temperaturesC := temps }
  if len ≤ 39 + (2 * n + 2 * t) then pure (r, false) else readPack len (2 * n + 2 * t) r

/-- `bms_parse_realtime` on a body of `len` bytes, as the reads it makes. -/
def readRealtime (len : ℕ) (r : BmsRealtime) : Reads UInt8 (BmsRealtime × Bool) :=
  if len < 2 then pure (r, false)
  else do
    let n ← peek 1
    if n.toNat = 0 ∨ bmsMaxCells < n.toNat then pure (r, false)
    else if len ≤ 15 + 2 * n.toNat then pure (r, false)
    else readCells len n.toNat r

/-- The payload buffer, which is zeroed in front of every command. -/
def payload (b : Bytes) (i : ℕ) : UInt8 := b.getD i 0

/-- How many bytes the counts of a body announce: the fields up to the state of health. -/
def announced (b : Bytes) : ℕ :=
  let n := byteAt b 1
  40 + 2 * n + 2 * tempCountAt b (15 + 2 * n)

/-- A body is read only inside, and refused when it is shorter than it announces. -/
structure ReadWithin (b : Bytes) (r : BmsRealtime) : Prop where
  inside : ∃ a, (readRealtime b.length r).check b = .ok a
  refused : b.length < announced b → (bmsParseRealtime b r).2 = false

/-- A body that ends behind its temperature count, in front of the last temperature. -/
def EndsInTemps (b : Bytes) : Prop :=
  let n := byteAt b 1
  (1 ≤ n ∧ n ≤ bmsMaxCells) ∧ 15 + 2 * n < b.length ∧
    b.length ≤ 15 + 2 * n + 2 * tempCountAt b (15 + 2 * n)

/-! ## The reads make the parser -/

theorem eval_peek16 (b : Bytes) (i : ℕ) : (peek16 i).eval (payload b) = be16 b i := by
  simp [peek16, be16, byteAt, payload]

theorem eval_peekWithin (b : Bytes) (i : ℕ) :
    (peekWithin b.length i).eval (payload b) = b.getD i 0 := by
  unfold peekWithin
  split
  · rfl
  · next h =>
    rw [eval_pure, List.getD_eq_default _ _ (not_lt.mp h)]

theorem eval_readCell (b : Bytes) : (fun i => (readCell i).eval (payload b)) = frameCell b := by
  funext i
  simp [readCell, frameCell, byteAt, payload]

theorem eval_readTemp (b : Bytes) (n : ℕ) :
    (fun i => (readTemp n i).eval (payload b)) = frameTemp b n := by
  funext i
  simp [readTemp, frameTemp, byteAt, payload]

/-- The twelve bytes of the status. -/
theorem status_eq (b : Bytes) (base : ℕ) :
    (List.range 10).map (fun i => payload b (18 + base + i)) ++
        [b.getD (42 + base) 0, b.getD (43 + base) 0] =
      (List.range 12).map fun i =>
        if i < 10 then b.getD (18 + base + i) 0 else b.getD (32 + base + i) 0 := by
  have h10 : 42 + base = 32 + base + 10 := by omega
  have h11 : 43 + base = 32 + base + 11 := by omega
  rw [h10, h11]
  rfl

theorem eval_readPack (b : Bytes) (base : ℕ) (r : BmsRealtime) :
    (readPack b.length base r).eval (payload b) = ({ r with
      cycles := be16 b (30 + base)
      packVoltageV := f64 (be16 b (34 + base) / 100)
      sohPct := f64 (be16 b (38 + base) / 100)
      rawStatus := (List.range 12).map fun i =>
        if i < 10 then b.getD (18 + base + i) 0 else b.getD (32 + base + i) 0 }, true) := by
  rw [← status_eq]
  simp only [readPack, eval_bind, eval_peek16, eval_each, eval_peek, eval_peekWithin, eval_pure]

/-- The reads, run on the payload buffer, are `bms_parse_realtime`. -/
theorem eval_readRealtime (b : Bytes) (r : BmsRealtime) :
    (readRealtime b.length r).eval (payload b) = bmsParseRealtime b r := by
  have hn : (payload b 1).toNat = byteAt b 1 := rfl
  have ht (i : ℕ) : tempCountOf (payload b i) = tempCountAt b i := rfl
  unfold readRealtime bmsParseRealtime
  split
  · rfl
  simp only [eval_bind, eval_peek, hn]
  split
  · rfl
  split
  · rfl
  simp only [readCells, eval_bind, eval_peek, eval_each, eval_readCell, eval_peek16,
    eval_readTemp, ht]
  split
  · rfl
  · rw [eval_readPack]
    rfl

/-! ## Where it reads -/

theorem inside_peek16 (mem : ℕ → UInt8) (n i : ℕ) : Inside mem n (peek16 i) ↔ i + 1 < n := by
  simp only [peek16, inside_bind, inside_peek, inside_pure, and_true]
  omega

theorem inside_peekWithin (mem : ℕ → UInt8) (n i : ℕ) : Inside mem n (peekWithin n i) := by
  unfold peekWithin
  split
  · next h => exact (inside_peek n i).mpr h
  · exact inside_pure n 0

/-- The fields behind the temperatures are checked before they are read. -/
theorem inside_readPack (mem : ℕ → UInt8) {len base : ℕ} (hlen : 39 + base < len)
    (r : BmsRealtime) : Inside mem len (readPack len base r) := by
  simp only [readPack, inside_bind, inside_peek16, inside_each, inside_peek, inside_pure,
    List.mem_range, inside_peekWithin, and_true]
  refine ⟨by omega, by omega, by omega, fun i hi => by omega⟩

/-- The cells and the fields behind them are in front of the temperature count, the
temperatures are behind it. -/
theorem inside_readCells {b : Bytes} {n : ℕ} (hlen : 15 + 2 * n < b.length) (r : BmsRealtime) :
    Inside (payload b) b.length (readCells b.length n r) ↔
      15 + 2 * n + 2 * tempCountAt b (15 + 2 * n) < b.length := by
  have ht : tempCountOf (payload b (15 + 2 * n)) = tempCountAt b (15 + 2 * n) := rfl
  have hcells (i : ℕ) (hi : i < n) : Inside (payload b) b.length (readCell i) := by
    simp only [readCell, inside_bind, inside_peek, inside_pure, and_true]
    omega
  have htemps : (∀ i < tempCountAt b (15 + 2 * n), Inside (payload b) b.length (readTemp n i)) ↔
      15 + 2 * n + 2 * tempCountAt b (15 + 2 * n) < b.length := by
    simp only [readTemp, inside_bind, inside_peek, inside_pure, and_true]
    constructor
    · intro h
      rcases Nat.eq_zero_or_pos (tempCountAt b (15 + 2 * n)) with hzero | hpos
      · omega
      · have hlast := h (tempCountAt b (15 + 2 * n) - 1) (by omega)
        omega
    · intro h i hi
      omega
  simp only [readCells, inside_bind, inside_peek, inside_each, inside_peek16, eval_peek, ht,
    List.mem_range, htemps]
  refine ⟨fun h => h.2.2.2.2.2.1, fun h => ⟨hlen, hcells, by omega, by omega, by omega, h, ?_⟩⟩
  split
  · exact inside_pure _ _
  · next hlong => exact inside_readPack _ (by omega) _

theorem inside_readRealtime (b : Bytes) (r : BmsRealtime) :
    Inside (payload b) b.length (readRealtime b.length r) ↔ ¬EndsInTemps b := by
  have hn : (payload b 1).toNat = byteAt b 1 := rfl
  unfold readRealtime EndsInTemps
  dsimp only
  split
  · refine ⟨fun _ hends => ?_, fun _ => inside_pure _ _⟩
    omega
  · simp only [inside_bind, inside_peek, eval_peek, hn]
    split
    · refine ⟨fun _ hends => ?_, fun _ => ⟨by omega, inside_pure _ _⟩⟩
      omega
    · split
      · refine ⟨fun _ hends => ?_, fun _ => ⟨by omega, inside_pure _ _⟩⟩
        omega
      · next hcount hlong =>
        rw [inside_readCells (by omega) r]
        omega

/-- A body shorter than it announces is refused. -/
theorem refused_of_short {b : Bytes} (h : b.length < announced b) (r : BmsRealtime) :
    (bmsParseRealtime b r).2 = false := by
  unfold announced at h
  dsimp only at h
  unfold bmsParseRealtime
  dsimp only
  split
  · rfl
  split
  · rfl
  split
  · rfl
  · rw [if_pos (by omega)]

/-- A realtime reply is read only inside exactly when it does not end between its
temperature count and its last temperature. -/
theorem read_within_iff (b : Bytes) (r : BmsRealtime) : ReadWithin b r ↔ ¬EndsInTemps b := by
  have hmem (i : ℕ) (h : i < b.length) : payload b i = b[i] := List.getD_eq_getElem _ _ h
  rw [← inside_readRealtime b r]
  constructor
  · rintro ⟨⟨a, ha⟩, -⟩
    exact ((check_eq_ok_iff hmem _ a).mp ha).1
  · intro hinside
    exact ⟨⟨_, (check_eq_ok_iff hmem _ _).mpr ⟨hinside, rfl⟩⟩, fun h => refused_of_short h r⟩

/-- A reply of one cell that ends with its temperature count. -/
def shortReply : Bytes := [0, 1] ++ List.replicate 16 0

/-- The first temperature is read behind the end of the reply. -/
theorem temperature_read_outside : ¬ReadWithin shortReply BmsRealtime.zero := by
  rintro ⟨⟨a, ha⟩, -⟩
  have herr : (readRealtime shortReply.length BmsRealtime.zero).check shortReply = .error 19 := by
    decide +kernel
  rw [herr] at ha
  cases ha

end MoonFlare.Xd
