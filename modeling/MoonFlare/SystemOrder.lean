import MoonFlare.SystemTotals

/-!
# Order and range of the system totals

What one call adds does not depend on what was added before, so any two calls
commute and the totals of a list do not depend on its order. The sums stay in
range under every call, from which the figures of the last step follow. The
counts behind a known total are counts of calls; a pack's limit comes in a
call of its own, so there the caller's contract says which pack it is of.
-/

namespace MoonFlare.System

open Runs

/-! ## Order -/

/-- The sums and counts of two records added; the other figures of the first. -/
def SystemTotals.plus (t c : SystemTotals) : SystemTotals :=
  { t with
    chargersTotal := t.chargersTotal + c.chargersTotal
    chargersCounted := t.chargersCounted + c.chargersCounted
    batteriesTotal := t.batteriesTotal + c.batteriesTotal
    batteriesCounted := t.batteriesCounted + c.batteriesCounted
    inputW := t.inputW + c.inputW
    capacityWh := t.capacityWh + c.capacityWh
    storedWh := t.storedWh + c.storedWh
    chargeW := t.chargeW + c.chargeW
    batteryDischargeW := t.batteryDischargeW + c.batteryDischargeW
    inverterOutputW := t.inverterOutputW + c.inverterOutputW
    inverterOutputN := t.inverterOutputN + c.inverterOutputN
    inverterAcW := t.inverterAcW + c.inverterAcW
    inverterAcN := t.inverterAcN + c.inverterAcN
    batteryLimitW := t.batteryLimitW + c.batteryLimitW
    batteryLimitN := t.batteryLimitN + c.batteryLimitN
    invertersTotal := t.invertersTotal + c.invertersTotal
    invertersCounted := t.invertersCounted + c.invertersCounted
    inverterRatedW := t.inverterRatedW + c.inverterRatedW
    inverterRatedN := t.inverterRatedN + c.inverterRatedN
    socSum := t.socSum + c.socSum
    socN := t.socN + c.socN }

/-- The order of two records added to a third does not matter. -/
theorem plus_right_comm (t b c : SystemTotals) : (t.plus b).plus c = (t.plus c).plus b := by
  simp only [SystemTotals.plus, add_right_comm]

/-- What a call adds to empty totals. -/
def contribution (a : Addition) : SystemTotals := add (mfSystemInit 0 0) a

/-- A charger's figures do not depend on the totals they are added to. -/
theorem mfSystemAddCharger_plus (t : SystemTotals) (active online : Bool) (w : ℚ) :
    mfSystemAddCharger t active online w =
      t.plus (mfSystemAddCharger (mfSystemInit 0 0) active online w) := by
  unfold mfSystemAddCharger
  split_ifs <;> simp [SystemTotals.plus, mfSystemInit]

/-- A pack's figures do not depend on the totals they are added to. -/
theorem mfSystemAddBattery_plus (t : SystemTotals) (active online : Bool) (r : BatteryReading) :
    mfSystemAddBattery t active online r =
      t.plus (mfSystemAddBattery (mfSystemInit 0 0) active online r) := by
  by_cases hoff : (!active || !online) = true
  · simp [mfSystemAddBattery, hoff, SystemTotals.plus, mfSystemInit]
  · by_cases hcap : r.fullAh > 0 ∧ r.packV > 0 <;> by_cases hpower : r.packV * r.currentA > 0 <;>
      simp [mfSystemAddBattery, hoff, hcap, hpower, SystemTotals.plus, mfSystemInit, sub_eq_add_neg]

/-- A pack's limit does not depend on the totals it is added to. -/
theorem mfSystemAddBatteryLimit_plus (t : SystemTotals) (active online : Bool) (w : ℚ) :
    mfSystemAddBatteryLimit t active online w =
      t.plus (mfSystemAddBatteryLimit (mfSystemInit 0 0) active online w) := by
  unfold mfSystemAddBatteryLimit
  split_ifs <;> simp [SystemTotals.plus, mfSystemInit]

/-- An inverter's figures do not depend on the totals they are added to. -/
theorem mfSystemAddInverter_plus (t : SystemTotals) (active online : Bool) (r o w : ℚ) :
    mfSystemAddInverter t active online r o w =
      t.plus (mfSystemAddInverter (mfSystemInit 0 0) active online r o w) := by
  unfold mfSystemAddInverter
  split_ifs <;> simp [SystemTotals.plus, mfSystemInit]

/-- Every call adds its contribution. -/
theorem add_eq_plus (t : SystemTotals) (a : Addition) : add t a = t.plus (contribution a) := by
  cases a with
  | charger active online w => exact mfSystemAddCharger_plus t active online w
  | battery active online r => exact mfSystemAddBattery_plus t active online r
  | batteryLimit active online w => exact mfSystemAddBatteryLimit_plus t active online w
  | inverter active online r o w => exact mfSystemAddInverter_plus t active online r o w

/-- Any two calls commute. -/
theorem calls_commute (t : SystemTotals) (a b : Addition) :
    add (add t a) b = add (add t b) a := by
  simp only [add_eq_plus, plus_right_comm t (contribution a)]

/-- The totals do not depend on the order of the calls. -/
theorem systemTotals_perm (inputMaxW dischargeMaxW : ℚ) {calls calls' : List Addition}
    (hp : calls.Perm calls') :
    systemTotals inputMaxW dischargeMaxW calls = systemTotals inputMaxW dischargeMaxW calls' := by
  unfold systemTotals
  rw [run_perm calls_commute hp]

/-! ## Range -/

/-- What holds of the sums after any calls. -/
structure SumsInRange (t : SystemTotals) : Prop where
  /-- Chargers only add. -/
  input : 0 ≤ t.inputW
  /-- Nothing is stored below empty. -/
  stored : 0 ≤ t.storedWh
  /-- No more is stored than fits. -/
  capacity : t.storedWh ≤ t.capacityWh
  /-- Charge is summed apart. -/
  charge : 0 ≤ t.chargeW
  /-- So is discharge. -/
  discharge : 0 ≤ t.batteryDischargeW
  /-- Each state of charge summed is not negative. -/
  socNonneg : 0 ≤ t.socSum
  /-- Each is at most 100. -/
  socLe : t.socSum ≤ 100 * t.socN

/-- Empty totals are in range. -/
theorem sumsInRange_init (inputMaxW dischargeMaxW : ℚ) :
    SumsInRange (mfSystemInit inputMaxW dischargeMaxW) := by
  constructor <;> simp [mfSystemInit]

/-- Two records in range are in range together. -/
theorem sumsInRange_plus {t c : SystemTotals} (ht : SumsInRange t) (hc : SumsInRange c) :
    SumsInRange (t.plus c) where
  input := add_nonneg ht.input hc.input
  stored := add_nonneg ht.stored hc.stored
  capacity := add_le_add ht.capacity hc.capacity
  charge := add_nonneg ht.charge hc.charge
  discharge := add_nonneg ht.discharge hc.discharge
  socNonneg := add_nonneg ht.socNonneg hc.socNonneg
  socLe := by
    have h := add_le_add ht.socLe hc.socLe
    simp only [SystemTotals.plus, Nat.cast_add]
    linarith

/-- What a pack of some capacity stores is between nothing and that capacity. -/
theorem stored_range {fullWh soc : ℚ} (hfull : 0 < fullWh) (hlow : 0 ≤ soc) (hhigh : soc ≤ 100) :
    0 ≤ fullWh * soc / 100 ∧ fullWh * soc / 100 ≤ fullWh := by
  have hnonneg : 0 ≤ fullWh * soc := mul_nonneg hfull.le hlow
  have hle : fullWh * soc ≤ fullWh * 100 := mul_le_mul_of_nonneg_left hhigh hfull.le
  constructor <;> linarith

/-- What a pack contributes is in range. -/
theorem sumsInRange_battery (active online : Bool) (r : BatteryReading) :
    SumsInRange (contribution (.battery active online r)) := by
  have hlow : 0 ≤ r.soc := mfDisplaySoc_nonneg ..
  have hhigh : r.soc ≤ 100 := mfDisplaySoc_le ..
  have hstored : r.fullAh > 0 ∧ r.packV > 0 →
      0 ≤ r.fullAh * r.packV * r.soc / 100 ∧
        r.fullAh * r.packV * r.soc / 100 ≤ r.fullAh * r.packV := fun h =>
    stored_range (mul_pos h.1 h.2) hlow hhigh
  unfold contribution add mfSystemAddBattery mfSystemInit
  by_cases hoff : (!active || !online) = true
  · simp only [hoff, if_true]
    constructor <;> simp
  · by_cases hcap : r.fullAh > 0 ∧ r.packV > 0
    · obtain ⟨hs, hc⟩ := hstored hcap
      by_cases hpower : r.packV * r.currentA > 0 <;> simp only [hoff, hcap, hpower] <;>
        constructor <;> simp <;> linarith
    · by_cases hpower : r.packV * r.currentA > 0 <;> simp only [hoff, hcap, hpower] <;>
        constructor <;> simp <;> linarith

/-- What any call contributes is in range. -/
theorem sumsInRange_contribution (a : Addition) : SumsInRange (contribution a) := by
  cases a with
  | battery active online r => exact sumsInRange_battery active online r
  | charger active online w =>
    simp only [contribution, add, mfSystemAddCharger, mfSystemInit]
    split_ifs
    · constructor <;> simp
    · constructor <;> simp
      linarith
    · constructor <;> simp
  | batteryLimit active online w =>
    simp only [contribution, add, mfSystemAddBatteryLimit, mfSystemInit]
    split_ifs <;> constructor <;> simp
  | inverter active online r o w =>
    simp only [contribution, add, mfSystemAddInverter, mfSystemInit]
    split_ifs <;> constructor <;> simp

/-- The sums are in range after any calls. -/
theorem sumsInRange_run (inputMaxW dischargeMaxW : ℚ) (calls : List Addition) :
    SumsInRange (run add (mfSystemInit inputMaxW dischargeMaxW) calls) := by
  have hstep : ∀ t a, SumsInRange t → True → SumsInRange (add t a) := by
    intro t a ht _
    rw [add_eq_plus]
    exact sumsInRange_plus ht (sumsInRange_contribution a)
  exact invariant_run hstep (sumsInRange_init inputMaxW dischargeMaxW)
    (along_of_mem _ fun _ _ => trivial)

/-- The ranges of the finished totals. -/
structure InRange (t : SystemTotals) : Prop where
  /-- The state of charge is unknown or a percentage. -/
  soc : t.socPct = -1 ∨ 0 ≤ t.socPct ∧ t.socPct ≤ 100
  /-- Nothing is stored below empty. -/
  stored : 0 ≤ t.storedWh
  /-- No more is stored than fits. -/
  capacity : t.storedWh ≤ t.capacityWh
  /-- The load seen from the DC side is not negative. -/
  load : 0 ≤ t.loadNetW
  /-- Nor is the charge. -/
  charge : 0 ≤ t.chargeW
  /-- Nor is the input. -/
  input : 0 ≤ t.inputW
  /-- Nor is the discharge. -/
  discharge : 0 ≤ t.dischargeW

/-- A part of a positive whole is a percentage of it. -/
theorem percent_range {part whole : ℚ} (hwhole : 0 < whole) (hlow : 0 ≤ part)
    (hhigh : part ≤ whole) : 0 ≤ part / whole * 100 ∧ part / whole * 100 ≤ 100 := by
  have hnonneg : 0 ≤ part / whole := div_nonneg hlow hwhole.le
  have hle : part / whole ≤ 1 := (div_le_one hwhole).mpr hhigh
  constructor <;> linarith

/-- The last step keeps sums in range in range. -/
theorem inRange_finish {t : SystemTotals} (ht : SumsInRange t) : InRange (mfSystemFinish t) where
  soc := by
    simp only [mfSystemFinish]
    split_ifs with hcap hn
    · exact Or.inr (percent_range hcap ht.stored ht.capacity)
    · have hpos : (0 : ℚ) < t.socN := by exact_mod_cast hn
      exact Or.inr ⟨div_nonneg ht.socNonneg hpos.le, (div_le_iff₀ hpos).mpr ht.socLe⟩
    · exact Or.inl rfl
  stored := ht.stored
  capacity := ht.capacity
  load := by
    simp only [mfSystemFinish]
    split_ifs with hneg
    · exact le_rfl
    · exact not_lt.mp hneg
  charge := ht.charge
  input := ht.input
  discharge := ht.discharge

/-! ## What does not count -/

/-- The call is for an active device that is online. -/
def Addition.counted : Addition → Bool
  | .charger active online _ => active && online
  | .battery active online _ => active && online
  | .batteryLimit active online _ => active && online
  | .inverter active online _ _ _ => active && online

/-- The totals with the counters of all devices left out. -/
def SystemTotals.besidesTotals (t : SystemTotals) : SystemTotals :=
  { t with chargersTotal := 0, batteriesTotal := 0, invertersTotal := 0 }

/-- A call that does not count changes the counters of all devices at most. -/
theorem besidesTotals_add {a : Addition} (ha : a.counted = false) (t : SystemTotals) :
    (add t a).besidesTotals = t.besidesTotals := by
  cases a with
  | charger active online w =>
    have hoff : (!active || !online) = true := by simpa [Addition.counted, ← Bool.not_and] using ha
    simp [add, mfSystemAddCharger, hoff, SystemTotals.besidesTotals]
  | battery active online r =>
    have hoff : (!active || !online) = true := by simpa [Addition.counted, ← Bool.not_and] using ha
    simp [add, mfSystemAddBattery, hoff, SystemTotals.besidesTotals]
  | batteryLimit active online w =>
    have hoff : (!active || !online) = true := by simpa [Addition.counted, ← Bool.not_and] using ha
    simp [add, mfSystemAddBatteryLimit, hoff]
  | inverter active online r o w =>
    have hoff : (!active || !online) = true := by simpa [Addition.counted, ← Bool.not_and] using ha
    simp [add, mfSystemAddInverter, hoff, SystemTotals.besidesTotals]

/-- The last step does not read the counters of all devices. -/
theorem besidesTotals_finish {t u : SystemTotals} (h : t.besidesTotals = u.besidesTotals) :
    (mfSystemFinish t).besidesTotals = (mfSystemFinish u).besidesTotals := by
  have hfinish : ∀ t : SystemTotals,
      (mfSystemFinish t).besidesTotals = mfSystemFinish t.besidesTotals := fun _ => rfl
  rw [hfinish, hfinish, h]

/-- A call that does not count, anywhere in the list, changes the counters of
all devices at most. -/
theorem besidesTotals_systemTotals (inputMaxW dischargeMaxW : ℚ) {a : Addition}
    (ha : a.counted = false) (before after : List Addition) :
    (systemTotals inputMaxW dischargeMaxW (before ++ a :: after)).besidesTotals =
      (systemTotals inputMaxW dischargeMaxW (before ++ after)).besidesTotals := by
  have hlast : (before ++ a :: after).Perm (before ++ after ++ [a]) := by
    rw [List.append_assoc]
    exact List.Perm.append_left before (List.perm_append_singleton a after).symm
  rw [systemTotals_perm _ _ hlast]
  unfold systemTotals
  rw [run_append]
  exact besidesTotals_finish (besidesTotals_add ha _)

/-! ## What is known -/

/-- A counted pack. -/
def Addition.countedBattery : Addition → Bool
  | .battery active online _ => active && online
  | _ => false

/-- A counted pack's limit that is reported. -/
def Addition.reportsLimit : Addition → Bool
  | .batteryLimit active online maxDischargeW => active && online && decide (maxDischargeW > 0)
  | _ => false

/-- A counted inverter. -/
def Addition.countedInverter : Addition → Bool
  | .inverter active online _ _ _ => active && online
  | _ => false

/-- A counted inverter that reports its rating. -/
def Addition.reportsRated : Addition → Bool
  | .inverter active online ratedW _ _ => active && online && decide (ratedW > 0)
  | _ => false

/-- A counted inverter that reports its draw. -/
def Addition.reportsOutput : Addition → Bool
  | .inverter active online _ outputW _ => active && online && decide (outputW ≥ 0)
  | _ => false

/-- A counted inverter that reports its AC output. -/
def Addition.reportsAc : Addition → Bool
  | .inverter active online _ _ acOutW => active && online && decide (acOutW ≥ 0)
  | _ => false

/-- Where the calls that pass a test are as many as those that pass a weaker
one, whatever passes the weaker passes the stronger. -/
theorem passes_of_countP_eq {α : Type*} {p q : α → Bool} (hpq : ∀ a, p a = true → q a = true)
    {l : List α} (hcount : l.countP p = l.countP q) {a : α} (ha : a ∈ l) (hq : q a = true) :
    p a = true := by
  have hsub : (l.filter p).Sublist (l.filter q) := List.monotone_filter_right l hpq
  have hlen : (l.filter p).length = (l.filter q).length := by
    rw [← List.countP_eq_length_filter, ← List.countP_eq_length_filter, hcount]
  have hmem : a ∈ l.filter p := by
    rw [hsub.eq_of_length hlen]
    exact List.mem_filter.mpr ⟨ha, hq⟩
  exact (List.mem_filter.mp hmem).2

/-- A counter to which each call of a kind contributes one counts those calls. -/
theorem counter_run {f : SystemTotals → ℕ} {p : Addition → Bool}
    (hplus : ∀ t c, f (t.plus c) = f t + f c)
    (hone : ∀ a, f (contribution a) = if p a = true then 1 else 0) {t : SystemTotals}
    (hzero : f t = 0) (calls : List Addition) : f (run add t calls) = calls.countP p := by
  have hstep : ∀ t a, f (add t a) = f t + if p a = true then 1 else 0 := by
    intro t a
    rw [add_eq_plus, hplus, hone]
  rw [run_countP hstep, hzero, Nat.zero_add]

/-- What a call contributes to the counters that the known totals compare. -/
structure Counts (c : SystemTotals) (a : Addition) : Prop where
  /-- Packs counted. -/
  battery : c.batteriesCounted = if a.countedBattery = true then 1 else 0
  /-- Their limits. -/
  limit : c.batteryLimitN = if a.reportsLimit = true then 1 else 0
  /-- Inverters counted. -/
  inverter : c.invertersCounted = if a.countedInverter = true then 1 else 0
  /-- Their ratings. -/
  rated : c.inverterRatedN = if a.reportsRated = true then 1 else 0
  /-- Their draws. -/
  output : c.inverterOutputN = if a.reportsOutput = true then 1 else 0
  /-- Their AC output. -/
  ac : c.inverterAcN = if a.reportsAc = true then 1 else 0

/-- A charger contributes to none of them. -/
theorem counts_charger (active online : Bool) (w : ℚ) :
    Counts (contribution (.charger active online w)) (.charger active online w) := by
  unfold contribution add mfSystemAddCharger mfSystemInit
  by_cases hw : w > 0 <;> simp only [hw] <;> cases active <;> cases online <;> constructor <;> rfl

/-- A pack contributes to the packs counted, when it counts. -/
theorem counts_battery (active online : Bool) (r : BatteryReading) :
    Counts (contribution (.battery active online r)) (.battery active online r) := by
  unfold contribution add mfSystemAddBattery mfSystemInit
  by_cases hcap : r.fullAh > 0 ∧ r.packV > 0 <;> by_cases hpower : r.packV * r.currentA > 0 <;>
    simp only [hcap, hpower] <;> cases active <;> cases online <;> constructor <;> rfl

/-- A limit contributes to the limits, when it is reported. -/
theorem counts_batteryLimit (active online : Bool) (w : ℚ) :
    Counts (contribution (.batteryLimit active online w)) (.batteryLimit active online w) := by
  unfold contribution add mfSystemAddBatteryLimit mfSystemInit
  by_cases hw : w ≤ 0 <;> cases active <;> cases online <;> constructor <;>
    simp [hw, Addition.reportsLimit, Addition.countedBattery, Addition.countedInverter,
      Addition.reportsRated, Addition.reportsOutput, Addition.reportsAc]

/-- An inverter contributes to the inverters counted, and to each figure it reports. -/
theorem counts_inverter (active online : Bool) (r o w : ℚ) :
    Counts (contribution (.inverter active online r o w)) (.inverter active online r o w) := by
  unfold contribution add mfSystemAddInverter mfSystemInit
  by_cases hr : r > 0 <;> by_cases ho : o ≥ 0 <;> by_cases hw : w ≥ 0 <;>
    cases active <;> cases online <;> constructor <;>
    simp [hr, ho, hw, Addition.reportsLimit, Addition.countedBattery, Addition.countedInverter,
      Addition.reportsRated, Addition.reportsOutput, Addition.reportsAc]

/-- The counters of any call. -/
theorem counts_contribution (a : Addition) : Counts (contribution a) a := by
  cases a with
  | charger active online w => exact counts_charger active online w
  | battery active online r => exact counts_battery active online r
  | batteryLimit active online w => exact counts_batteryLimit active online w
  | inverter active online r o w => exact counts_inverter active online r o w

/-- The counters of the finished totals count the calls of their kind. -/
theorem systemTotals_counts (inputMaxW dischargeMaxW : ℚ) (calls : List Addition) :
    let t := systemTotals inputMaxW dischargeMaxW calls
    (t.batteriesCounted = calls.countP Addition.countedBattery ∧
      t.batteryLimitN = calls.countP Addition.reportsLimit) ∧
      t.invertersCounted = calls.countP Addition.countedInverter ∧
      t.inverterRatedN = calls.countP Addition.reportsRated ∧
      t.inverterOutputN = calls.countP Addition.reportsOutput ∧
      t.inverterAcN = calls.countP Addition.reportsAc := by
  refine ⟨⟨?_, ?_⟩, ?_, ?_, ?_, ?_⟩
  · exact counter_run (f := SystemTotals.batteriesCounted) (fun _ _ => rfl)
      (fun a => (counts_contribution a).battery) rfl calls
  · exact counter_run (f := SystemTotals.batteryLimitN) (fun _ _ => rfl)
      (fun a => (counts_contribution a).limit) rfl calls
  · exact counter_run (f := SystemTotals.invertersCounted) (fun _ _ => rfl)
      (fun a => (counts_contribution a).inverter) rfl calls
  · exact counter_run (f := SystemTotals.inverterRatedN) (fun _ _ => rfl)
      (fun a => (counts_contribution a).rated) rfl calls
  · exact counter_run (f := SystemTotals.inverterOutputN) (fun _ _ => rfl)
      (fun a => (counts_contribution a).output) rfl calls
  · exact counter_run (f := SystemTotals.inverterAcN) (fun _ _ => rfl)
      (fun a => (counts_contribution a).ac) rfl calls

/-- Inverters of which as many report a figure as are counted all report it. -/
theorem inverters_report {p : Addition → Bool}
    (hp : ∀ a, p a = true → a.countedInverter = true) {n counted : ℕ} {calls : List Addition}
    (hn : n = calls.countP p) (hcounted : counted = calls.countP Addition.countedInverter)
    (hknown : (decide (counted > 0) && decide (n = counted)) = true) {a : Addition}
    (ha : a ∈ calls) (hcall : a.countedInverter = true) : p a = true := by
  have heq : n = counted := by
    rw [Bool.and_eq_true, decide_eq_true_eq, decide_eq_true_eq] at hknown
    exact hknown.2
  exact passes_of_countP_eq hp (by rw [← hn, ← hcounted, heq]) ha hcall

/-! ## The packs' limits -/

section Callers

variable {κ : Type*}

/-- The devices of the calls that pass a test, in the calls' order. -/
def devicesOf (p : Addition → Bool) (l : List (κ × Addition)) : List κ :=
  (l.filter fun m => p m.2).map Prod.fst

/-- What the header asks of a caller: a limit is added for a counted pack, once for each. -/
def OwnLimits (l : List (κ × Addition)) : Prop :=
  (devicesOf Addition.reportsLimit l).Subperm (devicesOf Addition.countedBattery l)

/-- The limits are known only when there are as many as counted packs. -/
theorem limits_eq {inputMaxW dischargeMaxW : ℚ} {calls : List Addition}
    (hknown : mfSystemBatteryLimitKnown (systemTotals inputMaxW dischargeMaxW calls) = true) :
    calls.countP Addition.reportsLimit = calls.countP Addition.countedBattery := by
  obtain ⟨⟨hbattery, hlimit⟩, -⟩ := systemTotals_counts inputMaxW dischargeMaxW calls
  rw [← hbattery, ← hlimit]
  rw [mfSystemBatteryLimitKnown, Bool.and_eq_true, decide_eq_true_eq, decide_eq_true_eq] at hknown
  exact hknown.2

/-- Under it, the limits are known only when every counted pack reports its own. -/
theorem packs_report {inputMaxW dischargeMaxW : ℚ} {l : List (κ × Addition)}
    (hown : OwnLimits l)
    (hknown : mfSystemBatteryLimitKnown
      (systemTotals inputMaxW dischargeMaxW (l.map Prod.snd)) = true)
    {m : κ × Addition} (hm : m ∈ l) (hpack : m.2.countedBattery = true) :
    ∃ m' ∈ l, m'.1 = m.1 ∧ m'.2.reportsLimit = true := by
  have heq := limits_eq hknown
  have hlen : ∀ p : Addition → Bool, (devicesOf p l).length = (l.map Prod.snd).countP p := by
    intro p
    rw [devicesOf, List.length_map, ← List.countP_eq_length_filter, List.countP_map]
    rfl
  have hperm : (devicesOf Addition.reportsLimit l).Perm (devicesOf Addition.countedBattery l) :=
    hown.perm_of_length_le (by rw [hlen, hlen, heq])
  have hdevice : m.1 ∈ devicesOf Addition.countedBattery l :=
    List.mem_map.mpr ⟨m, List.mem_filter.mpr ⟨hm, hpack⟩, rfl⟩
  obtain ⟨m', hm', hfst⟩ := List.mem_map.mp (hperm.mem_iff.mpr hdevice)
  obtain ⟨hmem, hreports⟩ := List.mem_filter.mp hm'
  exact ⟨m', hmem, hfst, hreports⟩

/-- A device's row on the dashboard's status. -/
inductive StatusRow where
  /-- A charger and what it charges with. -/
  | charger (active online : Bool) (chargingW : ℚ)
  /-- A pack, its reading and its greatest discharge, 0 when unknown. -/
  | battery (active online : Bool) (reading : BatteryReading) (lim : ℚ)
  /-- An inverter's rating, draw and AC output. -/
  | inverter (active online : Bool) (ratedW outputW acOutW : ℚ)

/-- The calls made for a device's row. -/
def addStatusRow : StatusRow → List Addition
  | .charger active online chargingW => [.charger active online chargingW]
  | .battery active online reading lim =>
    [.battery active online reading, .batteryLimit active online lim]
  | .inverter active online ratedW outputW acOutW => [.inverter active online ratedW outputW acOutW]

/-- The calls made for all devices, each with the device it is for. -/
def statusCalls (rows : List (κ × StatusRow)) : List (κ × Addition) :=
  rows.flatMap fun row => (addStatusRow row.2).map (Prod.mk row.1)

/-- The status keeps to what the header asks. -/
theorem ownLimits_statusCalls (rows : List (κ × StatusRow)) : OwnLimits (statusCalls rows) := by
  have hsub : (devicesOf Addition.reportsLimit (statusCalls rows)).Sublist
      (devicesOf Addition.countedBattery (statusCalls rows)) := by
    induction rows with
    | nil => exact List.Sublist.refl _
    | cons row rows ih =>
      have hsplit : ∀ p : Addition → Bool, devicesOf p (statusCalls (row :: rows)) =
          devicesOf p ((addStatusRow row.2).map (Prod.mk row.1)) ++
            devicesOf p (statusCalls rows) := by
        intro p
        simp only [devicesOf, statusCalls, List.flatMap_cons, List.filter_append, List.map_append]
      rw [hsplit, hsplit]
      refine List.Sublist.append ?_ ih
      obtain ⟨device, row⟩ := row
      cases row with
      | charger active online w => exact List.Sublist.refl _
      | battery active online r lim =>
        cases active <;> cases online <;> by_cases hlim : lim > 0 <;>
          simp [devicesOf, addStatusRow, Addition.reportsLimit, Addition.countedBattery, hlim]
      | inverter active online r o w => exact List.Sublist.refl _
  exact hsub.subperm

/-! ## Totals that are known and in range -/

/-- A known total has a part of every counted device of its kind. -/
structure KnownWhole (t : SystemTotals) (l : List (κ × Addition)) : Prop where
  /-- The limits, where they are added as the header asks. -/
  limit : OwnLimits l → mfSystemBatteryLimitKnown t = true →
    ∀ m ∈ l, m.2.countedBattery = true → ∃ m' ∈ l, m'.1 = m.1 ∧ m'.2.reportsLimit = true
  /-- However they are added, as many limits as counted packs. -/
  limits : mfSystemBatteryLimitKnown t = true →
    (l.map Prod.snd).countP Addition.reportsLimit = (l.map Prod.snd).countP Addition.countedBattery
  /-- The ratings. -/
  rated : mfSystemInverterRatedKnown t = true →
    ∀ m ∈ l, m.2.countedInverter = true → m.2.reportsRated = true
  /-- The draws. -/
  output : mfSystemInverterOutputKnown t = true →
    ∀ m ∈ l, m.2.countedInverter = true → m.2.reportsOutput = true
  /-- The AC output. -/
  ac : mfSystemInverterAcKnown t = true →
    ∀ m ∈ l, m.2.countedInverter = true → m.2.reportsAc = true

/-- The finished totals know no more than the calls reported. -/
theorem knownWhole_systemTotals (inputMaxW dischargeMaxW : ℚ) (l : List (κ × Addition)) :
    KnownWhole (systemTotals inputMaxW dischargeMaxW (l.map Prod.snd)) l := by
  obtain ⟨-, hcounted, hrated, houtput, hac⟩ :=
    systemTotals_counts inputMaxW dischargeMaxW (l.map Prod.snd)
  constructor
  case limit => exact fun hown hknown m hm hpack => packs_report hown hknown hm hpack
  case limits => exact limits_eq
  case rated =>
    intro hknown m hm hcall
    refine inverters_report (fun a ha => ?_) hrated hcounted hknown (List.mem_map_of_mem hm) hcall
    cases a <;> simp_all [Addition.reportsRated, Addition.countedInverter]
  case output =>
    intro hknown m hm hcall
    refine inverters_report (fun a ha => ?_) houtput hcounted hknown (List.mem_map_of_mem hm) hcall
    cases a <;> simp_all [Addition.reportsOutput, Addition.countedInverter]
  case ac =>
    intro hknown m hm hcall
    refine inverters_report (fun a ha => ?_) hac hcounted hknown (List.mem_map_of_mem hm) hcall
    cases a <;> simp_all [Addition.reportsAc, Addition.countedInverter]

/-- The totals of any calls do not depend on their order, are in range, are
changed in the counters of all devices alone by a call that does not count,
and know a figure only when every counted device of the kind has a part in it. -/
theorem systemTotals_order_range_known (inputMaxW dischargeMaxW : ℚ)
    (l l' : List (κ × Addition)) (hp : l.Perm l') :
    systemTotals inputMaxW dischargeMaxW (l.map Prod.snd) =
        systemTotals inputMaxW dischargeMaxW (l'.map Prod.snd) ∧
      InRange (systemTotals inputMaxW dischargeMaxW (l.map Prod.snd)) ∧
      (∀ (before after : List Addition) (a : Addition),
        l.map Prod.snd = before ++ a :: after → a.counted = false →
        (systemTotals inputMaxW dischargeMaxW (l.map Prod.snd)).besidesTotals =
          (systemTotals inputMaxW dischargeMaxW (before ++ after)).besidesTotals) ∧
      KnownWhole (systemTotals inputMaxW dischargeMaxW (l.map Prod.snd)) l ∧
      ∀ rows : List (κ × StatusRow), OwnLimits (statusCalls rows) := by
  refine ⟨?_, ?_, ?_, ?_, ownLimits_statusCalls⟩
  · exact systemTotals_perm _ _ (hp.map Prod.snd)
  · exact inRange_finish (sumsInRange_run _ _ _)
  · intro before after a hl ha
    rw [hl]
    exact besidesTotals_systemTotals _ _ ha before after
  · exact knownWhole_systemTotals _ _ l

/-- A discharging pack and a charger in either order. -/
theorem systemTotals_order_range_known_pair :
    systemTotals 5000 5000 [.charger true true 800,
        .battery true true ⟨52, -10, 80, 160, 200, 16, false⟩] =
      systemTotals 5000 5000 [.battery true true ⟨52, -10, 80, 160, 200, 16, false⟩,
        .charger true true 800] :=
  (systemTotals_order_range_known 5000 5000
    [(0, .charger true true 800), (1, .battery true true ⟨52, -10, 80, 160, 200, 16, false⟩)]
    [(1, .battery true true ⟨52, -10, 80, 160, 200, 16, false⟩), (0, .charger true true 800)]
    (List.Perm.swap _ _ _)).1

end Callers

end MoonFlare.System
