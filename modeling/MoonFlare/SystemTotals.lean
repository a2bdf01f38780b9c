import MoonFlare.Runs

/-!
# The system totals

The dashboard's totals over the devices marked active: every device adds its
figures to one record, and a last step sets the figures that need all of
them. The arithmetic is exact here, the doubles of the code being rationals.
A device counts only when it is both active and online.
-/

namespace MoonFlare.System

open Runs

/-! ## The state of charge shown for a pack -/

/-- The voltage curve of a resting LFP cell: volts and percent. -/
def socPoints : List (ℚ × ℚ) :=
  [(280 / 100, 0), (300 / 100, 5), (320 / 100, 10), (325 / 100, 20), (328 / 100, 30),
    (330 / 100, 40), (333 / 100, 50), (335 / 100, 60), (337 / 100, 70), (340 / 100, 85),
    (345 / 100, 95), (350 / 100, 99), (360 / 100, 100)]

/-- The first segment of the curve that reaches the voltage, interpolated;
100 when none does. -/
def socBetween (avgCellV : ℚ) : ℚ × ℚ → List (ℚ × ℚ) → ℚ
  | _, [] => 100
  | low, high :: rest =>
    if avgCellV ≤ high.1 then
      let span := high.1 - low.1
      let t := if span > 0 then (avgCellV - low.1) / span else 0
      low.2 + t * (high.2 - low.2)
    else socBetween avgCellV high rest

/-- What the curve says of a cell voltage. -/
def voltageSoc (avgCellV : ℚ) : ℚ :=
  if avgCellV ≤ 280 / 100 then 0
  else if avgCellV ≥ 360 / 100 then 100
  else socBetween avgCellV (280 / 100, 0) socPoints.tail

/-- The state of charge after both checks, before it is clamped. -/
def uncheckedSoc (bmsSoc remAh fullAh avgCellV currentA : ℚ) (voltageCheck : Bool) : ℚ :=
  let soc := if fullAh > 0 ∧ remAh ≥ 0 then remAh / fullAh * 100 else bmsSoc
  if voltageCheck = false ∨ avgCellV ≤ 0 ∨ currentA ≤ -(1 / 2) ∨ currentA ≥ 1 / 2 then soc
  else
    let vsoc := voltageSoc avgCellV
    if soc - vsoc > 20 ∨ vsoc - soc > 20 then vsoc else soc

/-- Remaining over full when known, else the BMS's figure; at rest the curve
wins over it by more than 20 points. Clamped to a percentage. -/
def mfDisplaySoc (bmsSoc remAh fullAh avgCellV currentA : ℚ) (voltageCheck : Bool) : ℚ :=
  let soc := uncheckedSoc bmsSoc remAh fullAh avgCellV currentA voltageCheck
  let soc := if soc < 0 then 0 else soc
  if soc > 100 then 100 else soc

/-- Whatever a pack reports, the figure shown is not negative. -/
theorem mfDisplaySoc_nonneg (b r f v c : ℚ) (k : Bool) : 0 ≤ mfDisplaySoc b r f v c k := by
  simp only [mfDisplaySoc]
  split_ifs <;> linarith

/-- Whatever a pack reports, the figure shown is at most 100. -/
theorem mfDisplaySoc_le (b r f v c : ℚ) (k : Bool) : mfDisplaySoc b r f v c k ≤ 100 := by
  simp only [mfDisplaySoc]
  split_ifs <;> linarith

/-! ## The record -/

/-- The totals, with the sums and counts they are made from. -/
@[ext] structure SystemTotals where
  /-- Chargers added. -/
  chargersTotal : ℕ
  /-- Chargers added active and online. -/
  chargersCounted : ℕ
  /-- Packs added. -/
  batteriesTotal : ℕ
  /-- Packs added active and online. -/
  batteriesCounted : ℕ
  /-- What the counted chargers charge with. -/
  inputW : ℚ
  /-- The configured scale of the input. -/
  inputMaxW : ℚ
  /-- The counted packs' capacity, of those that report one. -/
  capacityWh : ℚ
  /-- What is in those packs. -/
  storedWh : ℚ
  /-- The bank's state of charge, −1 when no counted pack reports one. -/
  socPct : ℚ
  /-- What goes into the counted packs. -/
  chargeW : ℚ
  /-- What leaves the bank, set at the end. -/
  dischargeW : ℚ
  /-- The configured scale of the discharge. -/
  dischargeMaxW : ℚ
  /-- What leaves the counted packs. -/
  batteryDischargeW : ℚ
  /-- What the counted inverters draw while inverting. -/
  inverterOutputW : ℚ
  /-- How many of them report it. -/
  inverterOutputN : ℕ
  /-- The counted inverters' AC output. -/
  inverterAcW : ℚ
  /-- How many of them report it. -/
  inverterAcN : ℕ
  /-- What the site draws, set at the end. -/
  loadW : ℚ
  /-- Input and discharge less charge, set at the end. -/
  loadNetW : ℚ
  /-- The load is the inverters' draw. -/
  loadFromInverters : Bool
  /-- What the counted packs can deliver. -/
  batteryLimitW : ℚ
  /-- How many of them report it. -/
  batteryLimitN : ℕ
  /-- Inverters added. -/
  invertersTotal : ℕ
  /-- Inverters added active and online. -/
  invertersCounted : ℕ
  /-- What the counted inverters are rated for. -/
  inverterRatedW : ℚ
  /-- How many of them report it. -/
  inverterRatedN : ℕ
  /-- The states of charge of the counted packs without a capacity. -/
  socSum : ℚ
  /-- How many those are. -/
  socN : ℕ
deriving DecidableEq

/-- Everything zero, the two scales as configured, no state of charge. -/
def mfSystemInit (inputMaxW dischargeMaxW : ℚ) : SystemTotals where
  chargersTotal := 0
  chargersCounted := 0
  batteriesTotal := 0
  batteriesCounted := 0
  inputW := 0
  inputMaxW := inputMaxW
  capacityWh := 0
  storedWh := 0
  socPct := -1
  chargeW := 0
  dischargeW := 0
  dischargeMaxW := dischargeMaxW
  batteryDischargeW := 0
  inverterOutputW := 0
  inverterOutputN := 0
  inverterAcW := 0
  inverterAcN := 0
  loadW := 0
  loadNetW := 0
  loadFromInverters := false
  batteryLimitW := 0
  batteryLimitN := 0
  invertersTotal := 0
  invertersCounted := 0
  inverterRatedW := 0
  inverterRatedN := 0
  socSum := 0
  socN := 0

/-! ## Adding a device -/

/-- A charger counts, and adds what it charges with when that is positive. -/
def mfSystemAddCharger (t : SystemTotals) (active online : Bool) (chargingW : ℚ) : SystemTotals :=
  let t := { t with chargersTotal := t.chargersTotal + 1 }
  if !active || !online then t
  else
    let t := { t with chargersCounted := t.chargersCounted + 1 }
    if chargingW > 0 then { t with inputW := t.inputW + chargingW } else t

/-- What a pack's row reports, the missing figures filled in by the caller. -/
structure BatteryReading where
  /-- Pack voltage. -/
  packV : ℚ
  /-- Pack current, negative when discharging. -/
  currentA : ℚ
  /-- The state of charge its BMS gives. -/
  bmsSoc : ℚ
  /-- Remaining charge, negative when unknown. -/
  remAh : ℚ
  /-- Full charge, not positive when unknown. -/
  fullAh : ℚ
  /-- Number of cells, not positive when unknown. -/
  cellCount : ℤ
  /-- Its state of charge is checked against its voltage. -/
  voltageCheck : Bool

/-- The state of charge shown for the pack. -/
def BatteryReading.soc (r : BatteryReading) : ℚ :=
  let avgCellV := if r.cellCount > 0 then r.packV / r.cellCount else 0
  mfDisplaySoc r.bmsSoc r.remAh r.fullAh avgCellV r.currentA r.voltageCheck

/-- A pack adds its capacity and what is in it, or its state of charge when
it reports no capacity, and its power on the side of its sign. -/
def mfSystemAddBattery (t : SystemTotals) (active online : Bool) (r : BatteryReading) :
    SystemTotals :=
  let t := { t with batteriesTotal := t.batteriesTotal + 1 }
  if !active || !online then t
  else
    let t := { t with batteriesCounted := t.batteriesCounted + 1 }
    let soc := r.soc
    let t :=
      if r.fullAh > 0 ∧ r.packV > 0 then
        let fullWh := r.fullAh * r.packV
        { t with
          capacityWh := t.capacityWh + fullWh
          storedWh := t.storedWh + fullWh * soc / 100 }
      else { t with socSum := t.socSum + soc, socN := t.socN + 1 }
    let powerW := r.packV * r.currentA
    if powerW > 0 then { t with chargeW := t.chargeW + powerW }
    else { t with batteryDischargeW := t.batteryDischargeW - powerW }

/-- A counted pack adds its limit when it reports one. -/
def mfSystemAddBatteryLimit (t : SystemTotals) (active online : Bool) (maxDischargeW : ℚ) :
    SystemTotals :=
  if !active || !online || decide (maxDischargeW ≤ 0) then t
  else
    { t with
      batteryLimitW := t.batteryLimitW + maxDischargeW
      batteryLimitN := t.batteryLimitN + 1 }

/-- An inverter adds each of its three figures that it reports. -/
def mfSystemAddInverter (t : SystemTotals) (active online : Bool)
    (ratedW outputW acOutW : ℚ) : SystemTotals :=
  let t := { t with invertersTotal := t.invertersTotal + 1 }
  if !active || !online then t
  else
    let t := { t with invertersCounted := t.invertersCounted + 1 }
    let t :=
      if ratedW > 0 then
        { t with
          inverterRatedW := t.inverterRatedW + ratedW
          inverterRatedN := t.inverterRatedN + 1 }
      else t
    let t :=
      if outputW ≥ 0 then
        { t with
          inverterOutputW := t.inverterOutputW + outputW
          inverterOutputN := t.inverterOutputN + 1 }
      else t
    if acOutW ≥ 0 then
      { t with
        inverterAcW := t.inverterAcW + acOutW
        inverterAcN := t.inverterAcN + 1 }
    else t

/-- One call of the four add functions. -/
inductive Addition where
  /-- A charger and what it charges with. -/
  | charger (active online : Bool) (chargingW : ℚ)
  /-- A pack and its reading. -/
  | battery (active online : Bool) (reading : BatteryReading)
  /-- A pack's greatest discharge. -/
  | batteryLimit (active online : Bool) (maxDischargeW : ℚ)
  /-- An inverter's rating, draw and AC output. -/
  | inverter (active online : Bool) (ratedW outputW acOutW : ℚ)

/-- What a call adds to the totals. -/
def add (t : SystemTotals) : Addition → SystemTotals
  | .charger active online chargingW => mfSystemAddCharger t active online chargingW
  | .battery active online reading => mfSystemAddBattery t active online reading
  | .batteryLimit active online maxDischargeW => mfSystemAddBatteryLimit t active online maxDischargeW
  | .inverter active online ratedW outputW acOutW =>
    mfSystemAddInverter t active online ratedW outputW acOutW

/-! ## What is known, and the last step -/

/-- Every counted pack reported its limit, going by the counts. -/
def mfSystemBatteryLimitKnown (t : SystemTotals) : Bool :=
  decide (t.batteriesCounted > 0) && decide (t.batteryLimitN = t.batteriesCounted)

/-- Every counted inverter reported its rating, going by the counts. -/
def mfSystemInverterRatedKnown (t : SystemTotals) : Bool :=
  decide (t.invertersCounted > 0) && decide (t.inverterRatedN = t.invertersCounted)

/-- Every counted inverter reported its draw, going by the counts. -/
def mfSystemInverterOutputKnown (t : SystemTotals) : Bool :=
  decide (t.invertersCounted > 0) && decide (t.inverterOutputN = t.invertersCounted)

/-- Every counted inverter reported its AC output, going by the counts. -/
def mfSystemInverterAcKnown (t : SystemTotals) : Bool :=
  decide (t.invertersCounted > 0) && decide (t.inverterAcN = t.invertersCounted)

/-- The discharge, the load and the bank's state of charge, from the sums. -/
def mfSystemFinish (t : SystemTotals) : SystemTotals :=
  let loadNetW := t.inputW + t.batteryDischargeW - t.chargeW
  let loadNetW := if loadNetW < 0 then 0 else loadNetW
  let loadFromInverters := mfSystemInverterOutputKnown t
  { t with
    dischargeW := t.batteryDischargeW
    loadNetW := loadNetW
    loadFromInverters := loadFromInverters
    loadW := if loadFromInverters = true then t.inverterOutputW else loadNetW
    socPct :=
      if t.capacityWh > 0 then t.storedWh / t.capacityWh * 100
      else if t.socN > 0 then t.socSum / t.socN
      else -1 }

/-- The totals of a list of calls. -/
def systemTotals (inputMaxW dischargeMaxW : ℚ) (calls : List Addition) : SystemTotals :=
  mfSystemFinish (run add (mfSystemInit inputMaxW dischargeMaxW) calls)

end MoonFlare.System
