import MoonFlare.DeviceSettings

/-!
# The settings of the weather module

`wx_put_settings` says that it validates everything first and then applies. The
observation interval is the exception, and a few settings that pass do not
arrive. Fetching and reading the weather are left out.
-/

namespace MoonFlare.WeatherGov

open CJson

/-- `wx_ctx_t`, as far as `wx_put_settings` goes. -/
structure WxCtx where
  /-- Empty when a latitude and longitude were given. -/
  zip : CBuf 8
  haveLoc : Bool
  zipMissing : Bool
  updateDays : Double
  /-- When the ZIP table is checked next. -/
  nextZcta : ℤ
  lat : Double
  lon : Double
  /-- The place is given by latitude and longitude, not by the ZIP. -/
  llGiven : Bool
  obsEvery : Double
  contact : CBuf 128
  ua : CBuf 192
  forecastUrl : CBuf 256
  wantStation : CBuf 16
  /-- Stations in the candidate list. -/
  nst : ℕ
  nextPoints : Double
  nextStation : Double
  nextObs : Double
  nextFc : Double
  err : CBuf 128
  deriving DecidableEq

/-- `num_or_nan`. -/
def numOrNan : Option CJson → Double
  | some (.number v) => v
  | some (.string s) => if s.nonempty then Double.atof s else .nan
  | _ => .nan

/-- `(int)d`, where x86-64 gives `INT_MIN` out of range. -/
def castInt : Double → ℤ
  | .fin d =>
    let z := Int.tdiv d.val.num d.val.den
    if -2 ^ 31 ≤ z ∧ z < 2 ^ 31 then z else -2 ^ 31
  | _ => -2 ^ 31

/-- An integer as `%05d` writes it. -/
def zipText (z : ℤ) : CString :=
  let digits := CString.ofBytes (Decimal.ofNat z.natAbs).text
  let sign := if z < 0 then CString.lit "-" else CString.empty
  sign ++ (CString.lit "00000").take (5 - sign.length - digits.length) ++ digits

/-- `WX_OBS_MIN_S`. -/
def wxObsMinS : Double := Double.ofInt 300

/-- What new settings ask for: a key that is missing is what the module has. -/
structure Wanted where
  zip : CBuf 8
  station : CBuf 16
  contact : CBuf 128
  days : Double
  lat : Double
  lon : Double
  deriving DecidableEq

namespace Wanted

/-- A latitude and a longitude. -/
def ll (w : Wanted) : Bool := decide (w.lat ≠ .nan) && decide (w.lon ≠ .nan)

end Wanted

/-- The observation interval new settings give, 300 s at least. -/
def givenInterval (b : CJson) : Option Double :=
  let pi := numOrNan (getCase? (some b) "poll_interval_s")
  if pi = .nan then none else some (if pi.lt wxObsMinS then wxObsMinS else pi)

/-- The values `wx_put_settings` collects. -/
def wanted (c : WxCtx) (b : CJson) : Wanted :=
  let place := fun (key : String) (old : Double) =>
    match getCase? (some b) key with
    | some v => numOrNan (some v)
    | none => if c.llGiven then old else .nan
  { zip := match getCase? (some b) "weather.zip" with
      | some (.number v) => CBuf.copy 8 (zipText (castInt v))
      | some (.string s) => CBuf.copy 8 s
      | _ => c.zip
    station := match getCase? (some b) "weather.station" with
      | some (.string s) => CBuf.copy 16 s
      | _ => c.wantStation
    contact := match getCase? (some b) "weather.contact" with
      | some (.string s) => CBuf.copy 128 s
      | _ => c.contact
    days := match getCase? (some b) "weather.zip_update_days" with
      | some v => numOrNan (some v)
      | none => c.updateDays
    lat := place "weather.lat" c.lat
    lon := place "weather.lon" c.lon }

/-- Five digits. -/
def isZip (s : CString) : Bool :=
  decide (s.length = 5) && s.bytes.all fun b => (Decimal.digitOf b).isSome

/-- A letter or a digit. -/
def isAlnum (b : UInt8) : Bool :=
  (48 ≤ b && b ≤ 57) || (65 ≤ b && b ≤ 90) || (97 ≤ b && b ≤ 122)

/-- Why `wx_put_settings` refuses the values. -/
def refusal (w : Wanted) : Option CString :=
  if w.zip.str.nonempty ∧ ¬isZip w.zip.str then
    some (CString.lit "weather.zip must be 5 digits")
  else if ¬w.zip.str.nonempty ∧ ¬w.ll then
    some (CString.lit "set weather.zip (or weather.lat and weather.lon)")
  else if 8 < w.station.str.length ∨ ¬w.station.str.bytes.all isAlnum then
    some (CString.lit "weather.station is a station ID like KIAH")
  else if w.days = .nan ∨ w.days.lt Double.zero then
    some (CString.lit "weather.zip_update_days must be 0 or more")
  else if ¬w.contact.str.nonempty then
    some (CString.lit "weather.contact (an email) is required")
  else none

/-- `(long)(days * WX_DAY_S)`. -/
def daysToSeconds : Double → ℤ
  | .fin d => match Double.ofRat (d.val * 86400) with
    | .fin s =>
      let z := Int.tdiv s.val.num s.val.den
      if -2 ^ 63 ≤ z ∧ z < 2 ^ 63 then z else -2 ^ 63
    | _ => -2 ^ 63
  | _ => -2 ^ 63

/-- The second half of `wx_put_settings`, given when the ZIP table was checked
last. -/
def apply (checked : ℤ) (c : WxCtx) (w : Wanted) : WxCtx :=
  let changedPlace := w.zip ≠ c.zip ∨ w.ll ≠ c.llGiven ∨ w.ll ∧ (w.lat ≠ c.lat ∨ w.lon ≠ c.lon)
  let changedStation := ¬w.station.str.eqNoCase c.wantStation.str
  let c := { c with
    zip := if w.ll then CBuf.zero 8 else w.zip
    wantStation := w.station
    contact := w.contact
    ua := CBuf.copy 192
      (CString.lit "moonflare-weathergov/0.1 (" ++ w.contact.str ++ CString.lit ")")
    updateDays := w.days
    nextZcta := if w.days = c.updateDays then c.nextZcta else checked + daysToSeconds w.days
    err := CBuf.zero 128 }
  if changedPlace then
    { c with
      llGiven := w.ll
      haveLoc := w.ll
      zipMissing := false
      lat := if w.ll then w.lat else c.lat
      lon := if w.ll then w.lon else c.lon
      forecastUrl := CBuf.zero 256
      nst := 0
      nextPoints := Double.zero
      nextObs := Double.zero
      nextFc := Double.zero }
  else if changedStation then { c with nst := 0, nextStation := Double.zero, nextObs := Double.zero }
  else c

/-- `wx_put_settings`. The observation interval is taken before anything is
checked. -/
def wxPutSettings (checked : ℤ) (c : WxCtx) (json : CString) : WxCtx × MfErr × CString :=
  match (parse json).filter isObject with
  | none => (c, .inval, CString.lit "settings are not a JSON object")
  | some b =>
    let w := wanted c b
    let c := { c with obsEvery := (givenInterval b).getD c.obsEvery }
    match refusal w with
    | some e => (c, .inval, e)
    | none => (apply checked c w, .ok, CString.empty)

/-- A coordinate is in effect: a blank one unsets the place. -/
def PlaceHas (llGiven : Bool) (v now : Double) : Prop :=
  if v = .nan then llGiven = false else llGiven = true ∧ now = v

/-- What new settings name with a value of the right type is what the module
has. -/
structure InEffect (b : CJson) (c : WxCtx) : Prop where
  zipText : ∀ s, getCase? (some b) "weather.zip" = some (.string s) → c.zip.str = s
  zipNumber : ∀ v, getCase? (some b) "weather.zip" = some (.number v) →
    c.zip.str = WeatherGov.zipText (castInt v)
  station : ∀ s, getCase? (some b) "weather.station" = some (.string s) → c.wantStation.str = s
  days : ∀ v, getCase? (some b) "weather.zip_update_days" = some v →
    numOrNan (some v) ≠ .nan → c.updateDays = numOrNan (some v)
  contact : ∀ s, getCase? (some b) "weather.contact" = some (.string s) → c.contact.str = s
  lat : ∀ v, getCase? (some b) "weather.lat" = some v →
    PlaceHas c.llGiven (numOrNan (some v)) c.lat
  lon : ∀ v, getCase? (some b) "weather.lon" = some v →
    PlaceHas c.llGiven (numOrNan (some v)) c.lon

/-- New settings leave the module's as they are when they are refused, and are
in effect when they are taken. -/
def Atomic (checked : ℤ) (c : WxCtx) (json : CString) : Prop :=
  let (c', rc, _) := wxPutSettings checked c json
  (rc ≠ .ok → c' = c) ∧ (rc = .ok → ∀ b, parse json = some b → InEffect b c')

/-- The condition: refused settings come with the observation interval the
module has, and settings that are taken do not name a ZIP beside a place, give
one coordinate without the other, or a contact longer than its buffer. -/
structure AtomicWhen (c : WxCtx) (b : CJson) : Prop where
  refused : refusal (wanted c b) ≠ none → ∀ v, givenInterval b = some v → v = c.obsEvery
  zip : refusal (wanted c b) = none → (wanted c b).ll = true →
    (∀ s, getCase? (some b) "weather.zip" = some (.string s) → s = CString.empty) ∧
      ∀ v, getCase? (some b) "weather.zip" ≠ some (.number v)
  contact : refusal (wanted c b) = none →
    ∀ s, getCase? (some b) "weather.contact" = some (.string s) → s.length < 128
  place : refusal (wanted c b) = none → (wanted c b).ll = false →
    ∀ key ∈ ["weather.lat", "weather.lon"], ∀ v, getCase? (some b) key = some v →
      numOrNan (some v) = .nan

@[simp] theorem apply_zip (checked : ℤ) (c : WxCtx) (w : Wanted) :
    (apply checked c w).zip = if w.ll then CBuf.zero 8 else w.zip := by
  unfold apply
  dsimp only
  split
  · rfl
  · split <;> rfl

@[simp] theorem apply_wantStation (checked : ℤ) (c : WxCtx) (w : Wanted) :
    (apply checked c w).wantStation = w.station := by
  unfold apply
  dsimp only
  split
  · rfl
  · split <;> rfl

@[simp] theorem apply_contact (checked : ℤ) (c : WxCtx) (w : Wanted) :
    (apply checked c w).contact = w.contact := by
  unfold apply
  dsimp only
  split
  · rfl
  · split <;> rfl

@[simp] theorem apply_updateDays (checked : ℤ) (c : WxCtx) (w : Wanted) :
    (apply checked c w).updateDays = w.days := by
  unfold apply
  dsimp only
  split
  · rfl
  · split <;> rfl

/-- The place is taken over, whether it has changed or not. -/
theorem apply_place (checked : ℤ) (c : WxCtx) (w : Wanted) :
    (apply checked c w).llGiven = w.ll ∧
      (w.ll = true → (apply checked c w).lat = w.lat ∧ (apply checked c w).lon = w.lon) := by
  unfold apply
  dsimp only
  split
  case isTrue => exact ⟨rfl, fun hll => ⟨if_pos hll, if_pos hll⟩⟩
  case isFalse hsame =>
    simp only [not_or, not_and, not_not, ne_eq] at hsame
    obtain ⟨-, hll, hplace⟩ := hsame
    split <;> exact ⟨hll.symm, fun h => ⟨(hplace h).1.symm, (hplace h).2.symm⟩⟩

/-- A copy with room left is the whole string. -/
theorem eq_of_copy {cap : ℕ} [NeZero cap] {s : CString}
    (h : (CBuf.copy cap s).str.length + 1 < cap) : (CBuf.copy cap s).str = s := by
  refine CBuf.str_copy_of_lt ?_
  simp only [CBuf.str_copy, CString.length, CString.bytes_take, List.length_take] at h ⊢
  omega

/-- What passes the checks. -/
structure Passes (w : Wanted) : Prop where
  zip : w.zip.str.nonempty = true → w.zip.str.length = 5
  place : w.zip.str.nonempty = false → w.ll = true
  station : w.station.str.length ≤ 8
  days : w.days ≠ .nan

theorem passes_of_refusal {w : Wanted} (h : refusal w = none) : Passes w := by
  unfold refusal at h
  split at h
  case isTrue => simp at h
  case isFalse hzip =>
    split at h
    case isTrue => simp at h
    case isFalse hplace =>
      split at h
      case isTrue => simp at h
      case isFalse hstation =>
        split at h
        case isTrue => simp at h
        case isFalse hdays =>
          simp only [not_or, not_lt] at hstation hdays
          refine ⟨fun hne => ?_, fun hempty => ?_, hstation.1, hdays.1⟩
          · have hdigits := not_not.mp fun hno => hzip ⟨hne, hno⟩
            simp only [isZip, Bool.and_eq_true, decide_eq_true_eq] at hdigits
            exact hdigits.1
          · exact not_not.mp fun hno => hplace ⟨by simp [hempty], by simp [hno]⟩

/-- A ZIP that passes is the whole text that was given for it. -/
theorem zip_of_passes {w : Wanted} {s : CString} (h : Passes w) (hw : w.zip = CBuf.copy 8 s)
    (hll : w.ll = false) : w.zip.str = s := by
  have hne : w.zip.str.nonempty = true := by
    by_contra hempty
    rw [Bool.not_eq_true] at hempty
    simp [h.place hempty] at hll
  have hlen := h.zip hne
  rw [hw] at hlen ⊢
  exact eq_of_copy (by omega)

theorem zipText_ne_empty (z : ℤ) : zipText z ≠ CString.empty := by
  intro h
  have hlen := congrArg CString.length h
  have hzeros : ((CString.lit "00000").take 5).length = 5 := by decide
  simp only [zipText, CString.length, CString.bytes_append, List.length_append, CString.bytes_take,
    List.length_take, CString.bytes_empty, List.length_nil] at hlen hzeros
  omega

theorem wanted_station {c : WxCtx} {b : CJson} {s : CString}
    (h : getCase? (some b) "weather.station" = some (.string s)) :
    (wanted c b).station = CBuf.copy 16 s := by
  simp only [wanted, h]

theorem wanted_contact {c : WxCtx} {b : CJson} {s : CString}
    (h : getCase? (some b) "weather.contact" = some (.string s)) :
    (wanted c b).contact = CBuf.copy 128 s := by
  simp only [wanted, h]

/-- A coordinate of the two that is given is in effect exactly when it makes a
place, or unsets one. -/
theorem placeHas_iff {ll : Bool} {v now : Double} (hnan : v = .nan → ll = false)
    (hnow : ll = true → now = v) : PlaceHas ll v now ↔ (ll = false → v = .nan) := by
  unfold PlaceHas
  by_cases hv : v = .nan
  · simp [hv, hnan hv]
  · cases ll with
    | false => simp [hv]
    | true => simp [hv, hnow rfl]

/-- The latitude and the longitude that are given are the ones wanted. -/
theorem wanted_place (c : WxCtx) (b : CJson) :
    (∀ v, getCase? (some b) "weather.lat" = some v → (wanted c b).lat = numOrNan (some v)) ∧
      ∀ v, getCase? (some b) "weather.lon" = some v → (wanted c b).lon = numOrNan (some v) :=
  ⟨fun v hv => by simp only [wanted, hv], fun v hv => by simp only [wanted, hv]⟩

/-- What is taken is in effect exactly under the condition. -/
theorem inEffect_iff {checked : ℤ} {c : WxCtx} {b : CJson}
    (h : refusal (wanted c b) = none) (p : Double) :
    InEffect b (apply checked { c with obsEvery := p } (wanted c b)) ↔ AtomicWhen c b := by
  have hpass := passes_of_refusal h
  obtain ⟨hll, hcoords⟩ := apply_place checked { c with obsEvery := p } (wanted c b)
  obtain ⟨hlat, hlon⟩ := wanted_place c b
  have hlatHas {v : CJson} (hv : getCase? (some b) "weather.lat" = some v) :=
    @placeHas_iff (wanted c b).ll (numOrNan (some v))
      (apply checked { c with obsEvery := p } (wanted c b)).lat
      (fun hnan => by simp [Wanted.ll, hlat v hv, hnan])
      (fun hyes => (hcoords hyes).1.trans (hlat v hv))
  have hlonHas {v : CJson} (hv : getCase? (some b) "weather.lon" = some v) :=
    @placeHas_iff (wanted c b).ll (numOrNan (some v))
      (apply checked { c with obsEvery := p } (wanted c b)).lon
      (fun hnan => by simp [Wanted.ll, hlon v hv, hnan])
      (fun hyes => (hcoords hyes).2.trans (hlon v hv))
  constructor
  · intro heff
    refine ⟨fun hno => absurd h hno, fun _ hyes => ⟨fun s hs => ?_, fun v hv => ?_⟩,
      fun _ s hs => ?_, fun _ hno key hkey v hv => ?_⟩
    · have hzip := heff.zipText s hs
      rw [apply_zip, if_pos hyes] at hzip
      exact hzip.symm
    · have hzip := heff.zipNumber v hv
      rw [apply_zip, if_pos hyes] at hzip
      exact zipText_ne_empty _ hzip.symm
    · have hcontact := heff.contact s hs
      rw [apply_contact, wanted_contact hs] at hcontact
      rw [← hcontact]
      exact (CBuf.copy 128 s).fits
    · simp only [List.mem_cons, List.not_mem_nil, or_false] at hkey
      rcases hkey with rfl | rfl
      · exact (hlatHas hv).mp (hll ▸ heff.lat v hv) hno
      · exact (hlonHas hv).mp (hll ▸ heff.lon v hv) hno
  · intro hwhen
    constructor
    case zipText =>
      intro s hs
      rw [apply_zip]
      split
      case isTrue hyes => rw [(hwhen.zip h hyes).1 s hs, CBuf.str_zero]
      case isFalse hno =>
        exact zip_of_passes hpass (by simp only [wanted, hs]) (by simpa using hno)
    case zipNumber =>
      intro v hv
      rw [apply_zip]
      split
      case isTrue hyes => exact absurd hv ((hwhen.zip h hyes).2 v)
      case isFalse hno =>
        exact zip_of_passes hpass (by simp only [wanted, hv]) (by simpa using hno)
    case station =>
      intro s hs
      have hlen := hpass.station
      rw [apply_wantStation]
      rw [wanted_station hs] at hlen ⊢
      exact eq_of_copy (by omega)
    case days =>
      intro v hv _
      rw [apply_updateDays]
      simp only [wanted, hv]
    case contact =>
      intro s hs
      rw [apply_contact, wanted_contact hs]
      exact CBuf.str_copy_of_lt (hwhen.contact h s hs)
    case lat =>
      intro v hv
      rw [hll]
      exact (hlatHas hv).mpr fun hno => hwhen.place h hno _ (by simp) v hv
    case lon =>
      intro v hv
      rw [hll]
      exact (hlonHas hv).mpr fun hno => hwhen.place h hno _ (by simp) v hv

/-- The weather module's settings are atomic exactly under the condition. -/
theorem atomic_iff (checked : ℤ) (c : WxCtx) (json : CString) :
    Atomic checked c json ↔
      ∀ b, parse json = some b → b.isObject = true → AtomicWhen c b := by
  unfold Atomic wxPutSettings
  cases hobj : (parse json).filter isObject with
  | none =>
    dsimp only
    refine iff_of_true ⟨fun _ => rfl, fun h => by simp at h⟩ fun b hb hisObj => ?_
    rw [hb, Option.filter_some, if_pos hisObj] at hobj
    simp at hobj
  | some b =>
    obtain ⟨hb, hisObj⟩ := Option.filter_eq_some_iff.mp hobj
    dsimp only
    have hone : (∀ b', parse json = some b' → b'.isObject = true → AtomicWhen c b') ↔
        AtomicWhen c b :=
      ⟨fun h => h b hb hisObj, fun h b' hb' _ => Option.some.inj (hb.symm.trans hb') ▸ h⟩
    rw [hone]
    cases href : refusal (wanted c b) with
    | some e =>
      dsimp only
      constructor
      · rintro ⟨hkept, -⟩
        have hsame := congrArg WxCtx.obsEvery (hkept (by simp))
        refine ⟨fun _ v hv => by simpa [hv] using hsame, fun h => ?_, fun h => ?_, fun h => ?_⟩ <;>
          simp [href] at h
      · intro hwhen
        refine ⟨fun _ => ?_, fun h => by simp at h⟩
        have hsame : (givenInterval b).getD c.obsEvery = c.obsEvery := by
          cases hv : givenInterval b with
          | none => rfl
          | some v => exact hwhen.refused (by simp [href]) v hv
        rw [hsame]
    | none =>
      dsimp only
      rw [← inEffect_iff href ((givenInterval b).getD c.obsEvery)]
      constructor
      · rintro ⟨-, htaken⟩
        exact htaken rfl b hb
      · intro heff
        exact ⟨fun h => absurd rfl h, fun _ b' hb' => Option.some.inj (hb.symm.trans hb') ▸ heff⟩

end MoonFlare.WeatherGov
