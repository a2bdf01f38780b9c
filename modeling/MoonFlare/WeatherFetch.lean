import MoonFlare.WeatherGov

/-!
# Fetching the weather

One request is in flight at a time: for the forecast's address and the stations'
address of a place, for its nearby stations, for a station's observation or for the
forecast, or for a newer table of ZIP codes. Its reply is taken by what it was asked
for. Beside the state it is recorded what every request was started for and what the
data stored since the last change of the place or the station came from. Icons, marks
of day and night and the texts of clock times are left out.
-/

namespace MoonFlare.WeatherGov

open CJson

/-! ## Requests -/

/-- Where the weather is asked for. -/
inductive Place where
  | coords (lat lon : Double)
  | zip (zip : CBuf 8)
  deriving DecidableEq

/-- The place and the station that are set; a station's name in small letters. -/
structure Target where
  place : Place
  station : Bytes
  deriving DecidableEq

/-- The place that is set. -/
def placeOf (c : WxCtx) : Place := if c.llGiven then .coords c.lat c.lon else .zip c.zip

/-- What the data are to be for. -/
def target (c : WxCtx) : Target := ⟨placeOf c, c.wantStation.str.bytes.map CString.tolower⟩

/-- What a request asks for, `wx_req_t` with what its address is made of. -/
inductive Ask where
  | points (lat lon : Double)
  | station (url : CString)
  | obs (station : CString)
  | forecast (url : CString)
  | zctaHead (year : ℤ)
  | zctaGet (year : ℤ)

/-- A request in flight. -/
structure WxRequest where
  ask : Ask
  /-- What was set when it was started, which the code does not keep. -/
  startedFor : Target

/-- The data that are stored. -/
inductive Datum where
  | forecastUrl
  | stations
  | observation
  | periods
  deriving DecidableEq

/-- `WX_NST`. -/
def wxNst : ℕ := 5

/-- `WX_NFC`. -/
def wxNfc : ℕ := 2

/-- `wx_obs_t`. -/
structure WxObs where
  tempF : Double
  hum : Double
  windMph : Double
  cond : CBuf 48
  station : CBuf 16
  observedEpoch : ℤ

/-- `wx_period_t`. -/
structure WxPeriod where
  name : CBuf 24
  tempF : Double
  shortf : CBuf 48

/-- `wx_ctx_t`: the settings and what is fetched. -/
structure Wx where
  /-- The settings, the address of the forecast, and when things are due. -/
  set : WxCtx
  inflight : Option WxRequest
  stationsUrl : CBuf 256
  /-- The entries of `stations`. -/
  stations : List (CBuf 16)
  stTry : ℕ
  place : CBuf 64
  sunriseEpoch : ℤ
  sunsetEpoch : ℤ
  haveObs : Bool
  obsAt : Double
  obs : WxObs
  fc : List WxPeriod
  /-- What the datum stored last, since the last change, came from. -/
  stored : Datum → Option Target
  /-- The place looked up since the last change of it. -/
  lookedUp : Option Place
  /-- The next look-up waits for the next day. -/
  waitsForDay : Bool

/-! ## Surroundings -/

/-- What the surroundings decide in a step. -/
structure WxEnv where
  /-- `mono_now`. -/
  now : Double
  /-- `time`. -/
  wall : ℤ
  /-- `iso_to_epoch`. -/
  isoToEpoch : CString → ℤ
  /-- The time that `strptime` reads as UTC. -/
  isoUtc : CString → Option ℤ
  /-- `until_tomorrow`. -/
  untilTomorrow : Double
  /-- What `start_get` reports when it fails. -/
  startError : Option CString
  /-- `zcta_lookup` in the table that `zcta_pick` picks: none without a table, and
  nothing for a ZIP that is not in it. -/
  zcta : Option (CString → Option (Double × Double))
  /-- The path of that table. -/
  zctaPath : CString
  /-- The year of the table to look for. -/
  zctaYear : ℤ
  /-- A newer table is read and written. -/
  installs : Bool

/-- How a request ends. -/
structure WxReply where
  /-- `curl_easy_strerror`, when it fails. -/
  failure : Option CString
  code : ℤ
  body : CString

/-! ## Numbers -/

/-- `a + b`. -/
def plus : Double → Double → Double
  | .nan, _ => .nan
  | _, .nan => .nan
  | .inf m, .inf n => if m = n then .inf m else .nan
  | .inf m, .fin _ => .inf m
  | .fin _, .inf n => .inf n
  | .fin a, .fin b => Double.ofRat (a.val + b.val)

/-- A double times or through a positive constant. -/
def scale (f : ℚ → ℚ) : Double → Double
  | .fin d => Double.ofRat (f d.val)
  | v => v

/-- `tc * 9.0 / 5.0 + 32.0`. -/
def fahrenheit (tc : Double) : Double :=
  plus (scale (· / 5) (scale (· * 9) tc)) (Double.ofInt 32)

/-- `WX_RETRY_S`. -/
def wxRetryS : Double := Double.ofInt 120

/-- `WX_FORECAST_S`. -/
def wxForecastS : Double := Double.ofInt 1800

/-- `WX_OBS_FRESH_S`. -/
def wxObsFreshS : ℤ := 2 * 3600

/-- `WX_ZCTA_RETRY_S`. -/
def wxZctaRetryS : ℤ := 3600

/-! ## Parsing -/

/-- `set_err`. -/
def Wx.setErr (m : Wx) (what detail : CString) : Wx :=
  let colon := if detail.nonempty then CString.lit ": " else CString.empty
  { m with set := { m.set with err := CBuf.copy 128 (what ++ colon ++ detail) } }

/-- `props`. -/
def props (root : Option CJson) : Option CJson := getCase? root "properties"

/-- The text of a member. -/
def textOf (j : Option CJson) (key : String) : Option CString := (getCase? j key).bind string?

/-- `qv`. -/
def qv (p : Option CJson) (key : String) : Double :=
  ((getCase? (getCase? p key) "value").bind number?).getD .nan

/-- A datum is stored from a reply. -/
def Wx.store (m : Wx) (d : Datum) (from_ : Target) : Wx :=
  { m with stored := fun d' => if d' = d then some from_ else m.stored d' }

/-- The addresses that `parse_points` reads. -/
def pointsUrls (root : CJson) : Option (CString × CString) :=
  match textOf (props (some root)) "forecast", textOf (props (some root)) "observationStations" with
  | some fc, some st => some (fc, st)
  | _, _ => none

/-- `parse_points`. -/
def parsePoints (m : Wx) (root : CJson) (from_ : Target) (e : WxEnv) : Option Wx :=
  let p := props (some root)
  let rl := props (getCase? p "relativeLocation")
  let astro := getCase? p "astronomicalData"
  let epoch := fun (t : Option CString) => (t.map e.isoToEpoch).getD 0
  match pointsUrls root with
  | none => none
  | some (fc, st) =>
    some <| { m with
      set := { m.set with forecastUrl := CBuf.copy 256 fc, nst := 0 }
      stationsUrl := CBuf.copy 256 st
      place := match textOf rl "city", textOf rl "state" with
        | some city, some state => CBuf.copy 64 (city ++ CString.lit ", " ++ state)
        | _, _ => m.place
      sunriseEpoch := epoch (textOf astro "sunrise")
      sunsetEpoch := epoch (textOf astro "sunset")
      lookedUp := some from_.place }.store .forecastUrl from_

/-- What `cJSON_ArrayForEach` goes through. -/
def children : Option CJson → List CJson
  | some (.array xs) => xs
  | some (.object ms) => ms.map Prod.snd
  | _ => []

/-- The stations `parse_station` collects: the chosen one first, then the nearby
ones. -/
def stationList (want : CBuf 16) (root : CJson) : List (CBuf 16) :=
  (children (getCase? (some root) "features")).foldl (fun ids f =>
    match textOf (props (some f)) "stationIdentifier" with
    | some id =>
      if wxNst < ids.length ∨ id.eqNoCase want.str = true then ids else ids ++ [CBuf.copy 16 id]
    | none => ids) (if want.str.nonempty then [want] else [])

/-- `parse_station`. -/
def parseStation (m : Wx) (root : CJson) (from_ : Target) : Option Wx :=
  match stationList m.set.wantStation root with
  | [] => none
  | ids =>
    some ({ m with
      set := { m.set with nst := ids.length }, stations := ids, stTry := 0 }.store .stations from_)

/-- `parse_obs`: the observation, and whether it is good. -/
def parseObs (m : Wx) (root : CJson) (e : WxEnv) : Option (WxObs × Bool) :=
  match props (some root) with
  | none => none
  | some p =>
    let p := some p
    let tempF := fahrenheit (qv p "temperature")
    let observed := ((textOf p "timestamp").bind e.isoUtc).getD 0
    some
      ({ tempF := tempF, hum := qv p "relativeHumidity"
         windMph := scale (· / Binary.f64 (1609344 / 1000000)) (qv p "windSpeed")
         cond := CBuf.copy 48 ((textOf p "textDescription").getD CString.empty)
         station := if m.set.nst = 0 then CBuf.zero 16 else m.stations.getD m.stTry (CBuf.zero 16)
         observedEpoch := observed },
       decide (tempF ≠ .nan) && decide (observed ≠ 0) && decide (e.wall - observed < wxObsFreshS))

/-- What comes of a reply. -/
inductive Taken where
  | ok
  /-- The next station is asked. -/
  | next
  | bad
  deriving DecidableEq

/-- `take_obs`. -/
def takeObs (m : Wx) (root : CJson) (from_ : Target) (e : WxEnv) : Wx × Taken :=
  match parseObs m root e with
  | none => (m, .bad)
  | some (o, good) =>
    if !good ∧ m.stTry + 1 < m.set.nst then
      ({ m with stTry := m.stTry + 1, set := { m.set with nextObs := Double.zero } }, .next)
    else
      let m := if good ∨ ¬m.haveObs then
        { m with obs := o, haveObs := true, obsAt := e.now }.store .observation from_ else m
      ({ m with stTry := 0 }, .ok)

/-- `parse_forecast`. -/
def parseForecast (m : Wx) (root : CJson) (from_ : Target) : Option Wx :=
  match getCase? (props (some root)) "periods" with
  | some (.array per) =>
    let fc := (per.take wxNfc).map fun it =>
      { name := CBuf.copy 24 ((textOf (some it) "name").getD CString.empty)
        tempF := ((getCase? (some it) "temperature").bind number?).getD .nan
        shortf := CBuf.copy 48 ((textOf (some it) "shortForecast").getD CString.empty) : WxPeriod }
    some ({ m with fc := fc }.store .periods from_)
  | _ => none

/-! ## Requests begin and end -/

/-- `start_get`. -/
def startGet (m : Wx) (ask : Ask) (e : WxEnv) : Wx :=
  match e.startError with
  | none => { m with inflight := some ⟨ask, target m.set⟩ }
  | some what => m.setErr what CString.empty

/-- `finish_zcta`. -/
def finishZcta (m : Wx) (ask : Ask) (r : WxReply) (e : WxEnv) : Wx :=
  let due := fun (m : Wx) (t : ℤ) => { m with set := { m.set with nextZcta := t } }
  if r.failure ≠ none ∨ (r.code ≠ 200 ∧ r.code ≠ 404 ∧ r.code ≠ 403) then
    due m (e.wall + wxZctaRetryS)
  else
    match ask with
    | .zctaHead year =>
      if r.code = 200 then
        let m := startGet m (.zctaGet year) e
        if e.startError.isNone then m else due m (e.wall + wxZctaRetryS)
      else due m (e.wall + daysToSeconds m.set.updateDays)
    | _ =>
      let m :=
        if r.code = 200 then
          if e.installs then
            { m with set := { m.set with
              haveLoc := m.set.haveLoc && !m.set.zip.str.nonempty, zipMissing := false } }
          else m.setErr (CString.lit "ZIP table update could not be installed") CString.empty
        else m
      due m (e.wall + daysToSeconds m.set.updateDays)

/-- The reply is taken by what was asked for. -/
def takeReply (m : Wx) (q : WxRequest) (root : CJson) (e : WxEnv) : Wx × Taken :=
  match q.ask with
  | .points _ _ =>
    match parsePoints m root q.startedFor e with
    | some m => (m, .ok)
    | none => (m, .bad)
  | .station _ =>
    match parseStation m root q.startedFor with
    | some m => (m, .ok)
    | none => (m, .bad)
  | .obs _ => takeObs m root q.startedFor e
  | .forecast _ =>
    match parseForecast m root q.startedFor with
    | some m => (m, .ok)
    | none => (m, .bad)
  | _ => (m, .bad)

/-- What is scheduled when a reply was taken. -/
def scheduleNext (m : Wx) (ask : Ask) (e : WxEnv) : Wx :=
  let m := { m with set := { m.set with err := CBuf.zero 128 } }
  match ask with
  | .points _ _ =>
    { m with
      set := { m.set with nextPoints := plus e.now e.untilTomorrow }, waitsForDay := true }
  | .obs _ => { m with set := { m.set with nextObs := plus e.now m.set.obsEvery } }
  | .forecast _ => { m with set := { m.set with nextFc := plus e.now wxForecastS } }
  | _ => m

/-- What is scheduled when it was not. -/
def scheduleRetry (m : Wx) (ask : Ask) (e : WxEnv) : Wx :=
  let m := if m.set.err.str.nonempty then m
    else m.setErr (CString.lit "weather.gov reply not understood") CString.empty
  let retry := plus e.now wxRetryS
  match ask with
  | .points _ _ => { m with set := { m.set with nextPoints := retry }, waitsForDay := false }
  | .obs _ =>
    if m.stTry + 1 < m.set.nst then
      { m with stTry := m.stTry + 1, set := { m.set with nextObs := Double.zero } }
    else { m with set := { m.set with nextObs := retry } }
  | .station _ => { m with set := { m.set with nextStation := retry } }
  | .forecast _ => { m with set := { m.set with nextFc := retry } }
  | _ => m

/-- The JSON of a reply, or why there is none. -/
def replyJson (r : WxReply) : Except (CString × CString) CJson :=
  match r.failure with
  | some why => .error (CString.lit "weather.gov request failed", why)
  | none =>
    if r.code ≠ 200 then
      .error (CString.lit "weather.gov", CString.lit "HTTP " ++ intText r.code)
    else
      match parse r.body with
      | none => .error (CString.lit "weather.gov reply is not JSON", CString.empty)
      | some root => .ok root

/-- A request for the weather has ended. -/
def finishWeather (m : Wx) (q : WxRequest) (r : WxReply) (e : WxEnv) : Wx :=
  match replyJson r with
  | .error (what, detail) => scheduleRetry (m.setErr what detail) q.ask e
  | .ok root =>
    match takeReply m q root e with
    | (m, .ok) => scheduleNext m q.ask e
    | (m, .next) => m
    | (m, .bad) => scheduleRetry m q.ask e

/-- A request is for the table of ZIP codes. -/
def Ask.isZcta : Ask → Bool
  | .zctaHead _ => true
  | .zctaGet _ => true
  | _ => false

/-- `finish`. -/
def finish (m : Wx) (r : WxReply) (e : WxEnv) : Wx :=
  match m.inflight with
  | none => m
  | some q =>
    let m := { m with inflight := none }
    if q.ask.isZcta then finishZcta m q.ask r e else finishWeather m q r e

/-- `resolve_zip`. -/
def resolveZip (m : Wx) (e : WxEnv) : Wx :=
  if m.set.haveLoc ∨ m.set.zipMissing ∨ ¬m.set.zip.str.nonempty then m
  else
    match e.zcta.bind (· m.set.zip.str) with
    | some (lat, lon) =>
      let m := if lat ≠ m.set.lat ∨ lon ≠ m.set.lon then
        { m with
          set := { m.set with
            forecastUrl := CBuf.zero 256, nst := 0, nextPoints := Double.zero }
          lookedUp := none, waitsForDay := false }
        else m
      { m with set := { m.set with lat := lat, lon := lon, haveLoc := true } }
    | none =>
      let m := { m with set := { m.set with zipMissing := true } }
      if e.zcta.isNone then m.setErr (CString.lit "ZIP table not found") e.zctaPath
      else
        m.setErr (CString.lit "ZIP " ++ m.set.zip.str ++ CString.lit " not found") CString.empty

/-- `start_zcta_check`. -/
def startZctaCheck (m : Wx) (e : WxEnv) : Wx :=
  if Double.zero.ge m.set.updateDays ∨ e.wall < m.set.nextZcta then m
  else
    let m := startGet m (.zctaHead e.zctaYear) e
    if e.startError.isNone then m
    else { m with set := { m.set with nextZcta := e.wall + wxZctaRetryS } }

/-- `start_next`. -/
def startNext (m : Wx) (e : WxEnv) : Wx :=
  let m := resolveZip m e
  if !m.set.haveLoc then startZctaCheck m e
  else if !m.set.forecastUrl.str.nonempty ∨ e.now.ge m.set.nextPoints then
    if e.now.lt m.set.nextPoints then m else startGet m (.points m.set.lat m.set.lon) e
  else if m.set.nst = 0 then
    if e.now.lt m.set.nextStation then m else startGet m (.station m.stationsUrl.str) e
  else if e.now.ge m.set.nextObs then
    startGet m (.obs (m.stations.getD m.stTry (CBuf.zero 16)).str) e
  else if e.now.ge m.set.nextFc then startGet m (.forecast m.set.forecastUrl.str) e
  else startZctaCheck m e

/-! ## The module -/

/-- New settings name another place. -/
def changesPlace (c : WxCtx) (w : Wanted) : Prop :=
  w.zip ≠ c.zip ∨ w.ll ≠ c.llGiven ∨ w.ll ∧ (w.lat ≠ c.lat ∨ w.lon ≠ c.lon)

/-- They name another station. -/
def changesStation (c : WxCtx) (w : Wanted) : Prop :=
  ¬w.station.str.eqNoCase c.wantStation.str

instance (c : WxCtx) (w : Wanted) : Decidable (changesPlace c w) := by
  unfold changesPlace
  infer_instance

instance (c : WxCtx) (w : Wanted) : Decidable (changesStation c w) := by
  unfold changesStation
  infer_instance

/-- What is on record behind a call of `wx_put_settings`: nothing of what was stored
before a change counts. -/
def recordChange (m : Wx) (w : Wanted) : Wx :=
  { m with
    stored := if changesPlace m.set w ∨ changesStation m.set w then fun _ => none else m.stored
    lookedUp := if changesPlace m.set w then none else m.lookedUp
    waitsForDay := if changesPlace m.set w then false else m.waitsForDay }

/-- `wx_put_settings`. -/
def putSettings (m : Wx) (checked : ℤ) (json : CString) : Wx :=
  let accepted := (wxPutSettings checked m.set json).2.1 = .ok
  let record := match (parse json).filter isObject with
    | some b => if accepted then recordChange m (wanted m.set b) else m
    | none => m
  { record with set := (wxPutSettings checked m.set json).1 }

/-- A call, or a step of the module's thread. -/
inductive WxEvent where
  | put (checked : ℤ) (json : CString)
  /-- `wx_step`, with the reply of the request in flight when it is there. -/
  | step (reply : Option WxReply) (e : WxEnv)

/-- What it does, apart from the result. -/
def wxStep (m : Wx) : WxEvent → Wx
  | .put checked json => putSettings m checked json
  | .step reply e =>
    let m := match reply with
      | some r => finish m r e
      | none => m
    if m.inflight.isNone then startNext m e else m

/-- An observation before there is any. -/
def WxObs.none : WxObs := ⟨.nan, .nan, .nan, CBuf.zero 48, CBuf.zero 16, 0⟩

/-- The module that `wx_open` leaves: nothing is fetched and everything is due. -/
def wxOpened (place : Place) (station : CBuf 16) (updateDays obsEvery : Double) (nextZcta : ℤ)
    (contact : CBuf 128) : Wx :=
  { set :=
      { zip := match place with
          | .zip zip => zip
          | .coords _ _ => CBuf.zero 8
        haveLoc := match place with
          | .zip _ => false
          | .coords _ _ => true
        zipMissing := false, updateDays := updateDays, nextZcta := nextZcta
        lat := match place with
          | .zip _ => Double.zero
          | .coords lat _ => lat
        lon := match place with
          | .zip _ => Double.zero
          | .coords _ lon => lon
        llGiven := match place with
          | .zip _ => false
          | .coords _ _ => true
        obsEvery := obsEvery, contact := contact
        ua := CBuf.copy 192
          (CString.lit "moonflare-weathergov/0.1 (" ++ contact.str ++ CString.lit ")")
        forecastUrl := CBuf.zero 256, wantStation := station, nst := 0
        nextPoints := Double.zero, nextStation := Double.zero, nextObs := Double.zero
        nextFc := Double.zero, err := CBuf.copy 128 (CString.lit "waiting for weather.gov") }
    inflight := .none, stationsUrl := CBuf.zero 256, stations := [], stTry := 0
    place := CBuf.zero 64, sunriseEpoch := 0, sunsetEpoch := 0, haveObs := false
    obsAt := Double.zero, obs := WxObs.none, fc := [], stored := fun _ => .none
    lookedUp := .none, waitsForDay := false }

end MoonFlare.WeatherGov
