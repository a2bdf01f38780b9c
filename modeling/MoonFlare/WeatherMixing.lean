import MoonFlare.WeatherFetch
import MoonFlare.Runs

/-!
# The weather of two places

What the module stores is for the place and the station that are set, and a new place
is looked up at once, as long as no reply to a request that was started for others is
stored after they were changed.
-/

namespace MoonFlare.WeatherGov

open CJson Runs

/-! ## What is to hold -/

/-- Whatever was stored since the last change is for what is set now. -/
def Fresh (m : Wx) : Prop := ∀ d t, m.stored d = some t → t = target m.set

/-- The next look-up waits for the next day only when the place that is set was
looked up. -/
def Prompt (m : Wx) : Prop := m.waitsForDay = true → m.lookedUp = some (placeOf m.set)

/-- The module when the reply of a step has been taken and the ZIP resolved. -/
def beforeStart (m : Wx) (reply : Option WxReply) (e : WxEnv) : Wx :=
  resolveZip (match reply with
    | some r => finish m r e
    | none => m) e

/-- A step finds a place that was not looked up, with nothing in flight. -/
structure LookUpDue (m : Wx) (e : WxEnv) : Prop where
  idle : m.inflight = none
  known : m.set.haveLoc = true
  notLookedUp : m.lookedUp ≠ some (placeOf m.set)
  /-- A look-up that failed has been waited for. -/
  waited : e.now.lt m.set.nextPoints = false
  works : e.startError = none

/-- What is promised of an event. -/
structure Unmixed (m : Wx) (ev : WxEvent) : Prop where
  fresh : Fresh (wxStep m ev)
  prompt : Prompt (wxStep m ev)
  looks : ∀ reply e, ev = .step reply e → LookUpDue (beforeStart m reply e) e →
    ∃ lat lon, (wxStep m ev).inflight =
      some ⟨.points lat lon, target (wxStep m ev).set⟩

/-! ## When it holds -/

/-- The JSON of a reply has what was asked for: of observations a good one, or the
first, when there is no other station to ask. -/
def HasDatum (m : Wx) (root : CJson) (e : WxEnv) : Ask → Prop
  | .points _ _ => (pointsUrls root).isSome = true
  | .station _ => stationList m.set.wantStation root ≠ []
  | .obs _ => ∃ o good, parseObs m root e = some (o, good) ∧
      (good = true ∨ m.haveObs = false ∧ m.set.nst ≤ m.stTry + 1)
  | .forecast _ => ∃ per, getCase? (props (some root)) "periods" = some (.array per)
  | _ => False

/-- A reply is one of which something is stored. -/
def Storable (m : Wx) (q : WxRequest) (r : WxReply) (e : WxEnv) : Prop :=
  ∃ root, replyJson r = .ok root ∧ HasDatum m root e q.ask

/-- The condition: a request whose reply is stored was started for what is set. -/
def StartedForSet (m : Wx) : WxEvent → Prop
  | .step (some r) e => ∀ q, m.inflight = some q → Storable m q r e → q.startedFor = target m.set
  | _ => True

/-! ## What a reply leaves -/

variable {m m' m'' : Wx}

/-- Nothing is stored and the place stays looked up or not. -/
structure Keeps (m m' : Wx) : Prop where
  target : target m'.set = target m.set
  zip : m'.set.zip = m.set.zip
  llGiven : m'.set.llGiven = m.set.llGiven
  stored : m'.stored = m.stored
  lookedUp : m'.lookedUp = m.lookedUp
  waits : m'.waitsForDay = true → m.waitsForDay = true
  url : m'.set.forecastUrl = m.set.forecastUrl

theorem Keeps.refl (m : Wx) : Keeps m m := ⟨rfl, rfl, rfl, rfl, rfl, id, rfl⟩

theorem Keeps.trans (h : Keeps m m') (h' : Keeps m' m'') : Keeps m m'' where
  target := h'.target.trans h.target
  zip := h'.zip.trans h.zip
  llGiven := h'.llGiven.trans h.llGiven
  stored := h'.stored.trans h.stored
  lookedUp := h'.lookedUp.trans h.lookedUp
  waits hw := h.waits (h'.waits hw)
  url := h'.url.trans h.url

theorem keeps_setErr (m : Wx) (what detail : CString) : Keeps m (m.setErr what detail) :=
  ⟨rfl, rfl, rfl, rfl, rfl, id, rfl⟩

theorem keeps_startGet (m : Wx) (ask : Ask) (e : WxEnv) : Keeps m (startGet m ask e) := by
  unfold startGet
  split
  · exact ⟨rfl, rfl, rfl, rfl, rfl, id, rfl⟩
  · exact keeps_setErr m _ _

theorem keeps_finishZcta (m : Wx) (ask : Ask) (r : WxReply) (e : WxEnv) :
    Keeps m (finishZcta m ask r e) := by
  have hdue (m : Wx) (t : ℤ) : Keeps m { m with set := { m.set with nextZcta := t } } :=
    ⟨rfl, rfl, rfl, rfl, rfl, id, rfl⟩
  unfold finishZcta
  dsimp only
  split
  · exact hdue m _
  split
  · split
    · split
      · exact keeps_startGet m _ e
      · exact (keeps_startGet m _ e).trans (hdue _ _)
    · exact hdue m _
  · split
    · split
      · have hinstalled : Keeps m { m with set := { m.set with
            haveLoc := m.set.haveLoc && !m.set.zip.str.nonempty, zipMissing := false } } :=
          ⟨rfl, rfl, rfl, rfl, rfl, id, rfl⟩
        exact hinstalled.trans (hdue _ _)
      · exact (keeps_setErr m _ _).trans (hdue _ _)
    · exact hdue m _

theorem keeps_scheduleRetry (m : Wx) (ask : Ask) (e : WxEnv) : Keeps m (scheduleRetry m ask e) := by
  have herr : Keeps m (if m.set.err.str.nonempty then m
      else m.setErr (CString.lit "weather.gov reply not understood") CString.empty) := by
    split
    · exact Keeps.refl m
    · exact keeps_setErr m _ _
  unfold scheduleRetry
  dsimp only
  generalize (if m.set.err.str.nonempty then m
    else m.setErr (CString.lit "weather.gov reply not understood") CString.empty) = d at herr ⊢
  refine herr.trans ?_
  cases ask with
  | points lat lon => exact ⟨rfl, rfl, rfl, rfl, rfl, nofun, rfl⟩
  | obs station =>
    dsimp only
    split <;> exact ⟨rfl, rfl, rfl, rfl, rfl, id, rfl⟩
  | _ => exact ⟨rfl, rfl, rfl, rfl, rfl, id, rfl⟩

theorem keeps_scheduleNext {ask : Ask} (h : ∀ lat lon, ask ≠ .points lat lon) (m : Wx) (e : WxEnv) :
    Keeps m (scheduleNext m ask e) := by
  cases ask with
  | points lat lon => exact absurd rfl (h lat lon)
  | _ => exact ⟨rfl, rfl, rfl, rfl, rfl, id, rfl⟩

/-- The datum that a request is for. -/
def Ask.datum : Ask → Option Datum
  | .points _ _ => some .forecastUrl
  | .station _ => some .stations
  | .obs _ => some .observation
  | .forecast _ => some .periods
  | _ => none

/-- A datum is stored that came from a request. -/
structure Stores (m m' : Wx) (d : Datum) (from_ : Target) : Prop where
  target : target m'.set = target m.set
  zip : m'.set.zip = m.set.zip
  llGiven : m'.set.llGiven = m.set.llGiven
  stored : m'.stored = (m.store d from_).stored
  lookedUp : m'.lookedUp = if d = .forecastUrl then some from_.place else m.lookedUp
  waits : d ≠ .forecastUrl → m'.waitsForDay = true → m.waitsForDay = true
  url : d ≠ .forecastUrl → m'.set.forecastUrl = m.set.forecastUrl

theorem Stores.keeps {d : Datum} {t : Target} (h : Stores m m' d t) (h' : Keeps m' m'') :
    Stores m m'' d t where
  target := h'.target.trans h.target
  zip := h'.zip.trans h.zip
  llGiven := h'.llGiven.trans h.llGiven
  stored := h'.stored.trans h.stored
  lookedUp := h'.lookedUp.trans h.lookedUp
  waits hd hw := h.waits hd (h'.waits hw)
  url hd := h'.url.trans (h.url hd)

theorem Keeps.stores {d : Datum} {t : Target} (h : Keeps m m') (h' : Stores m' m'' d t) :
    Stores m m'' d t where
  target := h'.target.trans h.target
  zip := h'.zip.trans h.zip
  llGiven := h'.llGiven.trans h.llGiven
  stored := by rw [h'.stored, Wx.store, Wx.store, h.stored]
  lookedUp := by rw [h'.lookedUp, h.lookedUp]
  waits hd hw := h.waits (h'.waits hd hw)
  url hd := (h'.url hd).trans h.url

/-- A reply is taken: its datum is stored, or nothing is. -/
theorem takeReply_cases (m : Wx) (q : WxRequest) (root : CJson) (e : WxEnv) :
    (HasDatum m root e q.ask ∧ ∃ d m', q.ask.datum = some d ∧ takeReply m q root e = (m', .ok) ∧
      Stores m m' d q.startedFor) ∨
    (¬HasDatum m root e q.ask ∧ Keeps m (takeReply m q root e).1 ∧
      ((takeReply m q root e).2 = .ok → ∀ lat lon, q.ask ≠ .points lat lon)) := by
  unfold takeReply
  cases hask : q.ask with
  | points lat lon =>
    simp only [HasDatum, parsePoints]
    cases hurls : pointsUrls root with
    | none => exact Or.inr ⟨by simp, Keeps.refl m, nofun⟩
    | some u =>
      exact Or.inl ⟨rfl, _, _, rfl, rfl, rfl, rfl, rfl, rfl, rfl, fun hd => absurd rfl hd,
        fun hd => absurd rfl hd⟩
  | station url =>
    simp only [HasDatum, parseStation]
    cases stationList m.set.wantStation root with
    | nil => exact Or.inr ⟨by simp, Keeps.refl m, nofun⟩
    | cons id ids =>
      exact Or.inl ⟨by simp, _, _, rfl, rfl, rfl, rfl, rfl, rfl, rfl, fun _ h => h, fun _ => rfl⟩
  | obs station =>
    simp only [HasDatum, takeObs]
    cases parseObs m root e with
    | none => exact Or.inr ⟨by simp, Keeps.refl m, nofun⟩
    | some read =>
      obtain ⟨o, good⟩ := read
      dsimp only
      by_cases hnext : !good ∧ m.stTry + 1 < m.set.nst
      · rw [if_pos hnext]
        refine Or.inr ⟨?_, ⟨rfl, rfl, rfl, rfl, rfl, id, rfl⟩, nofun⟩
        rintro ⟨o', good', heq, hgood | ⟨-, hlast⟩⟩
        · simp only [Option.some.injEq, Prod.mk.injEq] at heq
          obtain ⟨-, rfl⟩ := heq
          simp [hgood] at hnext
        · omega
      · rw [if_neg hnext]
        by_cases hkeep : good = true ∨ ¬m.haveObs = true
        · rw [if_pos hkeep]
          refine Or.inl ⟨⟨o, good, rfl, ?_⟩, _, _, rfl, rfl, rfl, rfl, rfl, rfl, rfl,
            fun _ h => h, fun _ => rfl⟩
          cases hgood : good with
          | true => exact Or.inl rfl
          | false =>
            refine Or.inr ⟨by simpa [hgood] using hkeep, ?_⟩
            simpa [hgood] using hnext
        · rw [if_neg hkeep]
          refine Or.inr ⟨?_, ⟨rfl, rfl, rfl, rfl, rfl, id, rfl⟩, fun _ => nofun⟩
          rintro ⟨o', good', heq, hstore⟩
          simp only [Option.some.injEq, Prod.mk.injEq] at heq
          obtain ⟨-, rfl⟩ := heq
          exact hkeep (hstore.imp_right fun h => by simp [h.1])
  | forecast url =>
    simp only [HasDatum, parseForecast]
    by_cases hper : ∃ per, getCase? (props (some root)) "periods" = some (.array per)
    · obtain ⟨per, hper⟩ := hper
      simp only [hper]
      exact Or.inl ⟨⟨per, rfl⟩, _, _, rfl, rfl, rfl, rfl, rfl, rfl, rfl, fun _ h => h, fun _ => rfl⟩
    · refine Or.inr ⟨hper, ?_⟩
      split
      · next per hsome =>
        split at hsome
        · next items hitems => exact absurd ⟨items, hitems⟩ hper
        · cases hsome
      · exact ⟨Keeps.refl m, nofun⟩
  | zctaHead year => exact Or.inr ⟨id, Keeps.refl m, nofun⟩
  | zctaGet year => exact Or.inr ⟨id, Keeps.refl m, nofun⟩

theorem stores_scheduleNext {d : Datum} {t : Target} (h : Stores m m' d t) {ask : Ask}
    (hdatum : ask.datum = some d) (e : WxEnv) : Stores m (scheduleNext m' ask e) d t := by
  cases ask with
  | points lat lon =>
    obtain rfl := Option.some.inj hdatum
    exact ⟨h.target, h.zip, h.llGiven, h.stored, h.lookedUp, fun hd => absurd rfl hd,
      fun hd => absurd rfl hd⟩
  | _ => exact h.keeps (keeps_scheduleNext (by simp) m' e)

/-- A request ends: its datum is stored, or nothing is. -/
theorem finish_cases {q : WxRequest} (hq : m.inflight = some q) (r : WxReply) (e : WxEnv) :
    (Storable m q r e ∧ ∃ d, Stores m (finish m r e) d q.startedFor) ∨
      (¬Storable m q r e ∧ Keeps m (finish m r e)) := by
  have hend : Keeps m { m with inflight := none } := ⟨rfl, rfl, rfl, rfl, rfl, id, rfl⟩
  unfold finish Storable
  rw [hq]
  dsimp only
  split
  · next hzcta =>
    refine Or.inr ⟨?_, hend.trans (keeps_finishZcta _ q.ask r e)⟩
    rintro ⟨root, -, hdatum⟩
    cases hask : q.ask <;> rw [hask] at hzcta hdatum <;> first | exact hdatum | cases hzcta
  · unfold finishWeather
    cases hjson : replyJson r with
    | error why =>
      refine Or.inr ⟨by simp, ?_⟩
      exact hend.trans ((keeps_setErr _ _ _).trans (keeps_scheduleRetry _ q.ask e))
    | ok root =>
      dsimp only
      rcases takeReply_cases { m with inflight := none } q root e with
        ⟨hhas, d, m', hdatum, htake, hstores⟩ | ⟨hhas, hkeeps, hok⟩
      · refine Or.inl ⟨⟨root, rfl, hhas⟩, d, ?_⟩
        rw [htake]
        exact hend.stores (stores_scheduleNext hstores hdatum e)
      · refine Or.inr ⟨?_, hend.trans ?_⟩
        · rintro ⟨root', heq, hdatum⟩
          obtain rfl := Except.ok.inj heq
          exact hhas hdatum
        · split
          · next d hd =>
            rw [hd] at hkeeps hok
            exact hkeeps.trans (keeps_scheduleNext (hok rfl) d e)
          · next d hd =>
            rw [hd] at hkeeps
            exact hkeeps
          · next d hd =>
            rw [hd] at hkeeps
            exact hkeeps.trans (keeps_scheduleRetry d q.ask e)

/-! ## The invariant -/

/-- What holds of the module: what is stored is for what is set, and without a
look-up of the place there is no address of its forecast. -/
structure Inv (m : Wx) : Prop where
  fresh : Fresh m
  prompt : Prompt m
  known : ∀ p, m.lookedUp = some p → p = placeOf m.set
  unknown : m.lookedUp = none → m.set.forecastUrl.str.nonempty = false
  /-- A ZIP is not kept beside a latitude and longitude. -/
  zip : m.set.llGiven = true → m.set.zip.str.nonempty = false

theorem Inv.keeps (h : Inv m) (hk : Keeps m m') : Inv m' := by
  have hplace : placeOf m'.set = placeOf m.set := congrArg Target.place hk.target
  refine ⟨?_, ?_, ?_, ?_, ?_⟩
  · intro d t hd
    rw [hk.target]
    exact h.fresh d t (hk.stored ▸ hd)
  · intro hw
    rw [hk.lookedUp, hplace]
    exact h.prompt (hk.waits hw)
  · rw [hk.lookedUp, hplace]
    exact h.known
  · rw [hk.lookedUp, hk.url]
    exact h.unknown
  · rw [hk.llGiven, hk.zip]
    exact h.zip

/-- A datum of a request that was started for what is set keeps the invariant. -/
theorem Inv.stores (h : Inv m) {d : Datum} (hs : Stores m m' d (target m.set)) : Inv m' := by
  have hplace : placeOf m'.set = placeOf m.set := congrArg Target.place hs.target
  refine ⟨?_, ?_, ?_, ?_, ?_⟩
  · intro d' t hd
    rw [hs.stored] at hd
    rw [hs.target]
    simp only [Wx.store] at hd
    split at hd
    · exact (Option.some.inj hd).symm
    · exact h.fresh d' t hd
  · intro hw
    rw [hs.lookedUp, hplace]
    split
    · rfl
    · next hother => exact h.prompt (hs.waits hother hw)
  · intro p hp
    rw [hs.lookedUp] at hp
    rw [hplace]
    split at hp
    · exact (Option.some.inj hp).symm
    · exact h.known p hp
  · intro hnone
    rw [hs.lookedUp] at hnone
    split at hnone
    · cases hnone
    · next hother =>
      rw [hs.url hother]
      exact h.unknown hnone
  · rw [hs.llGiven, hs.zip]
    exact h.zip

/-- The place of a module whose ZIP is resolved stays what it is. -/
theorem target_resolveZip (h : m.set.llGiven = true → m.set.zip.str.nonempty = false) (e : WxEnv) :
    target (resolveZip m e).set = target m.set ∧ (resolveZip m e).stored = m.stored := by
  unfold resolveZip
  split
  · exact ⟨rfl, rfl⟩
  · next hopen =>
    have hzip : m.set.llGiven = false := by
      by_contra hll
      have hempty := h (by simpa using hll)
      exact hopen (Or.inr (Or.inr (by simp [hempty])))
    split
    · dsimp only
      split <;> exact ⟨by simp [target, placeOf, hzip], rfl⟩
    · dsimp only
      split <;> exact ⟨rfl, rfl⟩

theorem inv_resolveZip (h : Inv m) (e : WxEnv) : Inv (resolveZip m e) := by
  obtain ⟨htarget, hstored⟩ := target_resolveZip h.zip e
  have hfresh : Fresh (resolveZip m e) := by
    intro d t hd
    rw [htarget]
    exact h.fresh d t (hstored ▸ hd)
  have hplace : placeOf (resolveZip m e).set = placeOf m.set := congrArg Target.place htarget
  revert hfresh hplace
  unfold resolveZip
  split
  · exact fun _ _ => h
  · split
    · next lat lon hfound =>
      dsimp only
      split
      · exact fun hfresh _ => ⟨hfresh, nofun, nofun, fun _ => rfl, h.zip⟩
      · intro hfresh hplace
        refine ⟨hfresh, fun hw => ?_, fun p hp => ?_, h.unknown, h.zip⟩
        · exact (h.prompt hw).trans (congrArg some hplace.symm)
        · exact (h.known p hp).trans hplace.symm
    · dsimp only
      have hmissing : Keeps m { m with set := { m.set with zipMissing := true } } :=
        ⟨rfl, rfl, rfl, rfl, rfl, id, rfl⟩
      split
      · exact fun _ _ => h.keeps (hmissing.trans (keeps_setErr _ _ _))
      · exact fun _ _ => h.keeps (hmissing.trans (keeps_setErr _ _ _))

theorem keeps_startZctaCheck (m : Wx) (e : WxEnv) : Keeps m (startZctaCheck m e) := by
  unfold startZctaCheck
  split
  · exact Keeps.refl m
  · dsimp only
    split
    · exact keeps_startGet m _ e
    · exact (keeps_startGet m _ e).trans ⟨rfl, rfl, rfl, rfl, rfl, id, rfl⟩

/-- Behind the resolution of the ZIP, starting a request stores nothing. -/
theorem keeps_startNext (m : Wx) (e : WxEnv) : Keeps (resolveZip m e) (startNext m e) := by
  unfold startNext
  dsimp only
  generalize resolveZip m e = d
  split
  · exact keeps_startZctaCheck d e
  split
  · split
    · exact Keeps.refl d
    · exact keeps_startGet d _ e
  split
  · split
    · exact Keeps.refl d
    · exact keeps_startGet d _ e
  split
  · exact keeps_startGet d _ e
  split
  · exact keeps_startGet d _ e
  · exact keeps_startZctaCheck d e

/-- A place that was not looked up is looked up next. -/
theorem startNext_looks (h : Inv m) {e : WxEnv} (hdue : LookUpDue (resolveZip m e) e) :
    (startNext m e).inflight = some
      ⟨.points (resolveZip m e).set.lat (resolveZip m e).set.lon, target (startNext m e).set⟩ := by
  have hinv := inv_resolveZip h e
  have hnone : (resolveZip m e).lookedUp = none := by
    cases hlooked : (resolveZip m e).lookedUp with
    | none => rfl
    | some p => exact absurd (hlooked.trans (congrArg some (hinv.known p hlooked))) hdue.notLookedUp
  have hnext : startNext m e =
      startGet (resolveZip m e)
        (.points (resolveZip m e).set.lat (resolveZip m e).set.lon) e := by
    unfold startNext
    dsimp only
    rw [if_neg (by simp [hdue.known]), if_pos (Or.inl (by simp [hinv.unknown hnone])),
      if_neg (by simp [hdue.waited])]
  rw [hnext, startGet, hdue.works]

/-! ## Settings -/

/-- Taken settings keep the invariant: what was stored for others does not count any
more. -/
theorem inv_accepted (h : Inv m) (checked : ℤ) (obsEvery : Double) (w : Wanted) :
    Inv { recordChange m w with set := apply checked { m.set with obsEvery := obsEvery } w } := by
  by_cases hplace : changesPlace m.set w
  · have hset : apply checked { m.set with obsEvery := obsEvery } w = { m.set with
        zip := if w.ll then CBuf.zero 8 else w.zip
        wantStation := w.station
        contact := w.contact
        ua := CBuf.copy 192
          (CString.lit "moonflare-weathergov/0.1 (" ++ w.contact.str ++ CString.lit ")")
        updateDays := w.days
        nextZcta := if w.days = m.set.updateDays then m.set.nextZcta
          else checked + daysToSeconds w.days
        err := CBuf.zero 128, llGiven := w.ll, haveLoc := w.ll, zipMissing := false
        lat := if w.ll then w.lat else m.set.lat
        lon := if w.ll then w.lon else m.set.lon
        forecastUrl := CBuf.zero 256, nst := 0, nextPoints := Double.zero
        nextObs := Double.zero, nextFc := Double.zero, obsEvery := obsEvery } := by
      unfold apply
      exact if_pos hplace
    rw [hset, recordChange, if_pos (Or.inl hplace), if_pos hplace, if_pos hplace]
    refine ⟨nofun, nofun, nofun, fun _ => rfl, fun hll => ?_⟩
    have hll : w.ll = true := hll
    simp [hll]
  · have hll : m.set.llGiven = w.ll := by
      by_contra hne
      exact hplace (Or.inr (Or.inl fun heq => hne heq.symm))
    have hzip : m.set.zip = w.zip := by
      by_contra hne
      exact hplace (Or.inl fun heq => hne heq.symm)
    obtain ⟨c, hc, hsame⟩ : ∃ c, apply checked { m.set with obsEvery := obsEvery } w = c ∧
        c.llGiven = m.set.llGiven ∧ c.lat = m.set.lat ∧ c.lon = m.set.lon ∧
        c.forecastUrl = m.set.forecastUrl ∧ c.wantStation = w.station ∧
        c.zip = if w.ll then CBuf.zero 8 else w.zip := by
      have hopen : ¬(w.zip ≠ m.set.zip ∨ w.ll ≠ m.set.llGiven ∨
          w.ll = true ∧ (w.lat ≠ m.set.lat ∨ w.lon ≠ m.set.lon)) := hplace
      refine ⟨_, rfl, ?_⟩
      unfold apply
      simp only [if_neg hopen]
      split <;> exact ⟨rfl, rfl, rfl, rfl, rfl, rfl⟩
    obtain ⟨hllc, hlat, hlon, hurl, hstation, hzipc⟩ := hsame
    have hplaces : placeOf c = placeOf m.set := by
      rw [placeOf, placeOf, hllc, hlat, hlon, hzipc, hzip]
      cases hll' : m.set.llGiven with
      | true => rfl
      | false => rw [← hll, hll']; rfl
    rw [hc, recordChange, if_neg hplace, if_neg hplace]
    refine ⟨?_, ?_, ?_, ?_, ?_⟩
    · intro d t hd
      by_cases hchange : changesPlace m.set w ∨ changesStation m.set w
      · rw [if_pos hchange] at hd
        cases hd
      · rw [if_neg hchange] at hd
        have hcase : w.station.str.eqNoCase m.set.wantStation.str = true := by
          by_contra hne
          exact hchange (Or.inr hne)
        have hnames : w.station.str.bytes.map CString.tolower =
            m.set.wantStation.str.bytes.map CString.tolower := by simpa [CString.eqNoCase] using hcase
        refine (h.fresh d t hd).trans ?_
        rw [target, target, hplaces, hstation, hnames]
    · intro hw
      exact (h.prompt hw).trans (congrArg some hplaces.symm)
    · intro p hp
      exact (h.known p hp).trans hplaces.symm
    · intro hnone
      rw [hurl]
      exact h.unknown hnone
    · intro hgiven
      have hw : w.ll = true := by rw [← hll, ← hllc]; exact hgiven
      simp [hzipc, hw]

theorem inv_putSettings (h : Inv m) (checked : ℤ) (json : CString) :
    Inv (putSettings m checked json) := by
  have hkeep (v : Double) : Inv { m with set := { m.set with obsEvery := v } } :=
    h.keeps ⟨rfl, rfl, rfl, rfl, rfl, id, rfl⟩
  unfold putSettings wxPutSettings
  cases hparse : (parse json).filter isObject with
  | none => exact h
  | some b =>
    cases hrefusal : refusal (wanted m.set b) with
    | some why =>
      simp only [hrefusal, reduceCtorEq, if_false]
      exact hkeep _
    | none =>
      simp only [hrefusal, if_true]
      exact inv_accepted h checked _ _

/-! ## Steps -/

theorem inflight_resolveZip (m : Wx) (e : WxEnv) : (resolveZip m e).inflight = m.inflight := by
  unfold resolveZip
  split
  · rfl
  · split
    · dsimp only
      split <;> rfl
    · dsimp only
      split <;> rfl

/-- What a step does behind the reply. -/
def goOn (m : Wx) (e : WxEnv) : Wx := if m.inflight.isNone then startNext m e else m

theorem inv_goOn (h : Inv m) (e : WxEnv) : Inv (goOn m e) := by
  unfold goOn
  split
  · exact (inv_resolveZip h e).keeps (keeps_startNext m e)
  · exact h

theorem goOn_same (h : m.set.llGiven = true → m.set.zip.str.nonempty = false) (e : WxEnv) :
    target (goOn m e).set = target m.set ∧ (goOn m e).stored = m.stored := by
  unfold goOn
  split
  · obtain ⟨htarget, hstored⟩ := target_resolveZip h e
    have hkeeps := keeps_startNext m e
    exact ⟨hkeeps.target.trans htarget, hkeeps.stored.trans hstored⟩
  · exact ⟨rfl, rfl⟩

/-- The promise of what a step does behind the reply. -/
theorem goOn_looks (h : Inv m) {e : WxEnv} (hdue : LookUpDue (resolveZip m e) e) :
    ∃ lat lon, (goOn m e).inflight = some ⟨.points lat lon, target (goOn m e).set⟩ := by
  have hidle : m.inflight.isNone = true := by
    rw [← inflight_resolveZip m e, hdue.idle]
    rfl
  have hgo : goOn m e = startNext m e := if_pos hidle
  rw [hgo]
  exact ⟨_, _, startNext_looks h hdue⟩

/-- The module when the reply of a step has been taken. -/
def taken (m : Wx) (e : WxEnv) : Option WxReply → Wx
  | some r => finish m r e
  | none => m

theorem wxStep_step (m : Wx) (reply : Option WxReply) (e : WxEnv) :
    wxStep m (.step reply e) = goOn (taken m e reply) e := by
  cases reply <;> rfl

theorem beforeStart_eq (m : Wx) (reply : Option WxReply) (e : WxEnv) :
    beforeStart m reply e = resolveZip (taken m e reply) e := by
  cases reply <;> rfl

/-- A module that is as it should be when the reply has been taken keeps every
promise. -/
theorem unmixed_of_taken {reply : Option WxReply} {e : WxEnv} (h : Inv (taken m e reply)) :
    Unmixed m (.step reply e) := by
  have hafter := inv_goOn h e
  refine ⟨?_, ?_, ?_⟩
  · rw [wxStep_step]
    exact hafter.fresh
  · rw [wxStep_step]
    exact hafter.prompt
  · rintro reply' e' heq hdue
    obtain ⟨rfl, rfl⟩ : reply = reply' ∧ e = e' := by simpa using heq
    rw [wxStep_step]
    exact goOn_looks h (beforeStart_eq m reply e ▸ hdue)

/-- A request that was started for what is set leaves the module as it should be. -/
theorem inv_finish (h : Inv m) {r : WxReply} {e : WxEnv}
    (hset : ∀ q, m.inflight = some q → Storable m q r e → q.startedFor = target m.set) :
    Inv (finish m r e) := by
  cases hq : m.inflight with
  | none =>
    have hsame : finish m r e = m := by simp only [finish, hq]
    rw [hsame]
    exact h
  | some q =>
    rcases finish_cases hq r e with ⟨hstorable, d, hstores⟩ | ⟨-, hkeeps⟩
    · rw [hset q hq hstorable] at hstores
      exact h.stores hstores
    · exact h.keeps hkeeps

theorem inv_wxStep (h : Inv m) {ev : WxEvent} (hset : StartedForSet m ev) : Inv (wxStep m ev) := by
  cases ev with
  | put checked json => exact inv_putSettings h checked json
  | step reply e =>
    rw [wxStep_step]
    cases reply with
    | none => exact inv_goOn h e
    | some r => exact inv_goOn (inv_finish h hset) e

/-- Every event keeps the promise exactly under the condition. -/
theorem unmixed_iff (h : Inv m) (ev : WxEvent) : Unmixed m ev ↔ StartedForSet m ev := by
  cases ev with
  | put checked json =>
    have hafter := inv_putSettings h checked json
    exact iff_of_true ⟨hafter.fresh, hafter.prompt, fun _ _ heq => by cases heq⟩ trivial
  | step reply e =>
    cases reply with
    | none => exact iff_of_true (unmixed_of_taken h) trivial
    | some r =>
      constructor
      · intro hun q hq hstorable
        rcases finish_cases hq r e with ⟨-, d, hstores⟩ | ⟨hnot, -⟩
        · have hzip : (finish m r e).set.llGiven = true →
              (finish m r e).set.zip.str.nonempty = false := by
            rw [hstores.llGiven, hstores.zip]
            exact h.zip
          obtain ⟨htarget, hstored⟩ := goOn_same hzip e
          have hfresh := hun.fresh d q.startedFor
          rw [wxStep_step] at hfresh
          have hd : (goOn (finish m r e) e).stored d = some q.startedFor := by
            rw [hstored, hstores.stored]
            exact if_pos rfl
          exact (hfresh hd).trans (htarget.trans hstores.target)
        · exact absurd hstorable hnot
      · exact fun hset => unmixed_of_taken (inv_finish h hset)

/-! ## Runs -/

theorem inv_wxOpened (place : Place) (station : CBuf 16) (updateDays obsEvery : Double)
    (nextZcta : ℤ) (contact : CBuf 128) :
    Inv (wxOpened place station updateDays obsEvery nextZcta contact) := by
  refine ⟨nofun, nofun, nofun, fun _ => rfl, ?_⟩
  cases place with
  | coords lat lon => exact fun _ => rfl
  | zip zip => nofun

/-- In every run what is stored is for the place and the station that are set, and a
new place is looked up at once, exactly as long as every reply that is stored is of a
request started for what is set. -/
theorem weather_unmixed_iff (place : Place) (station : CBuf 16) (updateDays obsEvery : Double)
    (nextZcta : ℤ) (contact : CBuf 128) (evs : List WxEvent) :
    Along wxStep Unmixed (wxOpened place station updateDays obsEvery nextZcta contact) evs ↔
      Along wxStep StartedForSet (wxOpened place station updateDays obsEvery nextZcta contact)
        evs := by
  have hstep : ∀ m ev, Inv m → True → StartedForSet m ev → Inv (wxStep m ev) :=
    fun _ _ h _ hset => inv_wxStep h hset
  have hiff : ∀ m ev, Inv m → True → (Unmixed m ev ↔ StartedForSet m ev) :=
    fun _ ev h _ => unmixed_iff h ev
  exact @along_congr _ _ _ Inv _ _ (fun _ => True) hstep hiff _
    (inv_wxOpened place station updateDays obsEvery nextZcta contact) _ fun _ _ => trivial

/-- A module for 29° N, 95° W. -/
def houston : Wx :=
  wxOpened (.coords (Double.ofInt 29) (Double.ofInt (-95))) (CBuf.zero 16) Double.zero
    (Double.ofInt 300) 0 (CBuf.copy 128 (CString.lit "me@example.org"))

/-- A time at which everything works. -/
def atTime (t : Int32) : WxEnv :=
  { now := Double.ofInt t, wall := t.toInt, isoToEpoch := fun _ => 0, isoUtc := fun _ => none
    untilTomorrow := Double.ofInt 3600, startError := none, zcta := none
    zctaPath := CString.empty, zctaYear := 2024, installs := true }

/-- The place is changed while its look-up is in flight; then the reply comes. -/
def moveDuringLookUp : List WxEvent :=
  [.step none (atTime 10),
    .put 0 (CString.lit "\x7b\"weather.lat\":40,\"weather.lon\":-105\x7d"),
    .step (some
      { failure := none, code := 200
        body := CString.lit ("\x7b\"properties\":\x7b\"forecast\":\"https://a/f\"," ++
          "\"observationStations\":\"https://a/s\"\x7d\x7d") }) (atTime 11)]

/-- The address of the old place's forecast is stored for the new one, which is not
looked up before the next day. -/
theorem reply_outlives_move : ¬Along wxStep Unmixed houston moveDuringLookUp := by
  rintro ⟨-, -, hthird, -⟩
  have hstored := hthird.fresh .forecastUrl
    ⟨.coords (Double.ofInt 29) (Double.ofInt (-95)), []⟩ (by decide +kernel)
  revert hstored
  decide +kernel

end MoonFlare.WeatherGov
