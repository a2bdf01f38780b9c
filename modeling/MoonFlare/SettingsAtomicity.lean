import MoonFlare.ConfigGenerations
import MoonFlare.Phantom
import MoonFlare.WeatherGov

/-!
# Settings taken as a whole or not at all

A `PUT` of settings either leaves a module as it is or puts everything it names
in effect, as far as the order of the checks and the daemon's copy of the body
allow it. What a plugin's context means is a parameter: a view of its settings
and what it is for one of them to be in effect.
-/

namespace MoonFlare.Settings

open CJson Secrets

variable {κ ε S : Type}

/-- The settings the daemon keeps for every module. -/
structure Generic where
  name : CBuf 32
  pollIntervalS : Double
  captureIntervalS : Double
  retentionDays : Double
  active : Bool
  deriving DecidableEq

/-- The generic settings of a slot. -/
def generic (d : Slot κ ε) : Generic :=
  ⟨d.name, d.pollIntervalS, d.captureIntervalS, d.retentionDays, d.active⟩

/-- What a plugin's context means. -/
structure Meaning (κ S : Type) where
  /-- The plugin's settings. -/
  view : κ → S
  /-- The key is a setting of the plugin, and the value one it can have. -/
  wellTyped : CString → CJson → Prop
  /-- The setting has this value. -/
  has : κ → CString → CJson → Prop

/-! ## What a body gives -/

/-- A name that is given. -/
def givenName (v : Option CJson) : Option CString := v.bind string?

/-- A number that is given. -/
def givenNumber (v : Option CJson) : Option Double := v.bind settingNumber

/-- The document a client sends. -/
def sent (body : Bytes) : CJson := (parseWithLength body).getD .null

/-- What a client names for a key: masks, buttons and shown values apart. -/
def named (fields : List CJson) (doc : CJson) (key : CString) : Option CJson :=
  (doc.getCase key).filter fun v => !cleaned fields (key, v)

/-- The object the daemon reads from its text of the body; no object gives
nothing. -/
def handed (text : CString) : CJson := ((parse text).filter isObject).getD (.object [])

/-! ## The checks -/

/-- `active` is given and not a truth value. -/
def ActiveRefused (b : CJson) : Prop :=
  ∃ v, getCase? (some b) "active" = some v ∧ v.bool? = none

/-- The name that is given is empty, too long or taken. -/
def NameRefused (dv : Devices κ ε) (i : Fin mfDeviceSlots) (b : CJson) : Prop :=
  ∃ n, givenName (getCase? (some b) "name") = some n ∧
    (n.nonempty = false ∨ 32 ≤ n.length ∨ dv.nameTakenByOther i n = true)

/-- The poll interval that is given is below the driver's minimum. -/
def PollRefused (d : Slot κ ε) (b : CJson) : Prop :=
  ∃ iv, givenNumber (getCase? (some b) "poll_interval_s") = some iv ∧
    iv.lt (mfPollIntervalMin d.driver.str) = true

/-- The capture interval that is given is not one the module can have. -/
def CaptureRefused (d : Slot κ ε) (b : CJson) : Prop :=
  ∃ iv, givenNumber (getCase? (some b) "capture_interval_s") = some iv ∧
    match mfCaptureSpec d.ops with
    | none => iv.eq Double.zero = false
    | some spec => iv.lt Double.zero = true ∨ Double.zero.lt iv = true ∧ iv.lt spec.minS = true

/-- The retention that is given is not one the module can have. -/
def RetentionRefused (d : Slot κ ε) (b : CJson) : Prop :=
  ∃ iv, givenNumber (getCase? (some b) "retention_days") = some iv ∧
    match mfCaptureSpec d.ops with
    | none => iv.eq Double.zero = false
    | some _ => isWholeDays iv = false

/-- The generic settings after a body none of whose generic keys is refused. -/
def stored (d : Slot κ ε) (b : CJson) : Generic :=
  let number := fun key old => (givenNumber (getCase? (some b) key)).getD old
  { name := ((givenName (getCase? (some b) "name")).map (CBuf.copy 32)).getD d.name
    pollIntervalS := number "poll_interval_s" d.pollIntervalS
    captureIntervalS :=
      if (mfCaptureSpec d.ops).isSome then number "capture_interval_s" d.captureIntervalS
      else d.captureIntervalS
    retentionDays :=
      if (mfCaptureSpec d.ops).isSome then number "retention_days" d.retentionDays
      else d.retentionDays
    active := ((getCase? (some b) "active").bind bool?).getD d.active }

/-- No generic key is refused. -/
structure Passes (dv : Devices κ ε) (i : Fin mfDeviceSlots) (d : Slot κ ε) (b : CJson) : Prop where
  active : ¬ActiveRefused b
  name : ¬NameRefused dv i b
  poll : ¬PollRefused d b
  capture : ¬CaptureRefused d b
  retention : ¬RetentionRefused d b

/-- Put generic settings into a slot. -/
def setGeneric (d : Slot κ ε) (g : Generic) : Slot κ ε :=
  { d with
    name := g.name
    pollIntervalS := g.pollIntervalS
    captureIntervalS := g.captureIntervalS
    retentionDays := g.retentionDays
    active := g.active }

@[simp] theorem generic_setGeneric (d : Slot κ ε) (g : Generic) :
    generic (setGeneric d g) = g := rfl

@[simp] theorem setGeneric_generic (d : Slot κ ε) : setGeneric d (generic d) = d := rfl

@[simp] theorem setGeneric_ctx (d : Slot κ ε) (g : Generic) : (setGeneric d g).ctx = d.ctx := rfl

@[simp] theorem setGeneric_ops (d : Slot κ ε) (g : Generic) : (setGeneric d g).ops = d.ops := rfl

@[simp] theorem setGeneric_driver (d : Slot κ ε) (g : Generic) :
    (setGeneric d g).driver = d.driver := rfl

/-! ## One key at a time -/

theorem checkActive_cases (b : CJson) :
    ActiveRefused b ∧ checkActive b = .error .activeType ∨
      ¬ActiveRefused b ∧ checkActive b = .ok () := by
  unfold checkActive ActiveRefused
  cases hv : getCase? (some b) "active" with
  | none => exact Or.inr ⟨by simp, rfl⟩
  | some v => cases v <;> simp [bool?]

theorem putName_cases (dv : Devices κ ε) (i : Fin mfDeviceSlots) (b : CJson) (d : Slot κ ε) :
    (NameRefused dv i b ∧ ∃ e, putName dv i b d = .error e) ∨
      (¬NameRefused dv i b ∧
        putName dv i b d = .ok (setGeneric d { generic d with name := (stored d b).name })) := by
  unfold putName NameRefused
  have hname : (stored d b).name =
      ((givenName (getCase? (some b) "name")).map (CBuf.copy 32)).getD d.name := rfl
  rw [hname, givenName]
  cases (getCase? (some b) "name").bind string? with
  | none => exact Or.inr ⟨by simp, rfl⟩
  | some n =>
    by_cases h1 : n.nonempty = false
    · exact Or.inl ⟨⟨n, rfl, Or.inl h1⟩, by simp [h1]⟩
    by_cases h2 : 32 ≤ n.length
    · exact Or.inl ⟨⟨n, rfl, Or.inr (Or.inl h2)⟩, by simp [h1, h2]⟩
    by_cases h3 : dv.nameTakenByOther i n = true
    · exact Or.inl ⟨⟨n, rfl, Or.inr (Or.inr h3)⟩, by simp [h1, h2, h3]⟩
    · refine Or.inr ⟨by simp_all, ?_⟩
      simp only [h1, h2, h3, not_true_eq_false, if_false]
      rfl

theorem putPoll_cases (b : CJson) (d : Slot κ ε) {g : Generic}
    (hg : g.pollIntervalS = d.pollIntervalS) :
    (PollRefused d b ∧ ∃ e, putPoll b (setGeneric d g) = .error e) ∨
      (¬PollRefused d b ∧ putPoll b (setGeneric d g) =
        .ok (setGeneric d { g with pollIntervalS := (stored d b).pollIntervalS })) := by
  unfold putPoll PollRefused
  have hpoll : (stored d b).pollIntervalS =
      (givenNumber (getCase? (some b) "poll_interval_s")).getD d.pollIntervalS := rfl
  rw [hpoll, givenNumber, setGeneric_driver, ← hg]
  cases (getCase? (some b) "poll_interval_s").bind settingNumber with
  | none => exact Or.inr ⟨by simp, rfl⟩
  | some iv =>
    by_cases h : iv.lt (mfPollIntervalMin d.driver.str) = true
    · exact Or.inl ⟨⟨iv, rfl, h⟩, by simp [h]⟩
    · refine Or.inr ⟨by simp [h], ?_⟩
      simp only [h]
      rfl

theorem putCapture_cases (b : CJson) (d : Slot κ ε) {g : Generic}
    (hg : g.captureIntervalS = d.captureIntervalS) :
    (CaptureRefused d b ∧ ∃ e, putCapture b (setGeneric d g) = .error e) ∨
      (¬CaptureRefused d b ∧ putCapture b (setGeneric d g) =
        .ok (setGeneric d { g with captureIntervalS := (stored d b).captureIntervalS })) := by
  unfold putCapture CaptureRefused
  have hcapture : (stored d b).captureIntervalS = if (mfCaptureSpec d.ops).isSome then
      (givenNumber (getCase? (some b) "capture_interval_s")).getD d.captureIntervalS
      else d.captureIntervalS := rfl
  rw [hcapture, givenNumber, setGeneric_ops, ← hg]
  cases (getCase? (some b) "capture_interval_s").bind settingNumber with
  | none => exact Or.inr ⟨by simp, by simp⟩
  | some iv =>
    cases mfCaptureSpec d.ops with
    | none =>
      by_cases h : iv.eq Double.zero = true
      · exact Or.inr ⟨by simp [h], by simp [h]⟩
      · exact Or.inl ⟨⟨iv, rfl, by simpa using h⟩, by simp [h]⟩
    | some spec =>
      by_cases h : iv.lt Double.zero = true ∨ Double.zero.lt iv = true ∧ iv.lt spec.minS = true
      · exact Or.inl ⟨⟨iv, rfl, h⟩, by simp only [h, if_true]; exact ⟨_, rfl⟩⟩
      · refine Or.inr ⟨by simp only [Option.some.injEq, exists_eq_left']; exact h, ?_⟩
        simp only [h, if_false]
        rfl

theorem putRetention_cases (b : CJson) (d : Slot κ ε) {g : Generic}
    (hg : g.retentionDays = d.retentionDays) :
    (RetentionRefused d b ∧ ∃ e, putRetention b (setGeneric d g) = .error e) ∨
      (¬RetentionRefused d b ∧ putRetention b (setGeneric d g) =
        .ok (setGeneric d { g with retentionDays := (stored d b).retentionDays })) := by
  unfold putRetention RetentionRefused
  have hretention : (stored d b).retentionDays = if (mfCaptureSpec d.ops).isSome then
      (givenNumber (getCase? (some b) "retention_days")).getD d.retentionDays
      else d.retentionDays := rfl
  rw [hretention, givenNumber, setGeneric_ops, ← hg]
  cases (getCase? (some b) "retention_days").bind settingNumber with
  | none => exact Or.inr ⟨by simp, by simp⟩
  | some iv =>
    cases mfCaptureSpec d.ops with
    | none =>
      by_cases h : iv.eq Double.zero = true
      · exact Or.inr ⟨by simp [h], by simp [h]⟩
      · exact Or.inl ⟨⟨iv, rfl, by simpa using h⟩, by simp [h]⟩
    | some spec =>
      by_cases h : isWholeDays iv = true
      · refine Or.inr ⟨by simp [h], ?_⟩
        simp only [h, if_true]
        rfl
      · exact Or.inl ⟨⟨iv, rfl, by simpa using h⟩, by simp [h]⟩

theorem putActive_eq (b : CJson) (d : Slot κ ε) {g : Generic} (hg : g.active = d.active) :
    putActive b (setGeneric d g) = setGeneric d { g with active := (stored d b).active } := by
  unfold putActive
  have hactive : (stored d b).active = ((getCase? (some b) "active").bind bool?).getD d.active :=
    rfl
  rw [hactive, ← hg]
  cases (getCase? (some b) "active").bind bool? <;> rfl

/-! ## The generic keys in turn -/

/-- The generic settings when the first refused key is reached. -/
structure Reached (dv : Devices κ ε) (i : Fin mfDeviceSlots) (d : Slot κ ε) (b : CJson)
    (g : Generic) : Prop where
  early : ActiveRefused b ∨ NameRefused dv i b → g = generic d
  poll : ¬ActiveRefused b → ¬NameRefused dv i b → PollRefused d b →
    g = { generic d with name := (stored d b).name }
  capture : ¬ActiveRefused b → ¬NameRefused dv i b → ¬PollRefused d b → CaptureRefused d b →
    g = { generic d with
      name := (stored d b).name
      pollIntervalS := (stored d b).pollIntervalS }
  retention : ¬ActiveRefused b → ¬NameRefused dv i b → ¬PollRefused d b → ¬CaptureRefused d b →
    RetentionRefused d b →
    g = { stored d b with retentionDays := d.retentionDays, active := d.active }

/-- The generic keys are stored up to the first one that is refused, or all
together. -/
theorem putGeneric_cases (dv : Devices κ ε) (i : Fin mfDeviceSlots) (b : CJson) (d : Slot κ ε) :
    (Passes dv i d b ∧ putGeneric dv i b d = (setGeneric d (stored d b), .ok ())) ∨
      (¬Passes dv i d b ∧ ∃ g e, putGeneric dv i b d = (setGeneric d g, .error e) ∧
        Reached dv i d b g) := by
  unfold putGeneric
  rcases checkActive_cases b with ⟨hactive, hcheck⟩ | ⟨hactive, hcheck⟩
  · rw [hcheck]
    refine Or.inr ⟨fun h => h.active hactive, generic d, _, rfl, ?_⟩
    exact ⟨fun _ => rfl, fun h => absurd hactive h, fun h => absurd hactive h,
      fun h => absurd hactive h⟩
  rw [hcheck]
  dsimp only
  rcases putName_cases dv i b d with ⟨hname, e, hput⟩ | ⟨hname, hput⟩
  · rw [hput]
    refine Or.inr ⟨fun h => h.name hname, generic d, _, rfl, ?_⟩
    exact ⟨fun _ => rfl, fun _ h => absurd hname h, fun _ h => absurd hname h,
      fun _ h => absurd hname h⟩
  have hearly : ¬(ActiveRefused b ∨ NameRefused dv i b) := not_or.mpr ⟨hactive, hname⟩
  rw [hput]
  dsimp only
  rcases putPoll_cases b d (g := { generic d with name := (stored d b).name }) rfl with
    ⟨hpoll, e, hput⟩ | ⟨hpoll, hput⟩
  · rw [hput]
    refine Or.inr ⟨fun h => h.poll hpoll, _, _, rfl, ?_⟩
    exact ⟨fun h => absurd h hearly, fun _ _ _ => rfl, fun _ _ h => absurd hpoll h,
      fun _ _ h => absurd hpoll h⟩
  rw [hput]
  dsimp only
  rcases putCapture_cases b d (g := { generic d with
      name := (stored d b).name
      pollIntervalS := (stored d b).pollIntervalS }) rfl with ⟨hcapture, e, hput⟩ | ⟨hcapture, hput⟩
  · rw [hput]
    refine Or.inr ⟨fun h => h.capture hcapture, _, _, rfl, ?_⟩
    exact ⟨fun h => absurd h hearly, fun _ _ h => absurd h hpoll, fun _ _ _ _ => rfl,
      fun _ _ _ h => absurd hcapture h⟩
  rw [hput]
  dsimp only
  rcases putRetention_cases b d (g := { generic d with
      name := (stored d b).name
      pollIntervalS := (stored d b).pollIntervalS
      captureIntervalS := (stored d b).captureIntervalS }) rfl with
    ⟨hretention, e, hput⟩ | ⟨hretention, hput⟩
  · rw [hput]
    refine Or.inr ⟨fun h => h.retention hretention, _, _, rfl, ?_⟩
    exact ⟨fun h => absurd h hearly, fun _ _ h => absurd h hpoll,
      fun _ _ _ h => absurd h hcapture, fun _ _ _ _ _ => rfl⟩
  · rw [hput]
    dsimp only
    rw [putActive_eq b d rfl]
    exact Or.inl ⟨⟨hactive, hname, hpoll, hcapture, hretention⟩, rfl⟩

/-! ## The plugin's turn -/

/-- The plugin's answer to a text, when it can be asked. -/
def pluginCall (d : Slot κ ε) (text : CString) : Option (κ × MfErr × CString) :=
  (d.ops.bind (·.putSettings)).bind fun put => d.ctx.map fun c => put c text

/-- The plugin's answer when the text has keys for it. -/
def told (d : Slot κ ε) (text : CString) : Option (κ × MfErr × CString) :=
  if haveOther (handed text) then pluginCall d text else none

/-- A slot with its plugin's context after the call. -/
def setCtx (d : Slot κ ε) (answer : Option (κ × MfErr × CString)) : Slot κ ε :=
  { d with ctx := (answer.map Prod.fst).or d.ctx }

@[simp] theorem generic_setCtx (d : Slot κ ε) (answer : Option (κ × MfErr × CString)) :
    generic (setCtx d answer) = generic d := rfl

theorem putPlugin_eq (d : Slot κ ε) (g : Generic) (text : CString) :
    (putPlugin text (setGeneric d g)).1 = setCtx (setGeneric d g) (pluginCall d text) ∧
      (putPlugin text (setGeneric d g)).2.1 =
        ((pluginCall d text).map fun a => a.2.1.status).getD 200 := by
  unfold putPlugin pluginCall
  rw [setGeneric_ops, setGeneric_ctx]
  cases d.ops.bind (·.putSettings) with
  | none => exact ⟨rfl, rfl⟩
  | some put =>
    cases d.ctx with
    | none => exact ⟨rfl, rfl⟩
    | some c => exact ⟨rfl, rfl⟩

theorem passes_empty (dv : Devices κ ε) (i : Fin mfDeviceSlots) (d : Slot κ ε) :
    Passes dv i d (.object []) := by
  have hnone (k : String) : getCase? (some (.object [])) k = none := rfl
  refine ⟨?_, ?_, ?_, ?_, ?_⟩
  · simp [ActiveRefused, hnone]
  · simp [NameRefused, hnone, givenName]
  · simp [PollRefused, hnone, givenNumber]
  · simp [CaptureRefused, hnone, givenNumber]
  · simp [RetentionRefused, hnone, givenNumber]

theorem stored_empty (d : Slot κ ε) : stored d (.object []) = generic d := by
  have hnone (k : String) : getCase? (some (.object [])) k = none := rfl
  simp [stored, hnone, givenName, givenNumber, generic]

/-- What the slot is after the call, and the status. -/
theorem putSlot_cases (dv : Devices κ ε) (i : Fin mfDeviceSlots) (text : CString) (d : Slot κ ε) :
    (Passes dv i d (handed text) ∧
        (putSlot dv i text d).1 =
          setCtx (setGeneric d (stored d (handed text))) (told d text) ∧
        (putSlot dv i text d).2.1 = ((told d text).map fun a => a.2.1.status).getD 200) ∨
      (¬Passes dv i d (handed text) ∧ (putSlot dv i text d).2.1 = 400 ∧
        ∃ g, (putSlot dv i text d).1 = setGeneric d g ∧ Reached dv i d (handed text) g) := by
  unfold putSlot told
  cases hobj : (parse text).filter isObject with
  | none =>
    have hempty : handed text = .object [] := by rw [handed, hobj, Option.getD_none]
    rw [hempty]
    refine Or.inl ⟨passes_empty dv i d, ?_, rfl⟩
    rw [stored_empty]
    rfl
  | some b =>
    have hhanded : handed text = b := by rw [handed, hobj, Option.getD_some]
    rw [hhanded]
    dsimp only
    rcases putGeneric_cases dv i b d with ⟨hpass, hput⟩ | ⟨hpass, g, e, hput, hreached⟩
    · refine Or.inl ⟨hpass, ?_⟩
      rw [hput]
      dsimp only
      split
      · exact putPlugin_eq d _ text
      · exact ⟨rfl, rfl⟩
    · rw [hput]
      exact Or.inr ⟨hpass, rfl, g, rfl, hreached⟩

/-! ## What is promised, and when it holds -/

/-- What a slot's settings are: the daemon's, and the view of its plugin. -/
def shown (m : Meaning κ S) (d : Slot κ ε) : Generic × Option S :=
  (generic d, d.ctx.map m.view)

/-- Everything a client names with a value of the right type is what the module
has. Capture settings are only settings of a module that captures. -/
structure InEffect (m : Meaning κ S) (fields : List CJson) (doc : CJson) (d : Slot κ ε) : Prop where
  name : ∀ n, givenName (named fields doc (CString.lit "name")) = some n → d.name.str = n
  poll : ∀ v, givenNumber (named fields doc (CString.lit "poll_interval_s")) = some v →
    d.pollIntervalS = v
  capture : (mfCaptureSpec d.ops).isSome → ∀ v,
    givenNumber (named fields doc (CString.lit "capture_interval_s")) = some v →
      d.captureIntervalS = v
  retention : (mfCaptureSpec d.ops).isSome → ∀ v,
    givenNumber (named fields doc (CString.lit "retention_days")) = some v → d.retentionDays = v
  active : ∀ v, (named fields doc (CString.lit "active")).bind bool? = some v → d.active = v
  plugin : ∀ k v, isPluginKey k = true → named fields doc k = some v → m.wellTyped k v →
    ∃ c, d.ctx = some c ∧ m.has c k v

/-- A `PUT` of settings is atomic: refused, it leaves what every slot shows;
taken, everything it names is in effect. -/
structure PutAtomic (m : Meaning κ S) (env : RestEnv) (s : Daemon κ ε) (id : CString)
    (body : Bytes) : Prop where
  refused : (handleSettingsPut env s id body).2.status ≠ 200 → ∀ j,
    ((handleSettingsPut env s id body).1.dv.slots j).map (shown m) = (s.dv.slots j).map (shown m)
  taken : (handleSettingsPut env s id body).2.status = 200 → ∃ i d,
    s.dv.findLive id = some i ∧ (handleSettingsPut env s id body).1.dv.slots i = some d ∧
      InEffect m (restFields (deviceOps s.dv id)) (sent body) d

/-- A value arrives: the text handed on gives it, or gives none and the slot
has it already. -/
def Arrives {α : Type} (given : Option α) (now v : α) : Prop :=
  given = some v ∨ given = none ∧ now = v

/-- What a body names arrives. -/
structure NamedArrives (m : Meaning κ S) (fields : List CJson) (doc : CJson) (text : CString)
    (d : Slot κ ε) : Prop where
  name : ∀ n, givenName (named fields doc (CString.lit "name")) = some n →
    Arrives (givenName (getCase? (some (handed text)) "name")) d.name.str n
  poll : ∀ v, givenNumber (named fields doc (CString.lit "poll_interval_s")) = some v →
    Arrives (givenNumber (getCase? (some (handed text)) "poll_interval_s")) d.pollIntervalS v
  capture : (mfCaptureSpec d.ops).isSome → ∀ v,
    givenNumber (named fields doc (CString.lit "capture_interval_s")) = some v →
      Arrives (givenNumber (getCase? (some (handed text)) "capture_interval_s"))
        d.captureIntervalS v
  retention : (mfCaptureSpec d.ops).isSome → ∀ v,
    givenNumber (named fields doc (CString.lit "retention_days")) = some v →
      Arrives (givenNumber (getCase? (some (handed text)) "retention_days")) d.retentionDays v
  active : ∀ v, (named fields doc (CString.lit "active")).bind bool? = some v →
    Arrives ((getCase? (some (handed text)) "active").bind bool?) d.active v
  plugin : ∀ k v, isPluginKey k = true → named fields doc k = some v → m.wellTyped k v →
    ∃ c, ((told d text).map Prod.fst).or d.ctx = some c ∧ m.has c k v

/-- The condition. A refused key comes behind keys that repeat what the slot
has, in the order name, poll, capture, retention; a plugin that refuses leaves
its settings, and comes behind generic keys that all repeat what the slot has;
and what a body that is taken names arrives. -/
structure AtomicWhen (m : Meaning κ S) (dv : Devices κ ε) (i : Fin mfDeviceSlots) (d : Slot κ ε)
    (fields : List CJson) (body : Bytes) (text : CString) : Prop where
  poll : ¬ActiveRefused (handed text) → ¬NameRefused dv i (handed text) →
    PollRefused d (handed text) → (stored d (handed text)).name = d.name
  capture : ¬ActiveRefused (handed text) → ¬NameRefused dv i (handed text) →
    ¬PollRefused d (handed text) → CaptureRefused d (handed text) →
      (stored d (handed text)).name = d.name ∧
        (stored d (handed text)).pollIntervalS = d.pollIntervalS
  retention : ¬ActiveRefused (handed text) → ¬NameRefused dv i (handed text) →
    ¬PollRefused d (handed text) → ¬CaptureRefused d (handed text) →
    RetentionRefused d (handed text) →
      (stored d (handed text)).name = d.name ∧
        (stored d (handed text)).pollIntervalS = d.pollIntervalS ∧
          (stored d (handed text)).captureIntervalS = d.captureIntervalS
  plugin : Passes dv i d (handed text) → ∀ c' rc err, told d text = some (c', rc, err) →
    rc ≠ .ok → stored d (handed text) = generic d ∧ d.ctx.map m.view = some (m.view c')
  named : Passes dv i d (handed text) →
    (∀ c' rc err, told d text = some (c', rc, err) → rc = .ok) →
      NamedArrives m fields (sent body) text d

theorem status_eq_200_iff {rc : MfErr} : rc.status = 200 ↔ rc = .ok := by
  cases rc <;> simp [MfErr.status]

theorem status_getD_eq_200_iff {answer : Option (κ × MfErr × CString)} :
    (answer.map fun a => a.2.1.status).getD 200 = 200 ↔
      ∀ c' rc err, answer = some (c', rc, err) → rc = .ok := by
  cases answer with
  | none => simp
  | some a =>
    obtain ⟨c', rc, err⟩ := a
    simp only [Option.map_some, Option.getD_some, status_eq_200_iff, Option.some.injEq,
      Prod.mk.injEq]
    constructor
    · rintro h _ _ _ ⟨-, rfl, -⟩
      exact h
    · intro h
      exact h c' rc err ⟨rfl, rfl, rfl⟩

/-- The stored settings are what arrives. -/
theorem stored_number {given : Option Double} {now v : Double} :
    given.getD now = v ↔ Arrives given now v := by
  cases given <;> simp [Arrives]

/-- A name that passes is stored whole. -/
theorem stored_name {dv : Devices κ ε} {i : Fin mfDeviceSlots} {b : CJson} {d : Slot κ ε}
    (h : ¬NameRefused dv i b) {n : CString} :
    (stored d b).name.str = n ↔
      Arrives (givenName (getCase? (some b) "name")) d.name.str n := by
  have hname : (stored d b).name =
      ((givenName (getCase? (some b) "name")).map (CBuf.copy 32)).getD d.name := rfl
  rw [hname]
  cases hgiven : givenName (getCase? (some b) "name") with
  | none => simp [Arrives]
  | some n' =>
    have hfits : n'.length < 32 := by
      by_contra hlong
      exact h ⟨n', hgiven, Or.inr (Or.inl (by omega))⟩
    simp only [Option.map_some, Option.getD_some, Arrives, Option.some.injEq, reduceCtorEq,
      false_and, or_false]
    rw [CBuf.str_copy_of_lt hfits]

/-- What is named is in effect in the slot that is left exactly when it
arrives. -/
theorem inEffect_iff {m : Meaning κ S} {dv : Devices κ ε} {i : Fin mfDeviceSlots} {d : Slot κ ε}
    {fields : List CJson} {doc : CJson} {text : CString} (hpass : Passes dv i d (handed text)) :
    InEffect m fields doc (setCtx (setGeneric d (stored d (handed text))) (told d text)) ↔
      NamedArrives m fields doc text d := by
  have hcapture (h : (mfCaptureSpec d.ops).isSome = true) :
      (stored d (handed text)).captureIntervalS =
        (givenNumber (getCase? (some (handed text)) "capture_interval_s")).getD
          d.captureIntervalS := if_pos h
  have hretention (h : (mfCaptureSpec d.ops).isSome = true) :
      (stored d (handed text)).retentionDays =
        (givenNumber (getCase? (some (handed text)) "retention_days")).getD
          d.retentionDays := if_pos h
  constructor
  · intro h
    refine ⟨fun n hn => (stored_name hpass.name).mp (h.name n hn),
      fun v hv => stored_number.mp (h.poll v hv), fun hspec v hv => ?_, fun hspec v hv => ?_,
      fun v hv => ?_, h.plugin⟩
    · exact stored_number.mp ((hcapture hspec).symm.trans (h.capture hspec v hv))
    · exact stored_number.mp ((hretention hspec).symm.trans (h.retention hspec v hv))
    · have hactive := h.active v hv
      cases hgiven : (getCase? (some (handed text)) "active").bind bool? <;>
        simpa [setCtx, setGeneric, stored, hgiven, Arrives] using hactive
  · intro h
    refine ⟨fun n hn => (stored_name hpass.name).mpr (h.name n hn),
      fun v hv => stored_number.mpr (h.poll v hv), fun hspec v hv => ?_, fun hspec v hv => ?_,
      fun v hv => ?_, h.plugin⟩
    · exact (hcapture hspec).trans (stored_number.mpr (h.capture hspec v hv))
    · exact (hretention hspec).trans (stored_number.mpr (h.retention hspec v hv))
    · have hactive := h.active v hv
      cases hgiven : (getCase? (some (handed text)) "active").bind bool? <;>
        simpa [setCtx, setGeneric, stored, hgiven, Arrives] using hactive

/-! ## The request -/

/-- A live module stays the one its id names while it keeps its uuid. -/
theorem findLive_setSlot {dv : Devices κ ε} {id : CString} {i : Fin mfDeviceSlots}
    {d d' : Slot κ ε} (hd : dv.slots i = some d) (huuid : d'.uuid = d.uuid)
    (hstop : d'.stop = d.stop) : (dv.setSlot i (some d')).findLive id = dv.findLive id := by
  have hslot (j : Fin mfDeviceSlots) :
      (((dv.setSlot i (some d')).slots j).any fun d => !d.stop && decide (d.uuid.str = id)) =
        (dv.slots j).any fun d => !d.stop && decide (d.uuid.str = id) := by
    by_cases hj : j = i
    · subst hj
      simp [Devices.setSlot, hd, huuid, hstop]
    · simp [Devices.setSlot, hj]
  simp only [Devices.findLive, Devices.findSlot, hslot]

/-- The settings of a live module are found. -/
theorem handleSettingsGet_status {env : RestEnv} {s : Daemon κ ε} {id : CString}
    {i : Fin mfDeviceSlots} {d : Slot κ ε} (hlive : s.dv.findLive id = some i)
    (hd : s.dv.slots i = some d) : (handleSettingsGet env s id).status = 200 := by
  simp [handleSettingsGet, mfDevicesGetSettings, hlive, hd]

/-- A module that is not live: nothing changes. -/
theorem handleSettingsPut_of_not_live {env : RestEnv} {s : Daemon κ ε} {id : CString} {body : Bytes}
    (h : s.dv.findLive id = none) :
    (handleSettingsPut env s id body).1 = s ∧
      (handleSettingsPut env s id body).2.status = 404 := by
  simp [handleSettingsPut, mfDevicesPutSettings, h]

/-- A live module: its slot is what `putSlot` leaves, and the status is the
one it gives. -/
theorem handleSettingsPut_of_live {env : RestEnv} {s : Daemon κ ε} {id : CString} {body : Bytes}
    {i : Fin mfDeviceSlots} {d : Slot κ ε} (hlive : s.dv.findLive id = some i)
    (hd : s.dv.slots i = some d) :
    let put := putSlot s.dv i (settingsText (restFields (deviceOps s.dv id)) body) d
    (handleSettingsPut env s id body).1.dv = s.dv.setSlot i (some put.1) ∧
      (handleSettingsPut env s id body).2.status = put.2.1 := by
  intro put
  have hkept : put.1.uuid = d.uuid ∧ put.1.stop = d.stop := by
    rcases putSlot_cases s.dv i (settingsText (restFields (deviceOps s.dv id)) body) d with
      ⟨-, hslot, -⟩ | ⟨-, -, g, hslot, -⟩
    · exact ⟨(congrArg Slot.uuid hslot).trans rfl, (congrArg Slot.stop hslot).trans rfl⟩
    · exact ⟨(congrArg Slot.uuid hslot).trans rfl, (congrArg Slot.stop hslot).trans rfl⟩
  have hput : mfDevicesPutSettings s.dv id (settingsText (restFields (deviceOps s.dv id)) body) =
      (s.dv.setSlot i (some put.1), put.2.1, put.2.2) := by
    simp only [mfDevicesPutSettings, hlive, hd]
    rfl
  unfold handleSettingsPut
  dsimp only
  rw [hput]
  dsimp only
  by_cases hstatus : put.2.1 = 200
  · rw [if_neg (not_not.mpr hstatus), hstatus]
    refine ⟨rfl, handleSettingsGet_status (i := i) (d := put.1) ?_ ?_⟩
    · exact (findLive_setSlot hd hkept.1 hkept.2).trans hlive
    · exact Function.update_self i _ _
  · rw [if_pos hstatus]
    exact ⟨rfl, rfl⟩

/-- The slots after a change of one show what they showed exactly when that one
does. -/
theorem shown_setSlot_iff {m : Meaning κ S} {dv : Devices κ ε} {i : Fin mfDeviceSlots}
    {d d' : Slot κ ε} (hd : dv.slots i = some d) :
    (∀ j, ((dv.setSlot i (some d')).slots j).map (shown m) = (dv.slots j).map (shown m)) ↔
      shown m d' = shown m d := by
  constructor
  · intro h
    have hi := h i
    rw [hd] at hi
    simpa [Devices.setSlot] using hi
  · intro h j
    by_cases hj : j = i
    · subst hj
      simp [Devices.setSlot, hd, h]
    · simp [Devices.setSlot, hj]

/-- A generic key was refused: the slot shows what it showed exactly under the
condition on the keys in front of it. -/
theorem shown_of_reached_iff {m : Meaning κ S} {dv : Devices κ ε} {i : Fin mfDeviceSlots}
    {d : Slot κ ε} {fields : List CJson} {body : Bytes} {text : CString} {g : Generic}
    (hpass : ¬Passes dv i d (handed text)) (h : Reached dv i d (handed text) g) :
    shown m (setGeneric d g) = shown m d ↔ AtomicWhen m dv i d fields body text := by
  have hshown : shown m (setGeneric d g) = shown m d ↔ g = generic d := by
    simp [shown]
  rw [hshown]
  constructor
  · intro hg
    refine ⟨fun h1 h2 h3 => ?_, fun h1 h2 h3 h4 => ?_, fun h1 h2 h3 h4 h5 => ?_,
      fun hp => absurd hp hpass, fun hp => absurd hp hpass⟩
    · have hreached := (h.poll h1 h2 h3).symm.trans hg
      exact congrArg Generic.name hreached
    · have hreached := (h.capture h1 h2 h3 h4).symm.trans hg
      exact ⟨congrArg Generic.name hreached, congrArg Generic.pollIntervalS hreached⟩
    · have hreached := (h.retention h1 h2 h3 h4 h5).symm.trans hg
      exact ⟨congrArg Generic.name hreached, congrArg Generic.pollIntervalS hreached,
        congrArg Generic.captureIntervalS hreached⟩
  · intro hwhen
    by_cases h1 : ActiveRefused (handed text)
    · exact h.early (Or.inl h1)
    by_cases h2 : NameRefused dv i (handed text)
    · exact h.early (Or.inr h2)
    by_cases h3 : PollRefused d (handed text)
    · rw [h.poll h1 h2 h3, hwhen.poll h1 h2 h3]
      rfl
    by_cases h4 : CaptureRefused d (handed text)
    · obtain ⟨hname, hpoll⟩ := hwhen.capture h1 h2 h3 h4
      rw [h.capture h1 h2 h3 h4, hname, hpoll]
      rfl
    by_cases h5 : RetentionRefused d (handed text)
    · obtain ⟨hname, hpoll, hcapture⟩ := hwhen.retention h1 h2 h3 h4 h5
      rw [h.retention h1 h2 h3 h4 h5]
      simp only [generic, hname, hpoll, hcapture]
    · exact absurd ⟨h1, h2, h3, h4, h5⟩ hpass

/-- No generic key was refused, and the plugin said yes or was not asked. -/
theorem atomicWhen_of_taken_iff {m : Meaning κ S} {dv : Devices κ ε} {i : Fin mfDeviceSlots}
    {d : Slot κ ε} {fields : List CJson} {body : Bytes} {text : CString}
    (hpass : Passes dv i d (handed text))
    (htaken : ∀ c' rc err, told d text = some (c', rc, err) → rc = .ok) :
    AtomicWhen m dv i d fields body text ↔ NamedArrives m fields (sent body) text d := by
  constructor
  · intro h
    exact h.named hpass htaken
  · intro h
    exact ⟨fun _ _ h3 => absurd h3 hpass.poll, fun _ _ _ h4 => absurd h4 hpass.capture,
      fun _ _ _ _ h5 => absurd h5 hpass.retention,
      fun _ c' rc err hsome hno => absurd (htaken c' rc err hsome) hno, fun _ _ => h⟩

/-- No generic key was refused, and the plugin said no. -/
theorem atomicWhen_of_told_iff {m : Meaning κ S} {dv : Devices κ ε} {i : Fin mfDeviceSlots}
    {d : Slot κ ε} {fields : List CJson} {body : Bytes} {text : CString}
    (hpass : Passes dv i d (handed text)) {c' : κ} {rc : MfErr} {err : CString}
    (htold : told d text = some (c', rc, err)) (hno : rc ≠ .ok) :
    AtomicWhen m dv i d fields body text ↔
      shown m (setCtx (setGeneric d (stored d (handed text))) (told d text)) = shown m d := by
  have hshown : shown m (setCtx (setGeneric d (stored d (handed text))) (told d text)) =
      shown m d ↔ stored d (handed text) = generic d ∧ d.ctx.map m.view = some (m.view c') := by
    rw [htold]
    exact Prod.ext_iff.trans (and_congr_right' eq_comm)
  rw [hshown]
  constructor
  · intro h
    exact h.plugin hpass c' rc err htold hno
  · intro h
    refine ⟨fun _ _ h3 => absurd h3 hpass.poll, fun _ _ _ h4 => absurd h4 hpass.capture,
      fun _ _ _ _ h5 => absurd h5 hpass.retention, fun _ c'' rc'' err'' hsome _ => ?_,
      fun _ hall => absurd (hall c' rc err htold) hno⟩
    rw [htold, Option.some.injEq, Prod.mk.injEq] at hsome
    exact hsome.1 ▸ h

/-- The request on a live module is atomic exactly under the condition. -/
theorem putAtomic_iff (m : Meaning κ S) (env : RestEnv) (s : Daemon κ ε) (id : CString)
    (body : Bytes) :
    PutAtomic m env s id body ↔
      ∀ i d, s.dv.findLive id = some i → s.dv.slots i = some d →
        AtomicWhen m s.dv i d (restFields (deviceOps s.dv id)) body
          (settingsText (restFields (deviceOps s.dv id)) body) := by
  cases hlive : s.dv.findLive id with
  | none =>
    obtain ⟨hsame, hstatus⟩ := @handleSettingsPut_of_not_live _ _ env s id body hlive
    refine iff_of_true ⟨fun _ j => by rw [hsame], fun h => ?_⟩ fun i d hi => by simp at hi
    rw [hstatus] at h
    simp at h
  | some i =>
    obtain ⟨d, hd, -⟩ : ∃ d, s.dv.slots i = some d ∧ _ := by
      unfold Devices.findLive at hlive
      split at hlive
      · exact Devices.findSlot_some hlive
      · simp at hlive
    have hone : (∀ i' d', some i = some i' → s.dv.slots i' = some d' →
        AtomicWhen m s.dv i' d' (restFields (deviceOps s.dv id)) body
          (settingsText (restFields (deviceOps s.dv id)) body)) ↔
        AtomicWhen m s.dv i d (restFields (deviceOps s.dv id)) body
          (settingsText (restFields (deviceOps s.dv id)) body) := by
      refine ⟨fun h => h i d rfl hd, fun h i' d' hi' hd' => ?_⟩
      obtain rfl := Option.some.inj hi'
      exact Option.some.inj (hd.symm.trans hd') ▸ h
    rw [hone]
    obtain ⟨hdv, hstatus⟩ := @handleSettingsPut_of_live _ _ env s id body i d hlive hd
    have hslot : (handleSettingsPut env s id body).1.dv.slots i =
        some (putSlot s.dv i (settingsText (restFields (deviceOps s.dv id)) body) d).1 := by
      rw [hdv]
      exact Function.update_self i _ _
    have hatomic : PutAtomic m env s id body ↔
        ((putSlot s.dv i (settingsText (restFields (deviceOps s.dv id)) body) d).2.1 ≠ 200 →
          shown m (putSlot s.dv i (settingsText (restFields (deviceOps s.dv id)) body) d).1 =
            shown m d) ∧
        ((putSlot s.dv i (settingsText (restFields (deviceOps s.dv id)) body) d).2.1 = 200 →
          InEffect m (restFields (deviceOps s.dv id)) (sent body)
            (putSlot s.dv i (settingsText (restFields (deviceOps s.dv id)) body) d).1) := by
      constructor
      · intro h
        refine ⟨fun hne => ?_, fun heq => ?_⟩
        · have hall := h.refused (hstatus ▸ hne)
          rw [hdv] at hall
          exact (shown_setSlot_iff hd).mp hall
        · obtain ⟨i', d', hi', hd', heff⟩ := h.taken (hstatus ▸ heq)
          obtain rfl := Option.some.inj (hlive.symm.trans hi')
          rw [Option.some.inj (hslot.symm.trans hd')]
          exact heff
      · rintro ⟨hrefused, htaken⟩
        refine ⟨fun hne => ?_, fun heq => ⟨i, _, hlive, hslot, htaken (hstatus ▸ heq)⟩⟩
        rw [hdv]
        exact (shown_setSlot_iff hd).mpr (hrefused (hstatus ▸ hne))
    rw [hatomic]
    rcases putSlot_cases s.dv i (settingsText (restFields (deviceOps s.dv id)) body) d with
      ⟨hpass, hleft, hrc⟩ | ⟨hpass, hrc, g, hleft, hreached⟩
    · rw [hleft, hrc]
      by_cases hok : ∀ c' rc err,
          told d (settingsText (restFields (deviceOps s.dv id)) body) = some (c', rc, err) → rc = .ok
      · rw [atomicWhen_of_taken_iff hpass hok, ← inEffect_iff hpass]
        have h200 := status_getD_eq_200_iff.mpr hok
        exact ⟨fun h => h.2 h200, fun h => ⟨fun hne => absurd h200 hne, fun _ => h⟩⟩
      · have hne := mt status_getD_eq_200_iff.mp hok
        simp only [not_forall] at hok
        obtain ⟨c', rc, err, htold, hno⟩ := hok
        rw [atomicWhen_of_told_iff hpass htold hno]
        exact ⟨fun h => h.1 hne, fun h => ⟨fun _ => h, fun heq => absurd heq hne⟩⟩
    · rw [hleft, hrc, ← shown_of_reached_iff hpass hreached]
      exact ⟨fun h => h.1 (by decide), fun h => ⟨fun _ => h, fun heq => absurd heq (by decide)⟩⟩

/-- A daemon with one battery. -/
def packDaemon : Daemon Xd.XdCtx Xd.XdEnv :=
  (handleDevicesCreate Generations.calmEnv Generations.batteryDaemon (ascii
    "\x7b\"name\":\"Pack\",\"kind\":\"battery\",\"driver\":\"xd\"\x7d")).1

end MoonFlare.Settings
