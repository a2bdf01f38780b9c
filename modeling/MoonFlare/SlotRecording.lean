import MoonFlare.DeviceSlots
import MoonFlare.HistoryRetention

/-!
# Adding a module and its history

A module that is added is registered with the history, and its policy is set there,
before its plugin is opened. When the plugin does not open the slot is given up, but
the history keeps what it was told. That changes what the history has exactly when the
module is new there and captures, or is known there with another policy.
-/

namespace MoonFlare

open History

variable {κ ε : Type}

/-! ## The calls to the history -/

/-- What the surroundings decide in the calls to the history. -/
structure RecordEnv where
  /-- `open_module_file` opens the file. -/
  opens : Bool
  /-- `sync_columns` succeeds. -/
  syncs : Bool
  hist : HistEnv

/-- What `mf_capture_spec` prints, when it fits. -/
def captureText (ops : Option (PluginOps κ ε)) (cap : ℕ) : Option CString :=
  match mfCaptureSpec ops, getCase? (pluginDescribe ops) "capture" with
  | some _, some c =>
    let text := CString.ofBytes c.print
    if text.length < cap then some text else none
  | _, _ => none

/-- An unused slot of the history. -/
def freePlace (st : Store) : Option (Fin mfHistoryMaxModules) :=
  (List.finRange mfHistoryMaxModules).find? fun i => (st.mods i).isNone

/-- The slot that `mf_history_register` takes, and the module in it. -/
def placeOf (st : Store) (uuid : CString) (opens : Bool) :
    Option (Fin mfHistoryMaxModules × HistMod) :=
  match st.findMod uuid with
  | some i => (st.mods i).map fun m => (i, m)
  | none =>
    match freePlace st with
    | some i => if opens then some (i, Store.newMod uuid) else none
    | none => none

/-- `mf_history_register`, also when the file does not open or the columns are not all
made; what was written into the file by then is left out. -/
def registerTry (st : Store) (uuid name kind driver capture : CString) (e : RecordEnv) : Store :=
  if !st.isOpen ∨ !safeUuid uuid then st
  else
    match placeOf st uuid e.opens with
    | none => st
    | some (i, m) =>
      if e.syncs then st.registerAt i m uuid name kind driver capture e.hist
      else st.setMod i (some (Store.takeSpec m kind (parseSpec capture)))

/-- `history_register`. -/
def historyRegister (st : Store) (d : Slot κ ε) (e : RecordEnv) : Store :=
  if !st.isOpen then st
  else match captureText d.ops 2048 with
    | some text => registerTry st d.uuid.str d.name.str d.kind.str d.driver.str text e
    | none => st

/-- `history_retention`. -/
def historyRetention (st : Store) (d : Slot κ ε) : Store :=
  if st.isOpen then (st.setRetention d.uuid.str d.retentionDays).1 else st

/-- A new slot is filled in: the history is told of it, and then its plugin is opened. -/
def fillSlot (dv : Devices κ ε) (st : Store) (name kind driver spec : CString) (uuid : CBuf 37)
    (e : RecordEnv) (i : Fin mfDeviceSlots) : Devices κ ε × Store × Except AddError (CBuf 37) :=
  let d := newSlot (mfPluginsFind dv.registry kind driver) name kind driver spec uuid
  let st := historyRetention (historyRegister st d e) d
  match openSlot dv.historyOpen spec d with
  | .error err => (dv, st, .error err)
  | .ok (d, samples) =>
    ({ dv.setSlot i (some d) with samples := dv.samples ++ samples }, st, .ok uuid)

/-- `mf_devices_add` with its calls to the history. -/
def mfDevicesAddRecorded (dv : Devices κ ε) (st : Store) (name kind driver spec uuidIn : CString)
    (generated : CBuf 37) (e : RecordEnv) : Devices κ ε × Store × Except AddError (CBuf 37) :=
  if ¬name.nonempty ∨ ¬kind.nonempty ∨ ¬driver.nonempty then (dv, st, .error .required)
  else if 32 ≤ name.length then (dv, st, .error .nameTooLong)
  else if dv.nameTaken name then (dv, st, .error .nameInUse)
  else if dv.uuidInUse uuidIn then (dv, st, .error .uuidInUse)
  else if dv.registry ≠ [] ∧ (mfPluginsFind dv.registry kind driver).isNone then
    (dv, st, .error .unknownDriver)
  else
    match dv.freeSlot with
    | none => ({ dv with limitHit := true }, st, .error .limit)
    | some i =>
      let uuid := if uuidIn.nonempty then CBuf.copy 37 uuidIn else generated
      fillSlot dv st name kind driver spec uuid e i

/-- The slots and the result are those of `mf_devices_add` alone. -/
theorem mfDevicesAddRecorded_devices (dv : Devices κ ε) (st : Store)
    (name kind driver spec uuidIn : CString) (generated : CBuf 37) (e : RecordEnv) :
    ((mfDevicesAddRecorded dv st name kind driver spec uuidIn generated e).1,
      (mfDevicesAddRecorded dv st name kind driver spec uuidIn generated e).2.2) =
      mfDevicesAdd dv name kind driver spec uuidIn generated := by
  unfold mfDevicesAddRecorded mfDevicesAdd
  split_ifs
  · rfl
  · rfl
  · rfl
  · rfl
  · rfl
  all_goals
    cases dv.freeSlot with
    | none => rfl
    | some i =>
      dsimp only [fillSlot]
      cases openSlot dv.historyOpen spec _ with
      | error err => rfl
      | ok opened => rfl

/-! ## What the history has -/

/-- What `mf_history_retention` reports of a module. -/
def History.HistMod.policy (m : HistMod) : Double := if m.captures then keepDaysOf m else Double.negOne

/-- A registered module's policy, nothing when it is not registered. -/
def History.Store.policy (st : Store) (uuid : CString) : Option Double :=
  (st.modOf uuid).map HistMod.policy

variable {st : Store} {i : Fin mfHistoryMaxModules} {uuid v : CString} {m' : HistMod}

theorem findMod_spec (h : st.findMod uuid = some i) :
    ∃ m, st.mods i = some m ∧ m.uuid.str = uuid := by
  have hfound := List.find?_some h
  cases hm : st.mods i with
  | none => simp [hm] at hfound
  | some m => exact ⟨m, rfl, by simpa [hm] using hfound⟩

/-- A slot is written for a module in its own place, or in a free one when it has none. -/
structure Place (st : Store) (uuid : CString) (i : Fin mfHistoryMaxModules) : Prop where
  own : ∀ m, st.mods i = some m → m.uuid.str = uuid
  first : st.findMod uuid = some i ∨ st.findMod uuid = none

theorem place_of_findMod (h : st.findMod uuid = some i) : Place st uuid i := by
  obtain ⟨m, hm, hmu⟩ := findMod_spec h
  refine ⟨fun m' hm' => ?_, Or.inl h⟩
  rw [hm, Option.some_inj] at hm'
  rw [← hm', hmu]

theorem findMod_setMod_ne (hplace : Place st uuid i) (hm' : m'.uuid.str = uuid) (hne : v ≠ uuid) :
    (st.setMod i (some m')).findMod v = st.findMod v := by
  unfold Store.findMod
  congr 1
  funext j
  by_cases hj : j = i
  · subst hj
    rw [Store.mods_setMod_self, Option.any_some, hm', decide_eq_false hne.symm]
    cases hm : st.mods j with
    | none => rfl
    | some m => rw [Option.any_some, hplace.own m hm, decide_eq_false hne.symm]
  · rw [Store.mods_setMod_of_ne _ hj]

theorem findMod_setMod_self (hplace : Place st uuid i) (hm' : m'.uuid.str = uuid) :
    (st.setMod i (some m')).findMod uuid = some i := by
  have hself := st.mods_setMod_self i (some m')
  rcases hplace.first with hfirst | hfirst
  · have hsame : (st.setMod i (some m')).findMod uuid = st.findMod uuid := by
      obtain ⟨m, hm, hmu⟩ := findMod_spec hfirst
      unfold Store.findMod
      congr 1
      funext k
      by_cases hk : k = i
      · subst hk
        rw [hself, hm, Option.any_some, Option.any_some, hm', hmu]
      · rw [Store.mods_setMod_of_ne _ hk]
    rw [hsame, hfirst]
  · have hexists : ((st.setMod i (some m')).findMod uuid).isSome := by
      rw [Store.findMod, List.find?_isSome]
      exact ⟨i, List.mem_finRange i, by rw [hself]; simp [hm']⟩
    obtain ⟨j, hj⟩ := Option.isSome_iff_exists.mp hexists
    obtain ⟨m, hm, hmu⟩ := findMod_spec hj
    by_cases hji : j = i
    · rw [hj, hji]
    · rw [Store.mods_setMod_of_ne _ hji] at hm
      rw [Store.findMod, List.find?_eq_none] at hfirst
      have hnot := hfirst j (List.mem_finRange j)
      rw [hm, Option.any_some] at hnot
      exact absurd (decide_eq_true hmu) hnot

/-- Writing a module's slot changes what is found of it, and of no other. -/
theorem modOf_setMod (hplace : Place st uuid i) (hm' : m'.uuid.str = uuid) :
    (st.setMod i (some m')).modOf = Function.update st.modOf uuid (some m') := by
  funext v
  by_cases hv : v = uuid
  · subst hv
    rw [Function.update_self, Store.modOf, findMod_setMod_self hplace hm', Option.bind_some,
      Store.mods_setMod_self]
  · rw [Function.update_of_ne hv, Store.modOf, Store.modOf, findMod_setMod_ne hplace hm' hv]
    cases hfind : st.findMod v with
    | none => rfl
    | some j =>
      obtain ⟨m, hm, hmv⟩ := findMod_spec hfind
      have hj : j ≠ i := by
        rintro rfl
        exact hv (hmv.symm.trans (hplace.own m hm))
      rw [Option.bind_some, Option.bind_some, Store.mods_setMod_of_ne _ hj]

theorem modOf_congr {st' : Store} (h : st'.mods = st.mods) : st'.modOf = st.modOf := by
  funext v
  rw [Store.modOf, Store.modOf, Store.findMod, Store.findMod, h]

/-! ## What a registration does -/

theorem placeOf_spec {opens : Bool} {m : HistMod} (hsafe : safeUuid uuid = true)
    (h : placeOf st uuid opens = some (i, m)) : Place st uuid i ∧ m.uuid.str = uuid := by
  unfold placeOf at h
  cases hfind : st.findMod uuid with
  | some j =>
    rw [hfind] at h
    obtain ⟨m', hm', hmu⟩ := findMod_spec hfind
    simp only [hm', Option.map_some, Option.some_inj, Prod.mk.injEq] at h
    obtain ⟨rfl, rfl⟩ := h
    exact ⟨place_of_findMod hfind, hmu⟩
  | none =>
    rw [hfind] at h
    cases hfree : freePlace st with
    | none =>
      rw [hfree] at h
      cases h
    | some j =>
      rw [hfree] at h
      dsimp only at h
      split_ifs at h
      simp only [Option.some_inj, Prod.mk.injEq] at h
      obtain ⟨rfl, rfl⟩ := h
      have hnone := List.find?_some hfree
      have hlen : uuid.length < 40 := by
        simp only [safeUuid, Bool.and_eq_true, decide_eq_true_eq] at hsafe
        exact hsafe.1.2
      refine ⟨⟨fun m hm => ?_, Or.inr hfind⟩, CBuf.str_copy_of_lt hlen⟩
      rw [hm] at hnone
      cases hnone

/-- A module that the spec makes capture has the spec's policy, and one that it does not has
none. -/
structure Declares (spec : Option HistSpec) (m : HistMod) : Prop where
  captures : m.captures = spec.isSome
  keepDefault : ∀ s, spec = some s → m.keepDefault = s.keepDefault

theorem declares_takeSpec (m : HistMod) (kind : CString) (spec : Option HistSpec) :
    Declares spec (Store.takeSpec m kind spec) := by
  cases spec with
  | none => exact ⟨rfl, fun s hs => by cases hs⟩
  | some s => exact ⟨rfl, fun s' hs => by cases hs; rfl⟩

theorem uuid_takeSpec (m : HistMod) (kind : CString) (spec : Option HistSpec) :
    (Store.takeSpec m kind spec).uuid = m.uuid := by
  cases spec <;> rfl

/-- A registration changes what is found of one module, when it has or gets a place. -/
theorem registerTry_modOf (hopen : st.isOpen = true) (hsafe : safeUuid uuid = true)
    (name kind driver capture : CString) (e : RecordEnv) :
    (placeOf st uuid e.opens = none ∧ registerTry st uuid name kind driver capture e = st) ∨
      ∃ i m m', placeOf st uuid e.opens = some (i, m) ∧
        (registerTry st uuid name kind driver capture e).modOf =
          Function.update st.modOf uuid (some m') ∧
        (registerTry st uuid name kind driver capture e).isOpen = true ∧
        Declares (parseSpec capture) m' := by
  have hgo : ¬((!st.isOpen) = true ∨ (!safeUuid uuid) = true) := by simp [hopen, hsafe]
  unfold registerTry
  rw [if_neg hgo]
  cases hplace : placeOf st uuid e.opens with
  | none => exact Or.inl ⟨rfl, rfl⟩
  | some place =>
    obtain ⟨i, m⟩ := place
    obtain ⟨hslot, hmu⟩ := placeOf_spec hsafe hplace
    have hdeclares := declares_takeSpec m kind (parseSpec capture)
    have huuid : (Store.takeSpec m kind (parseSpec capture)).uuid.str = uuid := by
      rw [uuid_takeSpec, hmu]
    refine Or.inr ⟨i, m, ?_⟩
    dsimp only
    split
    · let m' : HistMod := { Store.dueNow (Store.takeSpec m kind (parseSpec capture)) with
        ins := some (Store.takeSpec m kind (parseSpec capture)).cols }
      have hmods : (st.registerAt i m uuid name kind driver capture e.hist).mods =
          (st.setMod i (some m')).mods := by
        rw [Store.registerAt, (describe_same _ _ _ _ _ _ _).1]
        rfl
      refine ⟨m', rfl, ?_, ?_, ⟨hdeclares.captures, hdeclares.keepDefault⟩⟩
      · rw [modOf_congr hmods]
        exact modOf_setMod hslot huuid
      · rw [Store.registerAt, (describe_same _ _ _ _ _ _ _).2]
        exact hopen
    · exact ⟨_, rfl, modOf_setMod hslot huuid, hopen, hdeclares⟩

/-- A policy that a module is given. -/
def History.HistMod.told (m : HistMod) (days : Double) : HistMod :=
  if m.captures then m.keepFor days else m

/-- Setting a policy changes what is found of one module, when it is there. -/
theorem setRetention_modOf (st : Store) (uuid : CString) (days : Double) :
    (st.setRetention uuid days).1.modOf =
      Function.update st.modOf uuid ((st.modOf uuid).map fun m => m.told days) := by
  unfold Store.setRetention
  cases hfind : st.findMod uuid with
  | none =>
    have hnone : st.modOf uuid = none := by rw [Store.modOf, hfind, Option.bind_none]
    rw [hnone, Option.map_none, ← hnone, Function.update_eq_self]
  | some i =>
    obtain ⟨m, hm, hmu⟩ := findMod_spec hfind
    have hmod : st.modOf uuid = some m := by rw [Store.modOf, hfind, Option.bind_some, hm]
    simp only [hm, hmod, Option.map_some, HistMod.told]
    by_cases hcap : m.captures = true
    · rw [hcap]
      have hmods := @modOf_setMod st i uuid (m.keepFor days) (place_of_findMod hfind) hmu
      exact hmods
    · rw [Bool.not_eq_true] at hcap
      simp only [hcap, Bool.not_false, Bool.false_eq_true, if_true, if_false]
      rw [← hmod, Function.update_eq_self]

/-- What the history reports of a module that is given a policy. -/
theorem policy_told (m : HistMod) (days : Double) :
    (m.told days).policy = if m.captures then
      (if days.lt Double.zero then m.keepDefault else days) else Double.negOne := by
  unfold HistMod.told HistMod.policy
  by_cases hcap : m.captures = true
  · simp only [hcap, if_true, HistMod.keepFor, keepDaysOf]
  · simp only [if_neg hcap]

/-! ## The condition -/

/-- What the history reports of a module that declares a spec and is given a policy. -/
def givenPolicy (spec : Option HistSpec) (days : Double) : Double :=
  match spec with
  | some s => if days.lt Double.zero then s.keepDefault else days
  | none => Double.negOne

/-- What the plugin declares to the history, nothing when that does not register. -/
def declared (uuid : CString) (text : Option CString) : Option CString :=
  text.filter fun _ => safeUuid uuid

/-- What the history reports of a module it knows, after what it is told. -/
def newPolicy (m : HistMod) (declared : Option CString) (days : Double) : Double :=
  match declared with
  | some text => givenPolicy (parseSpec text) days
  | none =>
    if m.captures then (if days.lt Double.zero then m.keepDefault else days) else Double.negOne

/-- The history is not open; or it does not know the module, and the module declares nothing
or gets no place; or it knows the module with the policy that it is given. -/
def Unnoticed (st : Store) (uuid : CString) (text : Option CString) (days : Double)
    (opens : Bool) : Prop :=
  st.isOpen = true →
    (st.modOf uuid = none → declared uuid text = none ∨ freePlace st = none ∨ opens = false) ∧
    ∀ m, st.modOf uuid = some m → newPolicy m (declared uuid text) days = m.policy

theorem policy_of_declares {spec : Option HistSpec} {m : HistMod} (h : Declares spec m)
    (days : Double) : (m.told days).policy = givenPolicy spec days := by
  rw [policy_told, h.captures]
  cases spec with
  | none => rfl
  | some s => rw [h.keepDefault s rfl]; rfl

/-- Where a module is, or would be, registered. -/
theorem placeOf_cases (st : Store) (uuid : CString) (opens : Bool) :
    (placeOf st uuid opens = none ∧ st.modOf uuid = none ∧ (freePlace st = none ∨ opens = false)) ∨
      ∃ i m, placeOf st uuid opens = some (i, m) ∧
        (st.modOf uuid = some m ∨ st.modOf uuid = none ∧ freePlace st ≠ none ∧ opens = true) := by
  unfold placeOf
  cases hfind : st.findMod uuid with
  | some i =>
    obtain ⟨m, hm, -⟩ := findMod_spec hfind
    refine Or.inr ⟨i, m, by simp only [hm, Option.map_some], Or.inl ?_⟩
    rw [Store.modOf, hfind, Option.bind_some, hm]
  | none =>
    have hnone : st.modOf uuid = none := by rw [Store.modOf, hfind, Option.bind_none]
    cases hfree : freePlace st with
    | none => exact Or.inl ⟨rfl, hnone, Or.inl rfl⟩
    | some i =>
      cases opens with
      | false => exact Or.inl ⟨rfl, hnone, Or.inr rfl⟩
      | true => exact Or.inr ⟨i, _, rfl, Or.inr ⟨hnone, Option.some_ne_none i, rfl⟩⟩

/-- What is found of a module after `history_register`. -/
theorem historyRegister_modOf (hopen : st.isOpen = true) (d : Slot κ ε) (e : RecordEnv) :
    ∃ found, (historyRegister st d e).modOf = Function.update st.modOf d.uuid.str found ∧
      (historyRegister st d e).isOpen = true ∧
      ((declared d.uuid.str (captureText d.ops 2048) = none ∨
          st.modOf d.uuid.str = none ∧ (freePlace st = none ∨ e.opens = false)) ∧
          found = st.modOf d.uuid.str ∨
        ∃ text m', declared d.uuid.str (captureText d.ops 2048) = some text ∧ found = some m' ∧
          Declares (parseSpec text) m' ∧
          (st.modOf d.uuid.str = none → freePlace st ≠ none ∧ e.opens = true)) := by
  have hstay : st.modOf = Function.update st.modOf d.uuid.str (st.modOf d.uuid.str) :=
    (Function.update_eq_self _ _).symm
  unfold historyRegister
  rw [if_neg (by simp [hopen])]
  cases htext : captureText d.ops 2048 with
  | none => exact ⟨_, hstay, hopen, Or.inl ⟨Or.inl rfl, rfl⟩⟩
  | some text =>
    by_cases hsafe : safeUuid d.uuid.str = true
    · have hdecl : declared d.uuid.str (some text) = some text := by simp [declared, hsafe]
      rcases registerTry_modOf hopen hsafe d.name.str d.kind.str d.driver.str text e with
        ⟨hnone, hsame⟩ | ⟨i, m, m', hplace, hmod, hstill, hm'⟩
      · dsimp only
        rw [hsame]
        refine ⟨_, hstay, hopen, Or.inl ⟨Or.inr ?_, rfl⟩⟩
        rcases placeOf_cases st d.uuid.str e.opens with ⟨-, hgone, hwhy⟩ | ⟨i, m, hsome, -⟩
        · exact ⟨hgone, hwhy⟩
        · rw [hnone] at hsome
          cases hsome
      · refine ⟨some m', hmod, hstill, Or.inr ⟨text, m', hdecl, rfl, hm', fun hgone => ?_⟩⟩
        rcases placeOf_cases st d.uuid.str e.opens with ⟨hno, -⟩ | ⟨i, m, -, hfound | ⟨-, hwhy⟩⟩
        · rw [hplace] at hno
          cases hno
        · rw [hgone] at hfound
          cases hfound
        · exact hwhy
    · have hdecl : declared d.uuid.str (some text) = none := by simp [declared, hsafe]
      have hsame : registerTry st d.uuid.str d.name.str d.kind.str d.driver.str text e = st := by
        rw [registerTry, if_pos (by simp [hsafe])]
      dsimp only
      rw [hsame]
      exact ⟨_, hstay, hopen, Or.inl ⟨Or.inl hdecl, rfl⟩⟩

/-- The calls to the history change nothing that it reports exactly under the condition. -/
theorem history_unnoticed_iff (st : Store) (d : Slot κ ε) (e : RecordEnv) :
    (∀ v, (historyRetention (historyRegister st d e) d).policy v = st.policy v) ↔
      Unnoticed st d.uuid.str (captureText d.ops 2048) d.retentionDays e.opens := by
  by_cases hopen : st.isOpen = true
  · obtain ⟨found, hmod, hstill, hcases⟩ := historyRegister_modOf hopen d e
    have hall : (historyRetention (historyRegister st d e) d).modOf =
        Function.update st.modOf d.uuid.str (found.map fun m => m.told d.retentionDays) := by
      rw [historyRetention, if_pos hstill, setRetention_modOf, hmod, Function.update_self,
        Function.update_idem]
    have hone : (∀ v, (historyRetention (historyRegister st d e) d).policy v = st.policy v) ↔
        found.map (fun m => (m.told d.retentionDays).policy) = st.policy d.uuid.str := by
      constructor
      · intro h
        have hself := h d.uuid.str
        rw [History.Store.policy, hall, Function.update_self, Option.map_map] at hself
        exact hself
      · intro h v
        rw [History.Store.policy, hall]
        by_cases hv : v = d.uuid.str
        · rw [hv, Function.update_self, Option.map_map]
          exact h
        · rw [Function.update_of_ne hv]
          rfl
    rw [hone, Unnoticed, History.Store.policy]
    simp only [hopen, forall_const]
    rcases hcases with ⟨hwhy, rfl⟩ | ⟨text, m', hdecl, rfl, hm', hfree⟩
    · cases hknown : st.modOf d.uuid.str with
      | none =>
        refine ⟨fun _ => ⟨fun _ => ?_, fun m hm => (by cases hm)⟩, fun _ => rfl⟩
        rcases hwhy with hwhy | ⟨-, hwhy⟩
        · exact Or.inl hwhy
        · exact Or.inr hwhy
      | some m =>
        rw [hknown] at hwhy
        have hdecl : declared d.uuid.str (captureText d.ops 2048) = none := by
          rcases hwhy with hwhy | ⟨hno, -⟩
          · exact hwhy
          · cases hno
        rw [hdecl, Option.map_some, Option.map_some, Option.some_inj, policy_told]
        refine ⟨fun h => ⟨fun hno => (by cases hno), fun m₁ hm₁ => ?_⟩, fun h => h.2 m rfl⟩
        obtain rfl := Option.some.inj hm₁
        exact h
    · rw [hdecl, Option.map_some, policy_of_declares hm']
      cases hknown : st.modOf d.uuid.str with
      | none =>
        obtain ⟨hplace, hopens⟩ := hfree hknown
        refine ⟨fun h => (by cases h), fun h => ?_⟩
        rcases h.1 rfl with hno | hno | hno
        · cases hno
        · exact absurd hno hplace
        · rw [hopens] at hno
          cases hno
      | some m =>
        rw [Option.map_some, Option.some_inj]
        refine ⟨fun h => ⟨fun hno => (by cases hno), fun m₁ hm₁ => ?_⟩, fun h => h.2 m rfl⟩
        obtain rfl := Option.some.inj hm₁
        exact h
  · have hclosed : st.isOpen = false := by simpa using hopen
    have hreg : historyRegister st d e = st := by rw [historyRegister, if_pos (by simp [hclosed])]
    have hret : historyRetention st d = st := by rw [historyRetention, if_neg hopen]
    rw [hreg, hret]
    exact ⟨fun _ hno => absurd hno hopen, fun _ _ => rfl⟩

/-! ## A module that is not added -/

/-- The module passes the checks and finds a slot, and then its plugin does not open. -/
def OpenFails (dv : Devices κ ε) (name kind driver spec uuidIn : CString) : Prop :=
  name.nonempty = true ∧ kind.nonempty = true ∧ driver.nonempty = true ∧ name.length < 32 ∧
    dv.nameTaken name = false ∧ dv.uuidInUse uuidIn = false ∧ dv.freeSlot ≠ none ∧
    ∃ ops openCtx text, mfPluginsFind dv.registry kind driver = some ops ∧
      ops.openCtx = some openCtx ∧ openCtx spec = .error text

/-- The policy that a spec asks for. -/
def specRetention (spec : CString) : Double :=
  ((getCase? (CJson.parse spec) "retention_days").bind CJson.number?).getD Double.negOne

/-- A module that is not added leaves the slots and what the history reports as they were,
exactly when its plugin opens, or is not asked to, or the history notices nothing. -/
theorem failed_add_unnoticed_iff (dv : Devices κ ε) (st : Store)
    (name kind driver spec uuidIn : CString) (generated : CBuf 37) (e : RecordEnv) :
    let after := mfDevicesAddRecorded dv st name kind driver spec uuidIn generated e
    (∀ err, after.2.2 = .error err →
      after.1.slots = dv.slots ∧ ∀ v, after.2.1.policy v = st.policy v) ↔
    (OpenFails dv name kind driver spec uuidIn →
      Unnoticed st (if uuidIn.nonempty then CBuf.copy 37 uuidIn else generated).str
        (captureText (mfPluginsFind dv.registry kind driver) 2048) (specRetention spec) e.opens) := by
  intro after
  have hquiet : ∀ dv' err, after = (dv', st, .error err) → dv'.slots = dv.slots →
      ¬OpenFails dv name kind driver spec uuidIn →
      ((∀ err, after.2.2 = .error err →
        after.1.slots = dv.slots ∧ ∀ v, after.2.1.policy v = st.policy v) ↔
      (OpenFails dv name kind driver spec uuidIn →
        Unnoticed st (if uuidIn.nonempty then CBuf.copy 37 uuidIn else generated).str
          (captureText (mfPluginsFind dv.registry kind driver) 2048) (specRetention spec)
          e.opens)) := by
    intro dv' err hafter hslots hnot
    rw [hafter]
    exact ⟨fun _ hfails => absurd hfails hnot, fun _ _ _ => ⟨hslots, fun _ => rfl⟩⟩
  by_cases hempty : ¬name.nonempty ∨ ¬kind.nonempty ∨ ¬driver.nonempty
  · refine hquiet dv .required (if_pos hempty) rfl fun hfails => ?_
    obtain ⟨hn, hk, hd, -⟩ := hfails
    simp [hn, hk, hd] at hempty
  by_cases hlong : 32 ≤ name.length
  · refine hquiet dv .nameTooLong ((if_neg hempty).trans (if_pos hlong)) rfl fun hfails => ?_
    have := hfails.2.2.2.1
    omega
  by_cases htaken : dv.nameTaken name = true
  · refine hquiet dv .nameInUse ((if_neg hempty).trans <| (if_neg hlong).trans (if_pos htaken)) rfl
      fun hfails => ?_
    rw [hfails.2.2.2.2.1] at htaken
    cases htaken
  by_cases hused : dv.uuidInUse uuidIn = true
  · refine hquiet dv .uuidInUse ((if_neg hempty).trans <| (if_neg hlong).trans <|
      (if_neg htaken).trans (if_pos hused)) rfl fun hfails => ?_
    rw [hfails.2.2.2.2.2.1] at hused
    cases hused
  by_cases hunknown : dv.registry ≠ [] ∧ (mfPluginsFind dv.registry kind driver).isNone
  · refine hquiet dv .unknownDriver ((if_neg hempty).trans <| (if_neg hlong).trans <|
      (if_neg htaken).trans <| (if_neg hused).trans (if_pos hunknown)) rfl fun hfails => ?_
    obtain ⟨-, -, -, -, -, -, -, ops, -, -, hops, -⟩ := hfails
    rw [hops] at hunknown
    cases hunknown.2
  cases hfree : dv.freeSlot with
  | none =>
    refine hquiet { dv with limitHit := true } .limit ?_ rfl fun hfails =>
      hfails.2.2.2.2.2.2.1 hfree
    simp only [after, mfDevicesAddRecorded, if_neg hempty, if_neg hlong, if_neg htaken,
      if_neg hused, if_neg hunknown, hfree]
  | some i =>
    generalize huuid : (if uuidIn.nonempty then CBuf.copy 37 uuidIn else generated) = uuid
    have hafter : after = fillSlot dv st name kind driver spec uuid e i := by
      simp only [after, mfDevicesAddRecorded, if_neg hempty, if_neg hlong, if_neg htaken,
        if_neg hused, if_neg hunknown, hfree, huuid]
    clear_value after
    subst hafter
    have hnoticed := history_unnoticed_iff st
      (newSlot (mfPluginsFind dv.registry kind driver) name kind driver spec uuid) e
    unfold fillSlot
    dsimp only
    cases hopened : openSlot dv.historyOpen spec
        (newSlot (mfPluginsFind dv.registry kind driver) name kind driver spec uuid) with
    | ok opened =>
      refine ⟨fun _ hfails => ?_, fun _ err herr => by cases herr⟩
      obtain ⟨-, -, -, -, -, -, -, ops, openCtx, text, hops, hopen, htext⟩ := hfails
      have hbind : (newSlot (mfPluginsFind dv.registry kind driver) name kind driver spec uuid).ops.bind
          (·.openCtx) = some openCtx := by
        change (mfPluginsFind dv.registry kind driver).bind (·.openCtx) = some openCtx
        rw [hops, Option.bind_some, hopen]
      simp only [openSlot, hbind, htext] at hopened
      cases hopened
    | error err =>
      have hfails : OpenFails dv name kind driver spec uuidIn := by
        push Not at hempty
        refine ⟨by simpa using hempty.1, by simpa using hempty.2.1, by simpa using hempty.2.2,
          by omega, by simpa using htaken, by simpa using hused, by rw [hfree]; simp, ?_⟩
        unfold openSlot at hopened
        split at hopened
        · cases hopened
        · next openCtx hbind =>
          obtain ⟨ops, hops, hopen⟩ := Option.bind_eq_some_iff.mp hbind
          split at hopened
          · next text htext => exact ⟨ops, openCtx, text, hops, hopen, htext⟩
          · cases hopened
      constructor
      · exact fun h _ => hnoticed.mp (h err rfl).2
      · exact fun h _ _ => ⟨rfl, hnoticed.mpr (h hfails)⟩

/-- A plugin that captures and does not open. -/
def brokenPlugin : PluginOps Unit Unit :=
  { kind := CString.lit "battery", driver := CString.lit "jk"
    describe := some (CString.lit "\x7b\"capture\":\x7b\"retention_days\":30\x7d\x7d")
    openCtx := some fun _ => .error (CString.lit "no adapter"), step := none, caps := none
    lastError := none, getReading := none, getSettings := none, putSettings := none }

/-- A history that is open and empty. -/
def emptyHistory : Store :=
  { dir := CBuf.copy 256 (CString.lit "/h"), isOpen := true, mods := fun _ => none
    ring :=
      { slots := fun _ => ⟨CBuf.zero 40, Double.zero, 0, CBuf.zero 4096, Double.zero⟩
        head := ⟨0, mfHistoryRingCap_pos⟩, count := 0 }
    files := fun _ => TxnFile.closed ModFile.fresh, log := [] }

/-- The module is not added, and the history keeps it. -/
theorem failed_open_stays_registered :
    let after := mfDevicesAddRecorded (mfDevicesInit [brokenPlugin] true) emptyHistory
      (CString.lit "Bank") (CString.lit "battery") (CString.lit "jk") (CString.lit "\x7b\x7d")
      (CString.lit "a1") (CBuf.zero 37) ⟨true, true, ⟨Double.zero, fun _ _ => none⟩⟩
    ¬(∀ err, after.2.2 = .error err → after.1.slots = (mfDevicesInit [brokenPlugin] true).slots ∧
      ∀ v, after.2.1.policy v = emptyHistory.policy v) := by
  intro after hclaim
  have herr : after.2.2 = .error (.openFailed (CString.lit "no adapter")) := by decide +kernel
  have hpolicy := (hclaim _ herr).2 (CString.lit "a1")
  revert hpolicy
  decide +kernel

end MoonFlare
