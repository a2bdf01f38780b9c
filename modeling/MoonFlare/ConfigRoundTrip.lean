import MoonFlare.SpecRoundTrip

/-!
# The configuration on disk

Every change the daemon accepts saves the whole configuration, and the next start
reads it into the built-in defaults. What is written as null leaves the default in
place, numbers come back as their printed digits, and plugin settings are printed
and parsed twice on the way.
-/

namespace MoonFlare.RoundTrip

open CJson

/-- `mf_config_load_state` on the text of the state file. -/
def mfConfigLoadState (raw : CString) : Option DaemonConfig :=
  (parse raw).map (mfConfigApplyJson mfConfigDefaults)

/-- A configuration that documents applied to the defaults give. -/
inductive Reachable : DaemonConfig → Prop where
  | defaults : Reachable mfConfigDefaults
  | apply {cfg : DaemonConfig} (h : Reachable cfg) (j : CJson) : Reachable (mfConfigApplyJson cfg j)

/-- The plugin settings of an entry as a JSON value. -/
def extraValue (d : ConfigDevice) : Option CJson := parse d.extraJson.str

/-- Two entries are equal in every field, plugin settings as values. -/
structure SameDevice (d e : ConfigDevice) : Prop where
  fields : { d with extraJson := CBuf.zero 1024 } = { e with extraJson := CBuf.zero 1024 }
  extra : extraValue d = extraValue e

/-- Two configurations are equal in every field but `config_gen`. -/
structure Same (cfg cfg' : DaemonConfig) : Prop where
  listen : cfg.listen = cfg'.listen
  pluginDir : cfg.pluginDir = cfg'.pluginDir
  gattBin : cfg.gattBin = cfg'.gattBin
  historyPath : cfg.historyPath = cfg'.historyPath
  historyDir : cfg.historyDir = cfg'.historyDir
  historyEnabled : cfg.historyEnabled = cfg'.historyEnabled
  inputMaxW : cfg.inputMaxW = cfg'.inputMaxW
  dischargeMaxW : cfg.dischargeMaxW = cfg'.dischargeMaxW
  devices : List.Forall₂ SameDevice cfg.devices cfg'.devices

/-! ## Reading members back -/

theorem applyString_stringOrNull {cap : ℕ} [NeZero cap] {j : CJson} {key : String}
    {b old : CBuf cap} (h : j.get (CString.lit key) = some (stringOrNull b.str)) :
    applyString j key old = if b.str.nonempty then b else old := by
  rw [applyString, h, Option.bind_some]
  unfold stringOrNull
  by_cases hb : b.str.nonempty
  · rw [if_pos hb, if_pos hb]
    exact CBuf.copy_str b
  · rw [if_neg hb, if_neg hb]
    rfl

/-- A string is read back when the buffer was empty before. -/
theorem applyString_zero {cap : ℕ} [NeZero cap] {j : CJson} {key : String} {b : CBuf cap}
    (h : j.get (CString.lit key) = some (stringOrNull b.str)) :
    applyString j key (CBuf.zero cap) = b := by
  rw [applyString_stringOrNull h]
  by_cases hb : b.str.nonempty
  · rw [if_pos hb]
  · rw [if_neg hb]
    have hempty : b.str = CString.empty := by simpa using hb
    exact CBuf.ext hempty.symm

theorem applyInt_intItem {j : CJson} {key : String} {z old : Int32}
    (h : j.get (CString.lit key) = some (intItem z)) : applyInt j key old = z := by
  rw [applyInt, h, Option.bind_some]
  exact (congrArg Int32.ofInt (Double.toInt_ofInt z)).trans (Int32.ofInt_toInt z)

theorem applyTrue_bool {j : CJson} {key : String} {b : Bool}
    (h : j.get (CString.lit key) = some (.bool b)) : applyTrue j key false = b := by
  rw [applyTrue, h]
  cases b <;> rfl

/-- A number comes back as what its digits read as. -/
theorem applyNumber_reprint {j : CJson} {key : String} {v old : Double}
    (h : j.get (CString.lit key) = some (reprint (.number v))) :
    applyNumber j key old = v.reprint.getD old := by
  rw [applyNumber, h, Option.bind_some, reprint]
  cases v.reprint <;> rfl

/-- Reading a number back into a default that prints exactly gives the number itself
just when the number does so too. -/
theorem getD_reprint_eq_iff {v old : Double} (hold : old.reprint = some old) :
    v.reprint.getD old = v ↔ v.reprint = some v := by
  constructor
  · intro h
    cases hv : v.reprint with
    | none =>
      rw [hv, Option.getD_none] at h
      rw [← h, hold] at hv
      cases hv
    | some w =>
      rw [hv, Option.getD_some] at h
      rw [h]
  · intro h
    rw [h, Option.getD_some]

theorem reprint_zero : Double.zero.reprint = some Double.zero := Double.reprint_ofInt 0

theorem reprint_negOne : Double.negOne.reprint = some Double.negOne := Double.reprint_ofInt (-1)

/-- A lookup up to case commutes with printing and parsing. -/
theorem find?_reprintMembers (k : CString) (ms : List (CString × CJson)) :
    ((reprintMembers ms).find? fun m => k.eqNoCase m.1).map Prod.snd =
      ((ms.find? fun m => k.eqNoCase m.1).map Prod.snd).map reprint := by
  induction ms with
  | nil => rfl
  | cons m ms ih =>
    obtain ⟨l, v⟩ := m
    simp only [reprintMembers, List.find?_cons]
    split
    · rfl
    · exact ih

/-! ## Plugin settings -/

/-- The plugin keys `device_to_json` adds: each one once. -/
theorem addExtra_eq_append (ms es : List (CString × CJson)) :
    ∃ es', addExtra ms es = ms ++ es' ∧ es'.Sublist es := by
  induction es generalizing ms with
  | nil => exact ⟨[], (List.append_nil ms).symm, List.Sublist.refl _⟩
  | cons e es ih =>
    obtain ⟨k, v⟩ := e
    rw [addExtra]
    split
    · obtain ⟨es', heq, hsub⟩ := ih ms
      exact ⟨es', heq, hsub.cons _⟩
    · obtain ⟨es', heq, hsub⟩ := ih (ms ++ [(k, v)])
      exact ⟨(k, v) :: es', by rw [heq, List.append_assoc, List.singleton_append], hsub.cons_cons _⟩

/-- All plugin keys are added just when they are all different and none is there
already. -/
theorem addExtra_eq_append_iff {ms es : List (CString × CJson)} :
    addExtra ms es = ms ++ es ↔
      (es.map Prod.fst).Nodup ∧ ∀ e ∈ es, lookup e.1 ms = none := by
  induction es generalizing ms with
  | nil => simp [addExtra]
  | cons e es ih =>
    obtain ⟨k, v⟩ := e
    rw [addExtra]
    by_cases hk : (lookup k ms).isSome = true
    · rw [if_pos hk]
      refine iff_of_false (fun heq => ?_) fun hall => ?_
      · obtain ⟨es', heq', hsub⟩ := addExtra_eq_append ms es
        rw [heq', List.append_cancel_left_eq] at heq
        have hlen := hsub.length_le
        rw [heq, List.length_cons] at hlen
        omega
      · rw [hall.2 (k, v) List.mem_cons_self] at hk
        cases hk
    · have hnone : lookup k ms = none := by simpa using hk
      rw [if_neg hk, show ms ++ (k, v) :: es = ms ++ [(k, v)] ++ es by simp, ih, List.map_cons,
        List.nodup_cons, List.forall_mem_cons]
      have hother (l : CString) :
          lookup l (ms ++ [(k, v)]) = none ↔ lookup l ms = none ∧ k ≠ l := by
        rw [lookup_append, Option.or_eq_none_iff, lookup_cons]
        split <;> simp_all
      simp only [hother, hnone, true_and, List.mem_map, not_exists, not_and]
      constructor
      · rintro ⟨hnodup, hall⟩
        exact ⟨⟨fun e he hek => (hall e he).2 hek.symm, hnodup⟩, fun e he => (hall e he).1⟩
      · rintro ⟨⟨hk, hnodup⟩, hall⟩
        exact ⟨hnodup, fun e he => ⟨hall e he, fun hek => hk e he hek.symm⟩⟩

/-- What `apply_device` keeps of an entry's own printed members: its plugin keys. -/
theorem filter_extra_deviceMembers (d : ConfigDevice) :
    (reprintMembers (deviceMembers d)).filter (fun m => isExtraKey m.1) = [] := rfl

theorem reprintMembers_eq_map (ms : List (CString × CJson)) :
    reprintMembers ms = ms.map fun m => (m.1, reprint m.2) := by
  induction ms with
  | nil => rfl
  | cons m ms ih =>
    obtain ⟨k, v⟩ := m
    rw [reprintMembers, ih, List.map_cons]

mutual

/-- Every level of nesting takes two bytes of text. -/
theorem depth_le_length_print : ∀ j : CJson, 2 * depth j ≤ (print j).length
  | .null => by simp [depth]
  | .bool _ => by simp [depth]
  | .number _ => by simp [depth]
  | .string _ => by simp [depth]
  | .array xs => by
    have h := depthItems_le_length_print xs
    simp only [depth, print, List.length_cons, List.length_append, List.length_nil]
    omega
  | .object ms => by
    have h := depthMembers_le_length_print ms
    simp only [depth, print, List.length_cons, List.length_append, List.length_nil]
    omega

theorem depthItems_le_length_print : ∀ xs : List CJson, 2 * depthItems xs ≤ (printItems xs).length
  | [] => by simp [depthItems]
  | [x] => by
    have h := depth_le_length_print x
    simpa [depthItems, printItems] using h
  | x :: y :: xs => by
    have h := depth_le_length_print x
    have htail := depthItems_le_length_print (y :: xs)
    rw [depthItems, printItems, List.length_append, List.length_cons]
    omega

theorem depthMembers_le_length_print :
    ∀ ms : List (CString × CJson), 2 * depthMembers ms ≤ (printMembers ms).length
  | [] => by simp [depthMembers]
  | [(k, x)] => by
    have h := depth_le_length_print x
    simp only [depthMembers, printMembers, List.length_append, List.length_cons]
    omega
  | (k, x) :: m :: ms => by
    have h := depth_le_length_print x
    have htail := depthMembers_le_length_print (m :: ms)
    rw [depthMembers, printMembers, List.length_append, List.length_cons, List.length_append,
      List.length_cons]
    omega

end

/-- Plugin settings that fit the buffer are read back as they are printed. -/
theorem parse_of_fits {ms : List (CString × CJson)} (h : (printText (.object ms)).length < 1024) :
    parse (printText (.object ms)) = some (.object (reprintMembers ms)) := by
  have hdepth := depth_le_length_print (.object ms)
  have hlen : (printText (.object ms)).length = (print (.object ms)).length := rfl
  rw [parse_printText (by rw [nestingLimit]; omega), reprint]

/-- The plugin settings of an entry as `apply_device` leaves them: none, or printed
members under plugin keys. -/
structure Stored (d : ConfigDevice) : Prop where
  uuid : d.uuid.str.nonempty = true
  extra : d.extraJson = CBuf.zero 1024 ∨ ∃ ms, ms ≠ [] ∧ (∀ m ∈ ms, isExtraKey m.1 = true) ∧
    d.extraJson.str = printText (.object ms)

theorem applyExtra_cases (j : CJson) : applyExtra j = CBuf.zero 1024 ∨
    extraMembers j ≠ [] ∧ (applyExtra j).str = printText (.object (extraMembers j)) := by
  unfold applyExtra
  dsimp only
  split
  · next h => exact .inr ⟨h.1, rfl⟩
  · exact .inl rfl

theorem stored_applyDevice {j : CJson} {d : ConfigDevice} (h : applyDevice j = some d) :
    Stored d := by
  unfold applyDevice at h
  split at h
  · cases h
  next uuid huuid =>
    split at h
    · next hne =>
      cases h
      refine ⟨?_, ?_⟩
      · have hne' := hne.2
        simp only [CString.nonempty, CBuf.str_copy, CString.bytes_take] at hne' ⊢
        cases hb : uuid.bytes with
        | nil => rw [hb] at hne'; cases hne'
        | cons b bs => rfl
      · rcases applyExtra_cases j with hzero | ⟨hms, htext⟩
        · exact .inl hzero
        · refine .inr ⟨extraMembers j, hms, fun m hm => ?_, htext⟩
          exact (List.mem_filter.mp hm).2
    · cases h

/-! ## An entry -/

/-- What `apply_device` makes of an entry's printed text. -/
def reloadDevice (d : ConfigDevice) : ConfigDevice :=
  { d with
    pollIntervalS := d.pollIntervalS.reprint.getD Double.zero
    captureIntervalS := d.captureIntervalS.reprint.getD Double.negOne
    retentionDays := d.retentionDays.reprint.getD Double.negOne
    extraJson := applyExtra (reprint (deviceToJson d)) }

/-- The entry's own members are found under their keys, whatever the plugin's keys
are. -/
theorem get_deviceToJson {d : ConfigDevice} {k : String} {m : CString × CJson}
    (h : (deviceMembers d).find? (fun m => (CString.lit k).eqNoCase m.1) = some m) :
    (reprint (deviceToJson d)).get (CString.lit k) = some (reprint m.2) := by
  obtain ⟨es, heq, -⟩ := addExtra_eq_append (deviceMembers d)
    (if d.extraJson.str.nonempty then ((parse d.extraJson.str).map members).getD [] else [])
  rw [CJson.get, deviceToJson, reprint, members_object, find?_reprintMembers, heq, List.find?_append,
    h, Option.some_or, Option.map_some, Option.map_some]

theorem applyUsb_reprint (u : UsbConfig) :
    applyUsb UsbConfig.zero (reprint (.object
      [(CString.lit "path", stringOrNull u.path.str),
        (CString.lit "serial_id", stringOrNull u.serialId.str),
        (CString.lit "by_id", stringOrNull u.byId.str),
        (CString.lit "auto_port", .bool u.autoPort),
        (CString.lit "baud", intItem u.baud),
        (CString.lit "addr", intItem u.addr)])) = u := by
  simp only [reprint, reprintMembers, reprint_stringOrNull, reprint_intItem]
  rw [applyUsb, UsbConfig.zero]
  dsimp only
  rw [applyString_zero (b := u.path) rfl, applyString_zero (b := u.serialId) rfl,
    applyString_zero (b := u.byId) rfl, applyTrue_bool (b := u.autoPort) rfl,
    applyInt_intItem (z := u.baud) rfl, applyInt_intItem (z := u.addr) rfl]

theorem applyBle_reprint (u : BleConfig) :
    applyBle BleConfig.zero (reprint (.object
      [(CString.lit "address", stringOrNull u.address.str),
        (CString.lit "adapter", stringOrNull u.adapter.str),
        (CString.lit "protocol", stringOrNull u.protocol.str),
        (CString.lit "password", stringOrNull u.password.str),
        (CString.lit "write_response", .bool u.writeResponse),
        (CString.lit "connect_timeout_s", intItem u.connectTimeoutS)])) = u := by
  simp only [reprint, reprintMembers, reprint_stringOrNull, reprint_intItem]
  rw [applyBle, BleConfig.zero]
  dsimp only
  rw [applyString_zero (b := u.address) rfl, applyString_zero (b := u.adapter) rfl,
    applyString_zero (b := u.protocol) rfl, applyString_zero (b := u.password) rfl,
    applyTrue_bool (b := u.writeResponse) rfl, applyInt_intItem (z := u.connectTimeoutS) rfl]

theorem applyModbus_reprint (u : ModbusConfig) :
    applyModbus (reprint (.object
      [(CString.lit "ip", stringOrNull u.ip.str),
        (CString.lit "port", intItem u.port),
        (CString.lit "unit_id", intItem u.unitId),
        (CString.lit "mac", stringOrNull u.mac.str),
        (CString.lit "unit_device_id", intItem u.unitDeviceId),
        (CString.lit "auto_net", .bool u.autoNet)])) = u := by
  simp only [reprint, reprintMembers, reprint_stringOrNull, reprint_intItem]
  rw [applyModbus, applyString_zero (b := u.ip) rfl, applyInt_intItem (z := u.port) rfl,
    applyInt_intItem (z := u.unitId) rfl, applyString_zero (b := u.mac) rfl,
    applyInt_intItem (z := u.unitDeviceId) rfl, applyTrue_bool (b := u.autoNet) rfl]

theorem applyDevice_reprint {d : ConfigDevice} (huuid : d.uuid.str.nonempty = true) :
    applyDevice (reprint (deviceToJson d)) = some (reloadDevice d) := by
  have hget {k : String} {m : CString × CJson}
      (h : (deviceMembers d).find? (fun m => (CString.lit k).eqNoCase m.1) = some m) :=
    get_deviceToJson h
  have hstring {k : String} {s : CString} {l : CString}
      (h : (deviceMembers d).find? (fun m => (CString.lit k).eqNoCase m.1) =
        some (l, stringOrNull s)) :
      (reprint (deviceToJson d)).get (CString.lit k) = some (stringOrNull s) := by
    rw [hget h, reprint_stringOrNull]
  have huuid' : (reprint (deviceToJson d)).get (CString.lit "uuid") = some (.string d.uuid.str) := by
    rw [hstring (k := "uuid") (s := d.uuid.str) rfl, stringOrNull, if_pos huuid]
  have husb := hget (k := "usb") rfl
  have hble := hget (k := "ble") rfl
  have hmodbus := hget (k := "modbus") rfl
  rw [applyDevice, huuid', Option.bind_some]
  dsimp only [string?]
  rw [if_pos ⟨rfl, huuid⟩, applyString_zero (hstring (k := "name") (s := d.name.str) rfl),
    applyString_zero (hstring (k := "kind") (s := d.kind.str) rfl),
    applyString_zero (hstring (k := "driver") (s := d.driver.str) rfl),
    applyString_zero (hstring (k := "bus") (s := d.bus.str) rfl),
    applyTrue_bool (b := d.enabled) (hget (k := "enabled") rfl),
    applyNumber_reprint (hget (k := "poll_interval_s") rfl),
    applyNumber_reprint (hget (k := "capture_interval_s") rfl),
    applyNumber_reprint (hget (k := "retention_days") rfl), hget (k := "active") rfl]
  have hactive : decide (some (reprint (.bool d.active)) ≠ some (.bool false)) = d.active := by
    cases d.active <;> rfl
  rw [husb, hble, hmodbus, CBuf.copy_str, hactive]
  refine congrArg some ?_
  rw [reloadDevice, ConfigDevice.mk.injEq]
  exact ⟨rfl, rfl, rfl, rfl, rfl, rfl, rfl, rfl, rfl, rfl, applyUsb_reprint d.usb,
    applyBle_reprint d.ble, applyModbus_reprint d.modbus, rfl⟩

/-- What an entry must satisfy to come back: its numbers print exactly, no plugin key
is there twice, and the plugin settings, printed and parsed twice more, stay what
they are and still fit. -/
structure KeptDevice (d : ConfigDevice) : Prop where
  poll : d.pollIntervalS.reprint = some d.pollIntervalS
  capture : d.captureIntervalS.reprint = some d.captureIntervalS
  retention : d.retentionDays.reprint = some d.retentionDays
  extra : ∀ v, extraValue d = some v → (v.members.map Prod.fst).Nodup ∧
    reprint (reprint v) = v ∧ (printText (reprint v)).length < 1024

theorem lookup_deviceMembers_extra (d : ConfigDevice) {k : CString} (h : isExtraKey k = true) :
    lookup k (deviceMembers d) = none := by
  have hknown : (deviceMembers d).map Prod.fst = knownKeys := rfl
  rw [isExtraKey, Bool.and_eq_true] at h
  rw [lookup_eq_none_iff]
  rintro m hm rfl
  exact of_decide_eq_true h.1 (hknown ▸ List.mem_map_of_mem hm)

/-- The plugin settings `apply_device` finds in an entry's printed text, when all of
them stand under plugin keys. -/
theorem extraMembers_reload {d : ConfigDevice} (hkeys : ∀ m ∈ storedExtra d, isExtraKey m.1 = true)
    {es : List (CString × CJson)}
    (hes : addExtra (deviceMembers d) (storedExtra d) = deviceMembers d ++ es)
    (hsub : es.Sublist (storedExtra d)) :
    extraMembers (reprint (deviceToJson d)) = reprintMembers es := by
  have hmembers : (reprint (deviceToJson d)).members =
      reprintMembers (deviceMembers d) ++ reprintMembers es := by
    rw [deviceToJson, reprint, members_object, ← storedExtra, hes, reprintMembers_eq_map,
      List.map_append, reprintMembers_eq_map, reprintMembers_eq_map]
  rw [extraMembers, hmembers, List.filter_append, filter_extra_deviceMembers, List.nil_append,
    List.filter_eq_self, reprintMembers_eq_map]
  intro m hm
  obtain ⟨e, he, rfl⟩ := List.mem_map.mp hm
  exact hkeys e (hsub.subset he)

theorem parse_empty : parse CString.empty = none := rfl

/-- The value of the plugin settings `apply_device` keeps. -/
theorem parse_applyExtra {j : CJson} {ms : List (CString × CJson)} (h : extraMembers j = ms) :
    parse (applyExtra j).str = if ms ≠ [] ∧ (printText (.object ms)).length < 1024 then
      some (.object (reprintMembers ms)) else none := by
  subst h
  unfold applyExtra
  dsimp only
  split
  next hfits =>
    exact parse_of_fits hfits.2
  next hfits => exact parse_empty

/-- The plugin settings come back as the same value under the condition. -/
theorem extraValue_reload_iff {d : ConfigDevice} (h : Stored d) :
    extraValue (reloadDevice d) = extraValue d ↔
      ∀ v, extraValue d = some v → (v.members.map Prod.fst).Nodup ∧
        reprint (reprint v) = v ∧ (printText (reprint v)).length < 1024 := by
  have hreload : extraValue (reloadDevice d) =
      parse (applyExtra (reprint (deviceToJson d))).str := rfl
  obtain ⟨es, hes, hsub⟩ := addExtra_eq_append (deviceMembers d) (storedExtra d)
  rcases h.extra with hzero | ⟨ms, hms, hkeys, htext⟩
  · have hnone : extraValue d = none := by
      rw [extraValue, hzero]
      exact parse_empty
    have hstored : storedExtra d = [] := by
      rw [storedExtra, hzero]
      rfl
    rw [hstored, List.sublist_nil] at hsub
    have hmembers := extraMembers_reload (d := d) (by simp [hstored]) hes
      (hsub ▸ List.nil_sublist _)
    rw [hsub, reprintMembers] at hmembers
    rw [hreload, hnone, parse_applyExtra hmembers, if_neg (by simp)]
    simp
  · have hvalue : extraValue d = some (.object (reprintMembers ms)) := by
      rw [extraValue, htext]
      exact parse_of_fits (htext ▸ d.extraJson.fits)
    have hne : d.extraJson.str.nonempty = true := by
      rw [htext]
      rfl
    have hstored : storedExtra d = reprintMembers ms := by
      rw [extraValue] at hvalue
      rw [storedExtra, if_pos hne, hvalue]
      rfl
    have hkeys' : ∀ m ∈ storedExtra d, isExtraKey m.1 = true := by
      rw [hstored, reprintMembers_eq_map]
      intro m hm
      obtain ⟨e, he, rfl⟩ := List.mem_map.mp hm
      exact hkeys e he
    have hmembers := extraMembers_reload hkeys' hes hsub
    generalize hvs : reprintMembers ms = vs at hvalue hstored
    have hvs' : vs ≠ [] := by
      rw [← hvs, reprintMembers_eq_map]
      simpa using hms
    rw [hstored] at hsub hes hkeys'
    rw [hreload, hvalue]
    simp only [Option.some.injEq, forall_eq', members_object]
    rw [parse_applyExtra hmembers]
    constructor
    · intro hsame
      split at hsame
      next hfits =>
        rw [Option.some.injEq, CJson.object.injEq] at hsame
        have hlen : es.length = vs.length := by
          have hl := congrArg List.length hsame
          simpa [reprintMembers_eq_map] using hl
        obtain rfl := hsub.eq_of_length hlen
        refine ⟨(addExtra_eq_append_iff.mp hes).1, ?_, ?_⟩
        · rw [reprint, reprint, hsame]
        · rw [reprint]
          exact hfits.2
      next => cases hsame
    · rintro ⟨hnodup, hsteady, hfits⟩
      have hall := addExtra_eq_append_iff.mpr
        ⟨hnodup, fun e he => lookup_deviceMembers_extra d (hkeys' e he)⟩
      rw [hes, List.append_cancel_left_eq] at hall
      subst hall
      rw [reprint] at hfits
      rw [if_pos ⟨by rw [reprintMembers_eq_map]; simpa using hvs', hfits⟩]
      rw [reprint, reprint] at hsteady
      rw [hsteady]

/-- An entry comes back the same just under the condition. -/
theorem sameDevice_reload_iff {d : ConfigDevice} (h : Stored d) :
    SameDevice (reloadDevice d) d ↔ KeptDevice d := by
  have hfields : { reloadDevice d with extraJson := CBuf.zero 1024 } =
      { d with extraJson := CBuf.zero 1024 } ↔
        d.pollIntervalS.reprint = some d.pollIntervalS ∧
          d.captureIntervalS.reprint = some d.captureIntervalS ∧
          d.retentionDays.reprint = some d.retentionDays := by
    rw [ConfigDevice.mk.injEq]
    simp only [reloadDevice, true_and, and_true, getD_reprint_eq_iff reprint_zero,
      getD_reprint_eq_iff reprint_negOne]
  constructor
  · rintro ⟨hsame, hextra⟩
    obtain ⟨hpoll, hcapture, hretention⟩ := hfields.mp hsame
    exact ⟨hpoll, hcapture, hretention, (extraValue_reload_iff h).mp hextra⟩
  · intro hkept
    exact ⟨hfields.mpr ⟨hkept.poll, hkept.capture, hkept.retention⟩,
      (extraValue_reload_iff h).mpr hkept.extra⟩

/-! ## The whole configuration -/

/-- What every configuration the daemon comes to satisfies. -/
structure Sound (cfg : DaemonConfig) : Prop where
  historyEnabled : cfg.historyEnabled = true
  inputMaxW : Double.zero.lt cfg.inputMaxW = true
  dischargeMaxW : Double.zero.lt cfg.dischargeMaxW = true
  devices : ∀ d ∈ cfg.devices, Stored d

theorem applyPositive_pos (j : CJson) (key : String) {old : Double}
    (h : Double.zero.lt old = true) : Double.zero.lt (applyPositive j key old) = true := by
  unfold applyPositive
  split
  · split
    · assumption
    · exact h
  · exact h

theorem applyTrue_true (j : CJson) (key : String) : applyTrue j key true = true := by
  unfold applyTrue
  split <;> rfl

theorem Sound.apply {cfg : DaemonConfig} (h : Sound cfg) (j : CJson) :
    Sound (mfConfigApplyJson cfg j) := by
  have hdevices (items : List CJson) : ∀ d ∈ applyDevices items, Stored d := by
    intro d hd
    obtain ⟨item, -, hitem⟩ := List.mem_filterMap.mp (List.mem_of_mem_take hd)
    exact stored_applyDevice hitem
  have henabled (ms : List (CString × CJson)) :
      applyTrue (.object ms) "enabled" cfg.historyEnabled = true := by
    rw [h.historyEnabled]
    exact applyTrue_true _ _
  unfold mfConfigApplyJson
  split
  · dsimp only
    refine ⟨?_, ?_, ?_, ?_⟩
    · split <;> split <;> split <;> first | exact henabled _ | exact h.historyEnabled
    · split <;> split <;> split <;>
        first | exact applyPositive_pos _ _ h.inputMaxW | exact h.inputMaxW
    · split <;> split <;> split <;>
        first | exact applyPositive_pos _ _ h.dischargeMaxW | exact h.dischargeMaxW
    · split <;> split <;> split <;> first | exact hdevices _ | exact h.devices
  · exact h

theorem sound_of_reachable {cfg : DaemonConfig} (h : Reachable cfg) : Sound cfg := by
  induction h with
  | defaults => exact ⟨rfl, by decide +kernel, by decide +kernel, by simp [mfConfigDefaults]⟩
  | apply _ j ih => exact ih.apply j

theorem applyDevices_length (items : List CJson) : (applyDevices items).length ≤ mfMaxDevices := by
  simp only [applyDevices, List.length_take]
  omega

/-- What a document with all three blocks gives. -/
theorem mfConfigApplyJson_blocks (cfg : DaemonConfig) {j : CJson}
    {history system : List (CString × CJson)} {items : List CJson} (hj : j.isObject = true)
    (hhistory : j.get (CString.lit "history") = some (.object history))
    (hsystem : j.get (CString.lit "system") = some (.object system))
    (hdevices : j.get (CString.lit "devices") = some (.array items)) :
    mfConfigApplyJson cfg j =
      { cfg with
        listen := applyString j "listen" cfg.listen
        pluginDir := applyString j "plugin_dir" cfg.pluginDir
        gattBin := applyString j "gatt_bin" cfg.gattBin
        historyPath := applyString (.object history) "path" cfg.historyPath
        historyDir := applyHistoryDir (.object history)
          (applyString (.object history) "path" cfg.historyPath) cfg.historyDir
        historyEnabled := applyTrue (.object history) "enabled" cfg.historyEnabled
        inputMaxW := applyPositive (.object system) "input_max_w" cfg.inputMaxW
        dischargeMaxW := applyPositive (.object system) "discharge_max_w" cfg.dischargeMaxW
        devices := applyDevices items
        fits := applyDevices_length items } := by
  unfold mfConfigApplyJson
  rw [if_pos hj, hhistory, hsystem, hdevices]

theorem reprintItems_eq_map (xs : List CJson) : reprintItems xs = xs.map reprint := by
  induction xs with
  | nil => rfl
  | cons x xs ih => rw [reprintItems, ih, List.map_cons]

/-- The entries come back one by one. -/
theorem applyDevices_reload {devs : List ConfigDevice} (hfits : devs.length ≤ mfMaxDevices)
    (hstored : ∀ d ∈ devs, Stored d) :
    applyDevices (reprintItems (devs.map deviceToJson)) = devs.map reloadDevice := by
  rw [applyDevices, reprintItems_eq_map, List.map_map, List.filterMap_map]
  have hall : devs.filterMap (applyDevice ∘ reprint ∘ deviceToJson) = devs.map reloadDevice := by
    rw [← List.filterMap_eq_map]
    refine List.filterMap_congr fun d hd => ?_
    exact applyDevice_reprint (hstored d hd).uuid
  rw [hall, List.take_of_length_le (by rwa [List.length_map])]

/-- The text of a configuration is read as a document, whatever is in it. -/
theorem mfConfigLoadState_serialize (cfg : DaemonConfig) :
    mfConfigLoadState (mfConfigSerialize cfg) =
      some (mfConfigApplyJson mfConfigDefaults (reprint (configToJson cfg))) := by
  have hdevices : depthItems (cfg.devices.map deviceToJson) ≤ 512 := by
    generalize cfg.devices = devs
    induction devs with
    | nil => simp [depthItems]
    | cons d devs ih =>
      have hd := depth_deviceToJson_le d
      simp only [List.map_cons, depthItems]
      omega
  have hdepth : depth (configToJson cfg) ≤ nestingLimit := by
    simp only [configToJson, depth, depthMembers, depth_stringOrNull, nestingLimit]
    omega
  rw [mfConfigLoadState, mfConfigSerialize, parse_printText hdepth, Option.map_some]

/-- What a configuration must satisfy to come back: no path and no address is empty,
its numbers print exactly, and its entries come back. -/
structure Kept (cfg : DaemonConfig) : Prop where
  listen : cfg.listen.str.nonempty = true
  pluginDir : cfg.pluginDir.str.nonempty = true
  gattBin : cfg.gattBin.str.nonempty = true
  historyPath : cfg.historyPath.str.nonempty = true
  historyDir : cfg.historyDir.str.nonempty = true
  inputMaxW : cfg.inputMaxW.reprint = some cfg.inputMaxW
  dischargeMaxW : cfg.dischargeMaxW.reprint = some cfg.dischargeMaxW
  devices : ∀ d ∈ cfg.devices, KeptDevice d

/-- A string read into a default that is not empty comes back just when it is not
empty itself. -/
theorem applyString_eq_iff {cap : ℕ} [NeZero cap] {j : CJson} {key : String} {b old : CBuf cap}
    (h : j.get (CString.lit key) = some (stringOrNull b.str)) (hold : old.str.nonempty = true) :
    applyString j key old = b ↔ b.str.nonempty = true := by
  rw [applyString_stringOrNull h]
  constructor
  · intro heq
    by_contra hb
    rw [if_neg hb] at heq
    exact hb (heq ▸ hold)
  · intro hb
    rw [if_pos hb]

/-- A positive number read into a positive default that prints exactly comes back
just when it prints exactly itself. -/
theorem applyPositive_eq_iff {j : CJson} {key : String} {v old : Double}
    (h : j.get (CString.lit key) = some (reprint (.number v)))
    (hold : old.reprint = some old) (hv : Double.zero.lt v = true) :
    applyPositive j key old = v ↔ v.reprint = some v := by
  rw [applyPositive, h, Option.bind_some, reprint]
  cases hprint : v.reprint with
  | none =>
    refine iff_of_false (fun heq => ?_) (by simp)
    change old = v at heq
    rw [← heq, hold] at hprint
    cases hprint
  | some w =>
    change (if Double.zero.lt w = true then w else old) = v ↔ some w = some v
    constructor
    · intro heq
      split at heq
      · rw [heq]
      · rw [← heq, hold] at hprint
        rw [← heq, hprint]
    · rintro hw
      cases hw
      rw [if_pos hv]

/-- A buffer that is filled with something is not empty. -/
theorem nonempty_copy_append (s t : CString) (ht : t.nonempty = true) :
    (CBuf.copy 256 (s ++ t)).str.nonempty = true := by
  have hne : (s ++ t).bytes ≠ [] := by
    simp only [CString.nonempty, Bool.not_eq_true', List.isEmpty_eq_false_iff] at ht
    simp [ht]
  cases hb : (s ++ t).bytes with
  | nil => exact absurd hb hne
  | cons b bs => simp [CString.nonempty, CBuf.str_copy, hb]

/-- A history directory comes back just when it is not empty. -/
theorem applyHistoryDir_eq_iff {h : CJson} {b dir path old : CBuf 256}
    (hpath : h.get (CString.lit "path") = some (stringOrNull b.str))
    (hdir : h.get (CString.lit "dir") = some (stringOrNull dir.str))
    (hold : old.str.nonempty = true) :
    applyHistoryDir h path old = dir ↔ dir.str.nonempty = true := by
  rw [applyHistoryDir, hdir, Option.bind_some, hpath, Option.bind_some]
  by_cases hne : dir.str.nonempty
  · rw [stringOrNull, if_pos hne]
    exact iff_of_true (CBuf.copy_str dir) hne
  · refine iff_of_false (fun heq => hne ?_) hne
    rw [stringOrNull, if_neg hne] at heq
    rw [← heq]
    by_cases hp : b.str.nonempty
    · rw [stringOrNull, if_pos hp]
      exact nonempty_copy_append _ _ (by decide)
    · rw [stringOrNull, if_neg hp]
      exact hold

/-- The history block as it is written and read. -/
def historyBlock (cfg : DaemonConfig) : List (CString × CJson) :=
  [(CString.lit "path", stringOrNull cfg.historyPath.str),
    (CString.lit "dir", stringOrNull cfg.historyDir.str),
    (CString.lit "enabled", .bool cfg.historyEnabled)]

/-- The system block as it is read. -/
def systemBlock (cfg : DaemonConfig) : List (CString × CJson) :=
  [(CString.lit "input_max_w", reprint (.number cfg.inputMaxW)),
    (CString.lit "discharge_max_w", reprint (.number cfg.dischargeMaxW))]

/-- What comes back is the same just under the condition. -/
theorem same_reload_iff {cfg : DaemonConfig} (h : Sound cfg) :
    Same (mfConfigApplyJson mfConfigDefaults (reprint (configToJson cfg))) cfg ↔ Kept cfg := by
  have hhistory : (reprint (configToJson cfg)).get (CString.lit "history") =
      some (reprint (.object (historyBlock cfg))) := rfl
  have hsystem : (reprint (configToJson cfg)).get (CString.lit "system") =
      some (.object (systemBlock cfg)) := rfl
  have hdevices : (reprint (configToJson cfg)).get (CString.lit "devices") =
      some (.array (reprintItems (cfg.devices.map deviceToJson))) := rfl
  have hblock : reprint (.object (historyBlock cfg)) = .object (historyBlock cfg) := by
    simp only [historyBlock, reprint, reprintMembers, reprint_stringOrNull]
  rw [hblock] at hhistory
  have hstring {k : String} {s : CString}
      (hk : (reprint (configToJson cfg)).get (CString.lit k) = some (reprint (stringOrNull s))) :
      (reprint (configToJson cfg)).get (CString.lit k) = some (stringOrNull s) := by
    rw [hk, reprint_stringOrNull]
  have hlisten : applyString (reprint (configToJson cfg)) "listen" mfConfigDefaults.listen =
      cfg.listen ↔ cfg.listen.str.nonempty = true :=
    applyString_eq_iff (hstring rfl) (by decide)
  have hplugin : applyString (reprint (configToJson cfg)) "plugin_dir" mfConfigDefaults.pluginDir =
      cfg.pluginDir ↔ cfg.pluginDir.str.nonempty = true :=
    applyString_eq_iff (hstring rfl) (by decide)
  have hgatt : applyString (reprint (configToJson cfg)) "gatt_bin" mfConfigDefaults.gattBin =
      cfg.gattBin ↔ cfg.gattBin.str.nonempty = true :=
    applyString_eq_iff (hstring rfl) (by decide)
  have hpath : applyString (.object (historyBlock cfg)) "path" mfConfigDefaults.historyPath =
      cfg.historyPath ↔ cfg.historyPath.str.nonempty = true :=
    applyString_eq_iff rfl (by decide)
  have hdir (path : CBuf 256) :
      applyHistoryDir (.object (historyBlock cfg)) path mfConfigDefaults.historyDir =
        cfg.historyDir ↔ cfg.historyDir.str.nonempty = true :=
    applyHistoryDir_eq_iff (b := cfg.historyPath) rfl rfl (by decide)
  have hinput : applyPositive (.object (systemBlock cfg)) "input_max_w" mfConfigDefaults.inputMaxW =
      cfg.inputMaxW ↔ cfg.inputMaxW.reprint = some cfg.inputMaxW :=
    applyPositive_eq_iff rfl (Double.reprint_ofInt 3500) h.inputMaxW
  have hdischarge : applyPositive (.object (systemBlock cfg)) "discharge_max_w"
      mfConfigDefaults.dischargeMaxW =
        cfg.dischargeMaxW ↔ cfg.dischargeMaxW.reprint = some cfg.dischargeMaxW :=
    applyPositive_eq_iff rfl (Double.reprint_ofInt 3000) h.dischargeMaxW
  have hentries : List.Forall₂ SameDevice (cfg.devices.map reloadDevice) cfg.devices ↔
      ∀ d ∈ cfg.devices, KeptDevice d := by
    rw [List.forall₂_map_left_iff, List.forall₂_same]
    exact forall₂_congr fun d hd => sameDevice_reload_iff (h.devices d hd)
  rw [← applyDevices_reload cfg.fits h.devices] at hentries
  have henabled : applyTrue (.object (historyBlock cfg)) "enabled" true = cfg.historyEnabled := by
    rw [h.historyEnabled]
    exact applyTrue_true _ _
  rw [mfConfigApplyJson_blocks _ rfl hhistory hsystem hdevices]
  constructor
  · rintro ⟨h1, h2, h3, h4, h5, -, h7, h8, h9⟩
    exact ⟨hlisten.mp h1, hplugin.mp h2, hgatt.mp h3, hpath.mp h4, (hdir _).mp h5, hinput.mp h7,
      hdischarge.mp h8, hentries.mp h9⟩
  · rintro ⟨h1, h2, h3, h4, h5, h7, h8, h9⟩
    exact ⟨hlisten.mpr h1, hplugin.mpr h2, hgatt.mpr h3, hpath.mpr h4, (hdir _).mpr h5, henabled,
      hinput.mpr h7, hdischarge.mpr h8, hentries.mpr h9⟩

/-- A configuration of the daemon comes back from disk with every field but
`config_gen` just under the condition. -/
theorem round_trip_iff {cfg : DaemonConfig} (hreach : Reachable cfg) :
    (∃ cfg', mfConfigLoadState (mfConfigSerialize cfg) = some cfg' ∧ Same cfg' cfg) ↔ Kept cfg := by
  rw [mfConfigLoadState_serialize]
  simp only [Option.some.injEq, exists_eq_left']
  exact same_reload_iff (sound_of_reachable hreach)

/-- A configuration with a weather module that has settings of its own. -/
def weatherDocument : CJson :=
  .object [(CString.lit "devices", .array [.object
    [(CString.lit "uuid", .string (CString.lit "w1")),
      (CString.lit "name", .string (CString.lit "Sky")),
      (CString.lit "kind", .string (CString.lit "weather")),
      (CString.lit "driver", .string (CString.lit "weathergov")),
      (CString.lit "enabled", .bool true),
      (CString.lit "poll_interval_s", .number (Double.ofInt 600)),
      (CString.lit "weather", .object [(CString.lit "zip", .string (CString.lit "60601"))])]])]

theorem round_trip_iff_weather :
    ∃ cfg', mfConfigLoadState
        (mfConfigSerialize (mfConfigApplyJson mfConfigDefaults weatherDocument)) = some cfg' ∧
      Same cfg' (mfConfigApplyJson mfConfigDefaults weatherDocument) := by
  refine (round_trip_iff (.apply .defaults weatherDocument)).mpr ?_
  refine ⟨by decide, by decide, by decide, by decide, by decide, Double.reprint_ofInt 3500,
    Double.reprint_ofInt 3000, fun d hd => ?_⟩
  have hall : ∀ d ∈ (mfConfigApplyJson mfConfigDefaults weatherDocument).devices,
      d.pollIntervalS.reprint = some d.pollIntervalS ∧
        d.captureIntervalS.reprint = some d.captureIntervalS ∧
        d.retentionDays.reprint = some d.retentionDays ∧
        extraValue d = some (.object [(CString.lit "weather",
          .object [(CString.lit "zip", .string (CString.lit "60601"))])]) := by
    decide +kernel
  obtain ⟨hpoll, hcapture, hretention, hextra⟩ := hall d hd
  refine ⟨hpoll, hcapture, hretention, fun v hv => ?_⟩
  cases hextra.symm.trans hv
  decide +kernel

/-- A configuration without a plugin directory. -/
def noPlugins : DaemonConfig :=
  mfConfigApplyJson mfConfigDefaults
    (.object [(CString.lit "plugin_dir", .string CString.empty)])

/-- An empty plugin directory is written as null and read as the default one. -/
theorem empty_plugin_dir_lost :
    Reachable noPlugins ∧
      ¬∃ cfg', mfConfigLoadState (mfConfigSerialize noPlugins) = some cfg' ∧ Same cfg' noPlugins := by
  refine ⟨.apply .defaults _, ?_⟩
  rw [mfConfigLoadState_serialize]
  rintro ⟨cfg', hload, hsame⟩
  cases hload
  have hdir := hsame.pluginDir
  revert hdir
  decide

end MoonFlare.RoundTrip
