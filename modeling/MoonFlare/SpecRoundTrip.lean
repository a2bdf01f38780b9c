import MoonFlare.CJsonDepth
import MoonFlare.DeviceSlots

/-!
# The spec of a configured device

A configuration entry reaches its plugin as printed JSON. What the daemon reads
back from that text is what the entry holds: every field of the entry's own
under its key, and with them its bus and endpoint.
-/

namespace MoonFlare

open CJson

/-- A key that is there already is not touched by the plugin keys. -/
theorem lookup_addExtra {k : CString} {v : CJson} {ms : List (CString × CJson)}
    (es : List (CString × CJson)) (h : lookup k ms = some v) :
    lookup k (addExtra ms es) = some v := by
  induction es generalizing ms with
  | nil => exact h
  | cons e es ih =>
    obtain ⟨l, w⟩ := e
    rw [addExtra]
    refine ih ?_
    split
    · exact h
    · rw [lookup_append, h, Option.some_or]

theorem depthMembers_addExtra_le (ms es : List (CString × CJson)) :
    depthMembers (addExtra ms es) ≤ max (depthMembers ms) (depthMembers es) := by
  induction es generalizing ms with
  | nil => simp [addExtra]
  | cons e es ih =>
    obtain ⟨l, w⟩ := e
    rw [addExtra]
    refine (ih _).trans ?_
    split
    · simp only [depthMembers]
      omega
    · simp only [depthMembers_append, depthMembers]
      omega

/-- The plugin keys `device_to_json` reads back from the entry. -/
def storedExtra (d : ConfigDevice) : List (CString × CJson) :=
  if d.extraJson.str.nonempty then ((parse d.extraJson.str).map members).getD [] else []

theorem depthMembers_storedExtra_le (d : ConfigDevice) : depthMembers (storedExtra d) ≤ 511 := by
  unfold storedExtra
  split
  · cases hj : parse d.extraJson.str with
    | none => simp [depthMembers]
    | some j =>
      have hdepth := depth_of_parse hj
      have hfits := d.extraJson.fits
      cases j <;> simp [members, depthMembers]
      simp only [depth] at hdepth
      omega
  · simp [depthMembers]

theorem depth_stringOrNull (s : CString) : depth (stringOrNull s) = 0 := by
  unfold stringOrNull
  split <;> rfl

theorem reprint_stringOrNull (s : CString) : reprint (stringOrNull s) = stringOrNull s := by
  unfold stringOrNull
  split <;> rfl

theorem reprint_intItem (z : Int32) : reprint (intItem z) = intItem z := by
  rw [intItem, reprint, Double.reprint_ofInt]

theorem depthMembers_deviceMembers (d : ConfigDevice) : depthMembers (deviceMembers d) = 1 := by
  simp [deviceMembers, depthMembers, depth, depth_stringOrNull, intItem]

/-- An entry is printed far below the nesting limit. -/
theorem depth_deviceToJson_le (d : ConfigDevice) : depth (deviceToJson d) ≤ 512 := by
  have hadd := depthMembers_addExtra_le (deviceMembers d) (storedExtra d)
  have hextra := depthMembers_storedExtra_le d
  rw [depthMembers_deviceMembers] at hadd
  have hd : depth (deviceToJson d) = depthMembers (addExtra (deviceMembers d) (storedExtra d)) + 1 :=
    rfl
  omega

/-- The spec of an entry parses. -/
theorem parse_serialize (d : ConfigDevice) :
    parse (mfConfigDeviceSerialize d) = some (reprint (deviceToJson d)) :=
  parse_printText ((depth_deviceToJson_le d).trans (by decide))

/-- The fields of an entry are read back from its spec under their keys. -/
theorem getCase_serialize (d : ConfigDevice) {k : String} {v : CJson}
    (h : lookup (CString.lit k) (deviceMembers d) = some v) :
    getCase? (parse (mfConfigDeviceSerialize d)) k = some (reprint v) := by
  rw [parse_serialize, getCase?, Option.bind_some, getCase, deviceToJson, reprint, members_object,
    lookup_reprintMembers, lookup_addExtra _ h, Option.map_some]

theorem specString_stringOrNull {spec : Option CJson} {k : String} {s : CString}
    (h : getCase? spec k = some (stringOrNull s)) :
    specString spec k = if s.nonempty then some s else none := by
  rw [specString, h, Option.bind_some]
  unfold stringOrNull
  split
  case isTrue hs => simp [string?, Option.filter, hs]
  case isFalse hs => rfl

/-- The endpoint the daemon finds in an entry's spec is the entry's. -/
theorem specEndpoint_serialize (d : ConfigDevice) :
    specEndpoint (reprint (deviceToJson d)) = mfConfigDeviceEndpoint d := by
  have hget {k : String} {v : CJson} (h : lookup (CString.lit k) (deviceMembers d) = some v) :
      getCase? (some (reprint (deviceToJson d))) k = some (reprint v) := by
    rw [← parse_serialize]
    exact getCase_serialize d h
  have husb := @hget "usb" _ rfl
  have hble := @hget "ble" _ rfl
  have hmodbus := @hget "modbus" _ rfl
  simp only [reprint, reprintMembers, reprint_stringOrNull, reprint_intItem] at husb hble hmodbus
  rw [specEndpoint, husb, hble, hmodbus]
  simp only [Option.filter_some, isObject, if_true]
  rw [specString_stringOrNull (s := d.usb.path.str) rfl,
    specString_stringOrNull (s := d.usb.serialId.str) rfl,
    specString_stringOrNull (s := d.ble.address.str) rfl,
    specString_stringOrNull (s := d.modbus.ip.str) rfl]
  unfold mfConfigDeviceEndpoint
  by_cases hpath : d.usb.path.str.nonempty
  · simp [hpath]
  by_cases hserial : d.usb.serialId.str.nonempty
  · simp [hpath, hserial]
  by_cases haddress : d.ble.address.str.nonempty
  · simp [hpath, hserial, haddress]
  by_cases hip : d.modbus.ip.str.nonempty
  · simp only [hpath, hserial, haddress, hip, if_true, if_false, Bool.false_eq_true]
    have hport : (getCase? (some (object
        [(CString.lit "ip", stringOrNull d.modbus.ip.str), (CString.lit "port", intItem d.modbus.port),
          (CString.lit "unit_id", intItem d.modbus.unitId),
          (CString.lit "mac", stringOrNull d.modbus.mac.str),
          (CString.lit "unit_device_id", intItem d.modbus.unitDeviceId),
          (CString.lit "auto_net", .bool d.modbus.autoNet)])) "port").bind number? =
        some (Double.ofInt d.modbus.port) := rfl
    rw [hport]
    simp only [Double.toInt_ofInt]
  · simp [hpath, hserial, haddress, hip]

/-- The daemon reads an entry's bus and endpoint back from its spec. -/
theorem identityFromSpec_serialize (d : ConfigDevice) (poll : Double) :
    (identityFromSpec (mfConfigDeviceSerialize d) poll).bus = d.bus ∧
      (identityFromSpec (mfConfigDeviceSerialize d) poll).endpoint = mfConfigDeviceEndpoint d := by
  have hbus := @getCase_serialize d "bus" _ rfl
  rw [parse_serialize] at hbus
  rw [identityFromSpec, parse_serialize]
  refine ⟨?_, specEndpoint_serialize d⟩
  simp only [hbus, reprint_stringOrNull, Option.bind_some]
  unfold stringOrNull
  by_cases hs : d.bus.str.nonempty
  · simp [hs, string?]
  · have hempty : d.bus.str = CString.empty := by simpa using hs
    simp only [hs, Bool.false_eq_true, if_false, string?]
    exact (CBuf.ext (by simp [hempty]))

end MoonFlare
