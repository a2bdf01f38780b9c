import MoonFlare.HistoryQueue
import MoonFlare.RestRoutes

/-!
# Routes and exact ids

A device route is to act on the module whose id the path names, and on no other. The path
is cut to 127 bytes and the id to 36, so a longer text can be taken for an id that it only
begins with, and an action for the front of its name.
-/

namespace MoonFlare.Rest

open History

variable {κ ε : Type}

/-! ## Requests -/

namespace DeviceOp

/-- The method of an operation. -/
def method : DeviceOp → CString
  | get => CString.lit "GET"
  | delete => CString.lit "DELETE"
  | settingsGet => CString.lit "GET"
  | settingsPut => CString.lit "PUT"
  | history => CString.lit "GET"
  | action _ => CString.lit "POST"

/-- What stands behind the id. -/
def suffix : DeviceOp → CString
  | get => CString.empty
  | delete => CString.empty
  | settingsGet => CString.lit "/settings"
  | settingsPut => CString.lit "/settings"
  | history => CString.lit "/history"
  | action name => CString.lit "/actions/" ++ name

/-- An action has a name, and the query does not start in it. -/
def Valid : DeviceOp → Prop
  | action name => name.nonempty = true ∧ 63 ∉ name.bytes
  | _ => True

/-- Enough of the suffix is left, when so many bytes of it are. -/
def NamedIn (room : ℕ) : DeviceOp → Prop
  | get => True
  | delete => True
  | settingsGet => 9 ≤ room
  | settingsPut => 9 ≤ room
  | history => 8 ≤ room
  | action _ => 10 ≤ room

/-- The operation that is then left. -/
def cutTo (room : ℕ) : DeviceOp → DeviceOp
  | action name => action (name.take (room - 9))
  | op => op

/-- The operation of the same method on a path without a suffix. -/
def bare : DeviceOp → Option DeviceOp
  | delete => some delete
  | settingsPut => none
  | action _ => none
  | _ => some get

end DeviceOp

/-- The path of an operation on an id. -/
def devicePath (s : CString) (op : DeviceOp) : CString :=
  CString.lit "/api/v1/devices/" ++ (s ++ op.suffix)

/-- An id of a path: not empty, without a slash or a question mark. -/
structure IsSegment (s : CString) : Prop where
  nonempty : s.nonempty = true
  noSlash : 47 ∉ s.bytes
  noQuery : 63 ∉ s.bytes

/-- The route that a request on a path takes. -/
def routeOf (s : CString) (op : DeviceOp) : Route :=
  restRoute op.method (receivedPath (devicePath s op))

/-- What is promised of a request: it acts on the live module of that id with the operation
as it is, and is answered 404 when there is none. -/
structure ActsExactly (dv : Devices κ ε) (st : Store) (prepared : Bool) (s : CString)
    (op : DeviceOp) : Prop where
  live : (dv.findLive s).isSome = true → routeOf s op = .device op s
  gone : dv.findLive s = none → outcome dv st prepared (routeOf s op) = .answered 404

/-- The condition. A live module's path fits its buffer. With no live module the front of
the text finds nothing, on the route that is left of the path. -/
def FindsNothingElse (dv : Devices κ ε) (st : Store) (prepared : Bool) (s : CString)
    (op : DeviceOp) : Prop :=
  ((dv.findLive s).isSome = true → s.length + op.suffix.length ≤ 111) ∧
    (dv.findLive s = none →
      (s.length < 111 → op.NamedIn (111 - s.length) →
        finds dv st prepared op (s.take 36) = false) ∧
      (111 ≤ s.length → ∃ left, op.bare = some left ∧
        finds dv st prepared left (s.take 36) = false))

/-! ## The path in its buffer -/

variable {dv : Devices κ ε} {st : Store} {prepared : Bool} {s t : CString} {op : DeviceOp}

theorem noQuery_suffix (h : op.Valid) : 63 ∉ op.suffix.bytes := by
  cases op with
  | get => exact List.not_mem_nil
  | delete => exact List.not_mem_nil
  | settingsGet => change 63 ∉ (CString.lit "/settings").bytes; decide
  | settingsPut => change 63 ∉ (CString.lit "/settings").bytes; decide
  | history => change 63 ∉ (CString.lit "/history").bytes; decide
  | action name =>
    change 63 ∉ (CString.lit "/actions/").bytes ++ name.bytes
    rw [List.mem_append, not_or]
    exact ⟨by decide, h.2⟩

theorem append_assoc (a b c : CString) : a ++ b ++ c = a ++ (b ++ c) :=
  CString.ext (List.append_assoc _ _ _)

/-- Of the path its front is left, with no query. -/
theorem receivedPath_devicePath (hs : IsSegment s) (hop : op.Valid) :
    receivedPath (devicePath s op) =
      CString.lit "/api/v1/devices/" ++ (s ++ op.suffix).take 111 := by
  have hpre : (CString.lit "/api/v1/devices/").bytes.length = 16 := by decide
  have hcopy : Http.copyToken 128 (devicePath s op).bytes =
      CString.lit "/api/v1/devices/" ++ (s ++ op.suffix).take 111 := by
    have htake : (devicePath s op).bytes.take 127 =
        (CString.lit "/api/v1/devices/" ++ (s ++ op.suffix).take 111).bytes := by
      have hroom : 127 - (CString.lit "/api/v1/devices/").bytes.length = 111 := by rw [hpre]
      rw [devicePath, CString.bytes_append, List.take_append,
        List.take_of_length_le (by omega), hroom]
      rfl
    rw [Http.copyToken, htake, CString.ofBytes_bytes]
  have hno : 63 ∉ (CString.lit "/api/v1/devices/" ++ (s ++ op.suffix).take 111).bytes := by
    rw [CString.bytes_append, List.mem_append, not_or]
    refine ⟨by decide, fun hmem => ?_⟩
    have hmem' := List.mem_of_mem_take hmem
    rw [CString.bytes_append, List.mem_append] at hmem'
    rcases hmem' with hin | hin
    · exact hs.noQuery hin
    · exact noQuery_suffix hop hin
  have hsplit : (CString.lit "/api/v1/devices/" ++ (s ++ op.suffix).take 111).splitAt 63 = none :=
    if_neg hno
  rw [receivedPath, hcopy, Http.splitQuery, hsplit]

/-- Behind the prefix the text is a device route's. -/
theorem restRoute_device (method : CString) (t : CString) :
    restRoute method (CString.lit "/api/v1/devices/" ++ t) = deviceRoute method t := by
  have hstart : (CString.lit "/api/v1/devices/" ++ t).startsWith (CString.lit "/api/v1/") = true :=
    List.isPrefixOf_iff_prefix.mpr ⟨(CString.lit "devices/").bytes ++ t.bytes, rfl⟩
  have hdrop : (CString.lit "/api/v1/devices/" ++ t).drop 8 = CString.lit "devices/" ++ t := rfl
  have hslash : (CString.lit "devices/" ++ t).splitAt 47 ≠ none := by
    have hmem : (47 : UInt8) ∈ (CString.lit "devices/" ++ t).bytes :=
      List.mem_append_left _ (by decide)
    unfold CString.splitAt
    rw [if_pos hmem]
    exact Option.some_ne_none _
  have hdev : (CString.lit "devices/" ++ t).startsWith (CString.lit "devices/") = true :=
    List.isPrefixOf_iff_prefix.mpr ⟨t.bytes, rfl⟩
  have hrest : (CString.lit "devices/" ++ t).drop 8 = t := rfl
  unfold restRoute
  rw [if_pos hstart]
  dsimp only
  rw [hdrop]
  cases hsplit : (CString.lit "devices/" ++ t).splitAt 47 with
  | none => exact absurd hsplit hslash
  | some parts =>
    dsimp only
    rw [if_pos hdev, hrest]

/-- The text in front of the first slash. -/
theorem splitAt_slash (hs : 47 ∉ s.bytes) (t : CString) :
    (s ++ (CString.lit "/" ++ t)).splitAt 47 = some (s, t) := by
  have hmem : (47 : UInt8) ∈ (s ++ (CString.lit "/" ++ t)).bytes := by
    rw [CString.bytes_append, CString.bytes_append]
    exact List.mem_append_right _ (List.mem_append_left _ (by decide))
  have hfront : ((s ++ (CString.lit "/" ++ t)).bytes.takeWhile (· ≠ 47)).length = s.bytes.length := by
    have hbytes : (s ++ (CString.lit "/" ++ t)).bytes = s.bytes ++ 47 :: t.bytes := rfl
    rw [hbytes, List.takeWhile_append_of_pos (fun b hb => by
      simpa using fun h : b = 47 => hs (h ▸ hb))]
    simp
  unfold CString.splitAt
  rw [if_pos hmem, hfront]
  dsimp only
  rw [Option.some.injEq, Prod.mk.injEq]
  constructor
  · refine CString.ext ?_
    rw [CString.bytes_take, CString.bytes_append, List.take_left]
  · refine CString.ext ?_
    have hbytes : (s ++ (CString.lit "/" ++ t)).bytes = (s.bytes ++ [47]) ++ t.bytes := by
      rw [CString.bytes_append, CString.bytes_append, List.append_assoc]
      rfl
    have hlen : s.bytes.length + 1 = (s.bytes ++ [47]).length := by simp
    rw [CString.bytes_drop, hbytes, hlen, List.drop_left]

/-- What is left of a suffix behind its slash. -/
theorem take_suffix (hs : s.length < 111) (t : CString) :
    (s ++ (CString.lit "/" ++ t)).take 111 = s ++ (CString.lit "/" ++ t.take (110 - s.length)) := by
  refine CString.ext ?_
  simp only [CString.bytes_take, CString.bytes_append]
  have hlen : s.bytes.length < 111 := hs
  have hsub : 111 - s.bytes.length = (110 - s.bytes.length) + 1 := by omega
  rw [List.take_append, List.take_of_length_le (by omega), hsub]
  rfl

/-- A path that is cut inside the id has no suffix. -/
theorem take_segment (hs : 111 ≤ s.length) (t : CString) : (s ++ t).take 111 = s.take 111 := by
  have hlen : 111 ≤ s.bytes.length := hs
  refine CString.ext ?_
  rw [CString.bytes_take, CString.bytes_append, List.take_append_of_le_length hlen]
  rfl

theorem splitAt_none (hs : 47 ∉ s.bytes) : s.splitAt 47 = none := if_neg hs

theorem idbuf_eq (s : CString) : idbuf s = s.take 36 := rfl

theorem take_take (s : CString) (m n : ℕ) : (s.take m).take n = s.take (min n m) :=
  CString.ext (List.take_take ..)

theorem nonempty_append (hs : s.nonempty = true) (t : CString) : (s ++ t).nonempty = true := by
  rw [CString.nonempty_iff] at hs ⊢
  intro hnil
  have hbytes : s.bytes ++ t.bytes = [] := congrArg CString.bytes hnil
  exact hs (CString.ext (List.append_eq_nil_iff.mp hbytes).1)

/-- The device route of a bare id. -/
theorem deviceRoute_bare (method : CString) (hne : t.nonempty = true) (hno : 47 ∉ t.bytes) :
    deviceRoute method t = forMethods method "GET" (.device .get (t.take 36)) "DELETE"
      (.device .delete (t.take 36)) := by
  unfold deviceRoute
  rw [if_pos hne, splitAt_none hno, idbuf_eq]

/-- The device route of an id with something behind it. -/
theorem deviceRoute_suffix (method : CString) (hs : IsSegment s) (rest : CString) :
    deviceRoute method (s ++ (CString.lit "/" ++ rest)) = moduleRoute method (s.take 36) rest := by
  unfold deviceRoute
  rw [if_pos (nonempty_append hs.nonempty _), splitAt_slash hs.noSlash]
  rfl

/-! ## The route that is left -/

/-- A path that is cut inside the id. -/
theorem routeOf_long (hs : IsSegment s) (hop : op.Valid) (hlen : 111 ≤ s.length) :
    routeOf s op = match op.bare with
      | some left => .device left (s.take 36)
      | none => .error 405 := by
  have hne : (s.take 111).nonempty = true := by
    rw [CString.nonempty_iff]
    intro hnil
    have hbytes : s.bytes.take 111 = [] := congrArg CString.bytes hnil
    have hslen : 111 ≤ s.bytes.length := hlen
    rw [List.take_eq_nil_iff] at hbytes
    rcases hbytes with hno | hno
    · cases hno
    · rw [hno] at hslen
      simp at hslen
  have hno : 47 ∉ (s.take 111).bytes := fun hmem => hs.noSlash (List.mem_of_mem_take hmem)
  rw [routeOf, receivedPath_devicePath hs hop, restRoute_device, take_segment hlen,
    deviceRoute_bare _ hne hno, take_take]
  cases op <;> rfl

/-- The rest of a suffix that no route has. -/
theorem moduleRoute_cut (method id : CString) {name : String} {k : ℕ}
    (hsettings : (CString.lit name).take k ≠ CString.lit "settings")
    (hhistory : (CString.lit name).take k ≠ CString.lit "history")
    (hactions : ((CString.lit name).take k).startsWith (CString.lit "actions/") = false) :
    moduleRoute method id ((CString.lit name).take k) = .error 404 := by
  unfold moduleRoute
  rw [if_neg hsettings, if_neg hhistory, hactions]
  rfl

theorem take_whole {name : String} {k : ℕ} (h : (CString.lit name).length ≤ k) :
    (CString.lit name).take k = CString.lit name := CString.take_of_length_le h

theorem settings_rest (k : ℕ) (method id : CString) :
    (8 ≤ k → moduleRoute method id ((CString.lit "settings").take k) =
      forMethods method "GET" (.device .settingsGet id) "PUT" (.device .settingsPut id)) ∧
    (¬8 ≤ k → moduleRoute method id ((CString.lit "settings").take k) = .error 404) := by
  constructor
  · intro hk
    rw [take_whole (by rw [show (CString.lit "settings").length = 8 by decide]; exact hk)]
    rfl
  · intro hk
    have hcut : ∀ j < 8, (CString.lit "settings").take j ≠ CString.lit "settings" ∧
        (CString.lit "settings").take j ≠ CString.lit "history" ∧
        ((CString.lit "settings").take j).startsWith (CString.lit "actions/") = false := by
      decide
    obtain ⟨hsettings, hhistory, hactions⟩ := hcut k (by omega)
    exact moduleRoute_cut method id hsettings hhistory hactions

theorem history_rest (k : ℕ) (method id : CString) :
    (7 ≤ k → moduleRoute method id ((CString.lit "history").take k) =
      forMethod method "GET" (.device .history id)) ∧
    (¬7 ≤ k → moduleRoute method id ((CString.lit "history").take k) = .error 404) := by
  constructor
  · intro hk
    rw [take_whole (by rw [show (CString.lit "history").length = 7 by decide]; exact hk)]
    rfl
  · intro hk
    have hcut : ∀ j < 7, (CString.lit "history").take j ≠ CString.lit "settings" ∧
        (CString.lit "history").take j ≠ CString.lit "history" ∧
        ((CString.lit "history").take j).startsWith (CString.lit "actions/") = false := by
      decide
    obtain ⟨hsettings, hhistory, hactions⟩ := hcut k (by omega)
    exact moduleRoute_cut method id hsettings hhistory hactions

/-- What is left of an action. -/
theorem take_actions (name : CString) (k : ℕ) :
    (8 ≤ k → (CString.lit "actions/" ++ name).take k = CString.lit "actions/" ++ name.take (k - 8)) ∧
    (k ≤ 8 → (CString.lit "actions/" ++ name).take k = (CString.lit "actions/").take k) := by
  have hlen : (CString.lit "actions/").bytes.length = 8 := by decide
  constructor
  · intro hk
    refine CString.ext ?_
    simp only [CString.bytes_take, CString.bytes_append]
    rw [List.take_append, List.take_of_length_le (by omega), hlen]
  · intro hk
    refine CString.ext ?_
    simp only [CString.bytes_take, CString.bytes_append]
    rw [List.take_append_of_le_length (by omega)]

theorem moduleRoute_actions (id name : CString) :
    moduleRoute (CString.lit "POST") id (CString.lit "actions/" ++ name) =
      if name.nonempty then .device (.action name) id else .error 404 := by
  have hfirst : ∀ other : CString, other.bytes.head? ≠ some 97 →
      CString.lit "actions/" ++ name ≠ other := by
    intro other hother heq
    rw [← heq] at hother
    exact hother rfl
  have hstart : (CString.lit "actions/" ++ name).startsWith (CString.lit "actions/") = true :=
    List.isPrefixOf_iff_prefix.mpr ⟨name.bytes, rfl⟩
  have hdrop : (CString.lit "actions/" ++ name).drop 8 = name := rfl
  unfold moduleRoute
  rw [if_neg (hfirst _ (by decide)), if_neg (hfirst _ (by decide)), if_pos hstart, hdrop]
  rfl

theorem actions_rest (k : ℕ) (id : CString) {name : CString} (hname : name.nonempty = true) :
    (9 ≤ k → moduleRoute (CString.lit "POST") id ((CString.lit "actions/" ++ name).take k) =
      .device (.action (name.take (k - 8))) id) ∧
    (¬9 ≤ k → moduleRoute (CString.lit "POST") id ((CString.lit "actions/" ++ name).take k) =
      .error 404) := by
  constructor
  · intro hk
    have hleft : (name.take (k - 8)).nonempty = true := by
      rw [CString.nonempty_iff] at hname ⊢
      intro hnil
      have hbytes : name.bytes.take (k - 8) = [] := congrArg CString.bytes hnil
      rcases List.take_eq_nil_iff.mp hbytes with hzero | hnone
      · omega
      · exact hname (CString.ext hnone)
    rw [(take_actions name k).1 (by omega), moduleRoute_actions, if_pos hleft]
  · intro hk
    rw [(take_actions name k).2 (by omega)]
    by_cases height : k = 8
    · rw [height]
      rfl
    · have hcut : ∀ j < 8, (CString.lit "actions/").take j ≠ CString.lit "settings" ∧
          (CString.lit "actions/").take j ≠ CString.lit "history" ∧
          ((CString.lit "actions/").take j).startsWith (CString.lit "actions/") = false := by
        decide
      obtain ⟨hsettings, hhistory, hactions⟩ := hcut k (by omega)
      exact moduleRoute_cut _ id hsettings hhistory hactions

/-- The route of a path whose id is whole in its buffer. -/
theorem routeOf_short (hs : IsSegment s) (hop : op.Valid) (hlen : s.length < 111) :
    (op.NamedIn (111 - s.length) →
      routeOf s op = .device (op.cutTo (111 - s.length)) (s.take 36)) ∧
    (¬op.NamedIn (111 - s.length) → routeOf s op = .error 404) := by
  have hbare : op.suffix = CString.empty → deviceRoute op.method ((s ++ op.suffix).take 111) =
      forMethods op.method "GET" (.device .get (s.take 36)) "DELETE"
        (.device .delete (s.take 36)) := by
    intro hempty
    have hsame : (s ++ op.suffix).take 111 = s := by
      have happ : s ++ op.suffix = s := by
        rw [hempty]
        exact CString.ext (List.append_nil _)
      rw [happ, CString.take_of_length_le (by omega)]
    rw [hsame]
    exact deviceRoute_bare _ hs.nonempty hs.noSlash
  have hsuffix : ∀ rest, op.suffix = CString.lit "/" ++ rest →
      deviceRoute op.method ((s ++ op.suffix).take 111) =
        moduleRoute op.method (s.take 36) (rest.take (110 - s.length)) := by
    intro rest hrest
    rw [hrest, take_suffix hlen, deviceRoute_suffix _ hs]
  rw [routeOf, receivedPath_devicePath hs hop, restRoute_device]
  generalize hroom : 110 - s.length = k at hsuffix
  have hk : 111 - s.length = k + 1 := by omega
  rw [hk]
  cases op with
  | get =>
    rw [hbare rfl]
    exact ⟨fun _ => rfl, fun hno => absurd trivial hno⟩
  | delete =>
    rw [hbare rfl]
    exact ⟨fun _ => rfl, fun hno => absurd trivial hno⟩
  | settingsGet =>
    rw [hsuffix (CString.lit "settings") rfl]
    obtain ⟨hwhole, hcut⟩ := settings_rest k (CString.lit "GET") (s.take 36)
    exact ⟨fun h => hwhole (Nat.le_of_succ_le_succ h),
      fun h => hcut fun hk => h (Nat.succ_le_succ hk)⟩
  | settingsPut =>
    rw [hsuffix (CString.lit "settings") rfl]
    obtain ⟨hwhole, hcut⟩ := settings_rest k (CString.lit "PUT") (s.take 36)
    exact ⟨fun h => hwhole (Nat.le_of_succ_le_succ h),
      fun h => hcut fun hk => h (Nat.succ_le_succ hk)⟩
  | history =>
    rw [hsuffix (CString.lit "history") rfl]
    obtain ⟨hwhole, hcut⟩ := history_rest k (CString.lit "GET") (s.take 36)
    exact ⟨fun h => hwhole (Nat.le_of_succ_le_succ h),
      fun h => hcut fun hk => h (Nat.succ_le_succ hk)⟩
  | action name =>
    have hsame : (DeviceOp.action name).suffix = CString.lit "/" ++ (CString.lit "actions/" ++ name) :=
      rfl
    rw [hsuffix _ hsame]
    obtain ⟨hwhole, hcut⟩ := actions_rest k (s.take 36) hop.1
    refine ⟨fun h => ?_, fun h => hcut fun hk => h (Nat.succ_le_succ hk)⟩
    have hk9 : 9 ≤ k := Nat.le_of_succ_le_succ h
    have hleft : k + 1 - 9 = k - 8 := by omega
    rw [DeviceOp.cutTo, hleft]
    exact hwhole hk9

/-! ## Which ids a route acts on -/

theorem length_lt_of_findLive (h : (dv.findLive s).isSome = true) : s.length < 37 := by
  obtain ⟨i, hi⟩ := Option.isSome_iff_exists.mp h
  unfold Devices.findLive at hi
  split_ifs at hi
  obtain ⟨d, -, hd⟩ := Devices.findSlot_some hi
  simp only [Bool.and_eq_true, decide_eq_true_eq] at hd
  rw [← hd.2]
  exact d.uuid.fits

/-- The operation is whole when its suffix fits. -/
theorem cutTo_eq_iff {room : ℕ} (hroom : 10 ≤ room) :
    op.cutTo room = op ↔ op.suffix.length ≤ room := by
  cases op with
  | get => exact ⟨fun _ => Nat.zero_le _, fun _ => rfl⟩
  | delete => exact ⟨fun _ => Nat.zero_le _, fun _ => rfl⟩
  | settingsGet => exact ⟨fun _ => (show 9 ≤ room by omega), fun _ => rfl⟩
  | settingsPut => exact ⟨fun _ => (show 9 ≤ room by omega), fun _ => rfl⟩
  | history => exact ⟨fun _ => (show 8 ≤ room by omega), fun _ => rfl⟩
  | action name =>
    have hlen : (DeviceOp.action name).suffix.length = 9 + name.length := by
      change ((CString.lit "/actions/").bytes ++ name.bytes).length = _
      rw [List.length_append]
      rfl
    rw [hlen, DeviceOp.cutTo, DeviceOp.action.injEq]
    constructor
    · intro heq
      have htake : (name.take (room - 9)).length ≤ room - 9 := by
        change (name.bytes.take (room - 9)).length ≤ room - 9
        rw [List.length_take]
        exact Nat.min_le_left _ _
      rw [heq] at htake
      omega
    · intro hle
      exact CString.take_of_length_le (by omega)

theorem namedIn_of_room {room : ℕ} (h : 10 ≤ room) (op : DeviceOp) : op.NamedIn room := by
  cases op with
  | get => trivial
  | delete => trivial
  | settingsGet => exact (by omega : 9 ≤ room)
  | settingsPut => exact (by omega : 9 ≤ room)
  | history => exact (by omega : 8 ≤ room)
  | action name => exact h

theorem finds_cutTo (dv : Devices κ ε) (st : Store) (prepared : Bool) (room : ℕ) (op : DeviceOp)
    (id : CString) : finds dv st prepared (op.cutTo room) id = finds dv st prepared op id := by
  cases op <;> rfl

/-- A handler that finds nothing answers 404. -/
theorem outcome_device (op : DeviceOp) (id : CString) :
    outcome dv st prepared (.device op id) = .answered 404 ↔ finds dv st prepared op id = false := by
  unfold outcome
  cases hfinds : finds dv st prepared op id with
  | true => simp [hfinds]
  | false => simp [hfinds]

/-- For every table, history, id and operation: the operation acts on the live module of
exactly that id, and is answered 404 without one, exactly when a live module's path fits its
buffer and without one the front of the text finds nothing. -/
theorem acts_exactly_iff (dv : Devices κ ε) (st : Store) (prepared : Bool) {s : CString}
    {op : DeviceOp} (hs : IsSegment s) (hop : op.Valid) :
    ActsExactly dv st prepared s op ↔ FindsNothingElse dv st prepared s op := by
  have hlive : (dv.findLive s).isSome = true →
      (routeOf s op = .device op s ↔ s.length + op.suffix.length ≤ 111) := by
    intro hfound
    have hlen := length_lt_of_findLive hfound
    have hroom : 10 ≤ 111 - s.length := by omega
    have hroute := (routeOf_short hs hop (by omega)).1 (namedIn_of_room hroom op)
    rw [hroute, CString.take_of_length_le (show s.length ≤ 36 by omega), Route.device.injEq,
      and_iff_left rfl, cutTo_eq_iff hroom]
    omega
  have hgone : outcome dv st prepared (routeOf s op) = .answered 404 ↔
      (s.length < 111 → op.NamedIn (111 - s.length) →
        finds dv st prepared op (s.take 36) = false) ∧
      (111 ≤ s.length → ∃ left, op.bare = some left ∧
        finds dv st prepared left (s.take 36) = false) := by
    by_cases hlen : s.length < 111
    · have hnot : ¬111 ≤ s.length := by omega
      simp only [hlen, hnot, true_imp_iff, false_imp_iff, and_true]
      obtain ⟨hnamed, hcut⟩ := routeOf_short hs hop hlen
      by_cases hname : op.NamedIn (111 - s.length)
      · rw [hnamed hname, outcome_device, finds_cutTo]
        exact ⟨fun h _ => h, fun h => h hname⟩
      · rw [hcut hname]
        exact ⟨fun _ h => absurd h hname, fun _ => rfl⟩
    · have hge : 111 ≤ s.length := by omega
      simp only [hlen, hge, true_imp_iff, false_imp_iff, true_and]
      rw [routeOf_long hs hop hge]
      cases hbare : op.bare with
      | none =>
        constructor
        · intro h
          cases h
        · rintro ⟨left, hleft, -⟩
          cases hleft
      | some left =>
        dsimp only
        rw [outcome_device]
        constructor
        · exact fun h => ⟨left, rfl, h⟩
        · rintro ⟨left', hleft, h⟩
          rw [Option.some.inj hleft]
          exact h
  constructor
  · intro h
    exact ⟨fun hfound => (hlive hfound).mp (h.live hfound), fun hnone => hgone.mp (h.gone hnone)⟩
  · intro h
    exact ⟨fun hfound => (hlive hfound).mpr (h.1 hfound), fun hnone => hgone.mpr (h.2 hnone)⟩

section Example

/-- The id of a module. -/
def bankId : CString := CString.lit "123e4567-e89b-12d3-a456-426614174000"

/-- A table with that module. -/
def bankTable : Devices Unit Unit :=
  (mfDevicesAdd (mfDevicesInit [] false) (CString.lit "Bank") (CString.lit "battery")
    (CString.lit "jk") (CString.lit "\x7b\x7d") bankId (CBuf.zero 37)).1

/-- A history with nothing in it. -/
def emptyHistory : Store := closedStore fun _ => ModFile.fresh

theorem isSegment_bankId : IsSegment bankId := ⟨by decide, by decide, by decide⟩

theorem acts_exactly_bank :
    ActsExactly bankTable emptyHistory true bankId .delete ↔
      FindsNothingElse bankTable emptyHistory true bankId .delete :=
  acts_exactly_iff bankTable emptyHistory true isSegment_bankId trivial

/-- Deleting a longer id deletes the module whose id it begins with. -/
theorem longer_id_deletes :
    IsSegment (bankId ++ CString.lit "x") ∧
      ¬ActsExactly bankTable emptyHistory true (bankId ++ CString.lit "x") .delete := by
  refine ⟨⟨by decide, by decide, by decide⟩, fun h => ?_⟩
  have hnone : bankTable.findLive (bankId ++ CString.lit "x") = none := by decide +kernel
  have hgone := h.gone hnone
  revert hgone
  decide +kernel

end Example

end MoonFlare.Rest
