import MoonFlare.DeviceSettings

/-!
# The settings of a phantom

A phantom averages the modules it shadows. `ph_put_settings` takes a poll
interval and a list of module ids; the list must name live modules of the
phantom's kind, and no other phantom. The averaging itself is left out.
-/

namespace MoonFlare.Phantom

open CJson

/-- `MAX_SHADOWS`. -/
def maxShadows : ℕ := 8

/-- The modules a phantom shadows. -/
structure ShadowList where
  ids : List (CBuf 37)
  fits : ids.length ≤ maxShadows

/-- `ph_ctx_t`, its reading apart. -/
structure PhCtx where
  uuid : CBuf 37
  kind : CBuf 16
  shadows : ShadowList
  pollS : Double
  /-- When the next average is due. -/
  next : Double

/-- What `mf_devices_find_live` tells of a module. -/
structure ModuleInfo where
  name : CString
  kind : CString
  driver : CString

/-- `is_uuid`. -/
def isUuid (s : CString) : Bool :=
  decide (8 ≤ s.length) && decide (s.length < 37) &&
    s.bytes.all fun b => (Double.hexOf b).isSome || b == 45

/-- Strings joined by commas, an empty front left out. -/
def joinIds (ids : List CString) : CString :=
  ids.foldl (fun text s => if text.nonempty then text ++ CString.lit "," ++ s else s) CString.empty

/-- The text of a list of shadows; `none` when it is neither a list nor a
string. -/
def shadowText : CJson → Option CString
  | .array xs => some (joinIds (xs.filterMap string?))
  | .string s => some s
  | .null => some CString.empty
  | _ => none

/-- What `strtok_r` with `", "` finds in a text. -/
def tokens (s : CString) : List CString :=
  ((s.bytes.splitOnP fun b => b = 44 ∨ b = 32).filter (· ≠ [])).map CString.ofBytes

/-- The buffer `parse_shadows` copies the text into: room for eight ids. -/
def shadowBuffer (s : CString) : CString := s.take 303

/-- One token of `parse_shadows`. -/
def addShadow (list : ShadowList) (tok : CString) : Except CString ShadowList :=
  if ¬isUuid tok then
    .error (CString.lit "phantom.shadows: '" ++ tok.take 40 ++ CString.lit "' is not a module id")
  else if CBuf.copy 37 tok ∈ list.ids then .ok list
  else if h : list.ids.length < maxShadows then
    .ok ⟨list.ids ++ [CBuf.copy 37 tok], by
      simp only [List.length_append, List.length_singleton]
      omega⟩
  else .error (CString.lit "phantom.shadows: at most 8 modules")

/-- `parse_shadows`. -/
def parseShadows (v : CJson) : Except CString ShadowList :=
  match shadowText v with
  | none => .error (CString.lit "phantom.shadows must be a list of module ids")
  | some s => (tokens (shadowBuffer s)).foldlM addShadow ⟨[], Nat.zero_le _⟩

/-- Why `ph_put_settings` refuses a shadow. -/
def checkShadow (live : CString → Option ModuleInfo) (c : PhCtx) (id : CBuf 37) : Option CString :=
  if id = c.uuid then some (CString.lit "a phantom cannot shadow itself")
  else
    match live id.str with
    | none => some (CString.lit "no module " ++ id.str.take 40)
    | some info =>
      if info.driver = CString.lit "phantom" then
        some (info.name ++ CString.lit " is a phantom; shadow real modules")
      else if info.kind ≠ c.kind.str then
        some (info.name ++ CString.lit " is a " ++ info.kind ++ CString.lit ", not a " ++ c.kind.str)
      else none

/-- The poll interval a phantom takes from new settings. -/
def givenPoll (b : CJson) : Option Double :=
  ((getCase? (some b) "poll_interval_s").bind number?).filter fun v => v.ge Double.half

/-- `ph_put_settings`, with the live modules. The interval is taken before the
list is checked. -/
def phPutSettings (live : CString → Option ModuleInfo) (c : PhCtx) (json : CString) :
    PhCtx × MfErr × CString :=
  match (parse json).filter isObject with
  | none => (c, .inval, CString.lit "settings are not a JSON object")
  | some b =>
    let c := { c with pollS := (givenPoll b).getD c.pollS }
    match getCase? (some b) "phantom.shadows" with
    | none => (c, .ok, CString.empty)
    | some v =>
      match parseShadows v with
      | .error e => (c, .inval, e)
      | .ok list =>
        match list.ids.findSome? (checkShadow live c) with
        | some e => (c, .inval, e)
        | none => ({ c with shadows := list, next := Double.zero }, .ok, CString.empty)

/-- The list of shadows in new settings is refused. -/
def ShadowsRefused (live : CString → Option ModuleInfo) (c : PhCtx) (b : CJson) : Prop :=
  ∃ v, getCase? (some b) "phantom.shadows" = some v ∧
    ∀ list, parseShadows v = .ok list → ∃ id ∈ list.ids, checkShadow live c id ≠ none

/-- A list of shadows of the right type. -/
def IsShadowList (v : CJson) : Prop :=
  (∃ s, v = .string s) ∨ ∃ xs, v = .array xs ∧ ∀ x ∈ xs, ∃ s, x = .string s

/-- The ids of a text, each once. -/
def distinctIds (toks : List CString) : List CString :=
  toks.foldl (fun ids tok => if tok ∈ ids then ids else ids ++ [tok]) []

/-- The ids that a list of shadows names. -/
def namedIds (v : CJson) : List CString := distinctIds (tokens ((shadowText v).getD CString.empty))

/-- New settings leave the phantom's as they are when they are refused, and are
in effect when they are taken. -/
def Atomic (live : CString → Option ModuleInfo) (c : PhCtx) (json : CString) : Prop :=
  let (c', rc, _) := phPutSettings live c json
  (rc ≠ .ok → c'.shadows = c.shadows ∧ c'.pollS = c.pollS) ∧
    (rc = .ok → ∀ b, parse json = some b →
      (∀ v, givenPoll b = some v → c'.pollS = v) ∧
      ∀ v, getCase? (some b) "phantom.shadows" = some v → IsShadowList v →
        c'.shadows.ids.map CBuf.str = namedIds v)

/-- The condition: a refused list comes with the poll interval the phantom has,
and a list that is taken names no module past the buffer. -/
def AtomicWhen (live : CString → Option ModuleInfo) (c : PhCtx) (json : CString) : Prop :=
  ∀ b, parse json = some b → b.isObject = true →
    (ShadowsRefused live c b → ∀ v, givenPoll b = some v → v = c.pollS) ∧
      (¬ShadowsRefused live c b → ∀ v, getCase? (some b) "phantom.shadows" = some v →
        IsShadowList v → ∀ s, shadowText v = some s →
          distinctIds (tokens (shadowBuffer s)) = distinctIds (tokens s))

theorem addShadow_ids {list list' : ShadowList} {tok : CString} (h : addShadow list tok = .ok list') :
    list'.ids.map CBuf.str =
      if tok ∈ list.ids.map CBuf.str then list.ids.map CBuf.str
      else list.ids.map CBuf.str ++ [tok] := by
  unfold addShadow at h
  split at h
  case isTrue => simp at h
  case isFalse huuid =>
    have hlen : tok.length < 37 := by
      have h1 := not_not.mp huuid
      simp only [isUuid, Bool.and_eq_true, decide_eq_true_eq] at h1
      exact h1.1.2
    have hcopy : (CBuf.copy 37 tok).str = tok := CBuf.str_copy_of_lt hlen
    have hmem : CBuf.copy 37 tok ∈ list.ids ↔ tok ∈ list.ids.map CBuf.str := by
      constructor
      · intro hin
        exact List.mem_map.mpr ⟨_, hin, hcopy⟩
      · intro hin
        obtain ⟨id, hid, rfl⟩ := List.mem_map.mp hin
        rwa [CBuf.copy_str]
    split at h
    case isTrue hin =>
      cases h
      rw [if_pos (hmem.mp hin)]
    case isFalse hout =>
      rw [if_neg (mt hmem.mpr hout)]
      split at h
      case isTrue =>
        cases h
        simp only [List.map_append, List.map_cons, List.map_nil, hcopy]
      case isFalse => simp at h

theorem foldlM_addShadow_ids {toks : List CString} {list list' : ShadowList}
    (h : toks.foldlM addShadow list = .ok list') :
    list'.ids.map CBuf.str =
      toks.foldl (fun ids tok => if tok ∈ ids then ids else ids ++ [tok])
        (list.ids.map CBuf.str) := by
  induction toks generalizing list with
  | nil =>
    cases h
    rfl
  | cons tok toks ih =>
    rw [List.foldlM_cons] at h
    cases hadd : addShadow list tok with
    | error e => simp [hadd, bind, Except.bind] at h
    | ok next =>
      simp only [hadd, bind, Except.bind] at h
      rw [ih h, List.foldl_cons, addShadow_ids hadd]

/-- What `parse_shadows` takes is what the buffer names. -/
theorem parseShadows_ids {v : CJson} {s : CString} {list : ShadowList} (hs : shadowText v = some s)
    (h : parseShadows v = .ok list) :
    list.ids.map CBuf.str = distinctIds (tokens (shadowBuffer s)) := by
  unfold parseShadows at h
  rw [hs] at h
  exact foldlM_addShadow_ids h

/-- The interval a phantom has does not matter to the check of its shadows. -/
theorem checkShadow_pollS (live : CString → Option ModuleInfo) (c : PhCtx) (p : Double) :
    checkShadow live { c with pollS := p } = checkShadow live c := rfl

/-- New settings with a list that is refused: only the interval is taken. -/
theorem phPutSettings_of_refused {live : CString → Option ModuleInfo} {c : PhCtx} {json : CString}
    {b : CJson} (hb : (parse json).filter isObject = some b) (h : ShadowsRefused live c b) :
    (phPutSettings live c json).1 = { c with pollS := (givenPoll b).getD c.pollS } ∧
      (phPutSettings live c json).2.1 = .inval := by
  obtain ⟨v, hv, hlist⟩ := h
  unfold phPutSettings
  rw [hb]
  dsimp only
  rw [hv]
  dsimp only
  cases hparse : parseShadows v with
  | error e => exact ⟨rfl, rfl⟩
  | ok list =>
    obtain ⟨id, hid, hcheck⟩ := hlist list hparse
    dsimp only
    rw [checkShadow_pollS]
    cases hfind : list.ids.findSome? (checkShadow live c) with
    | some e => exact ⟨rfl, rfl⟩
    | none => exact absurd (List.findSome?_eq_none_iff.mp hfind id hid) hcheck

/-- New settings without a list that is refused are taken. -/
theorem phPutSettings_of_taken {live : CString → Option ModuleInfo} {c : PhCtx} {json : CString}
    {b : CJson} (hb : (parse json).filter isObject = some b) (h : ¬ShadowsRefused live c b) :
    (phPutSettings live c json).2.1 = .ok ∧
      (phPutSettings live c json).1.pollS = (givenPoll b).getD c.pollS ∧
      ∀ v, getCase? (some b) "phantom.shadows" = some v →
        parseShadows v = .ok (phPutSettings live c json).1.shadows := by
  unfold phPutSettings
  rw [hb]
  dsimp only
  cases hv : getCase? (some b) "phantom.shadows" with
  | none => exact ⟨rfl, rfl, by simp⟩
  | some v =>
    dsimp only
    cases hparse : parseShadows v with
    | error e => exact absurd ⟨v, hv, by simp [hparse]⟩ h
    | ok list =>
      dsimp only
      rw [checkShadow_pollS]
      cases hfind : list.ids.findSome? (checkShadow live c) with
      | some e =>
        obtain ⟨id, hid, hcheck⟩ := List.exists_of_findSome?_eq_some hfind
        refine absurd ⟨v, hv, fun list' h' => ?_⟩ h
        rw [hparse] at h'
        cases h'
        exact ⟨id, hid, by simp [hcheck]⟩
      | none =>
        refine ⟨rfl, rfl, fun w hw => ?_⟩
        obtain rfl := Option.some.inj hw
        exact hparse

theorem shadowText_of_list {v : CJson} (h : IsShadowList v) : ∃ s, shadowText v = some s := by
  rcases h with ⟨s, rfl⟩ | ⟨xs, rfl, -⟩
  · exact ⟨s, rfl⟩
  · exact ⟨_, rfl⟩

/-- A phantom's settings are atomic exactly under the condition. -/
theorem atomic_iff (live : CString → Option ModuleInfo) (c : PhCtx) (json : CString) :
    Atomic live c json ↔ AtomicWhen live c json := by
  unfold Atomic AtomicWhen
  dsimp only
  cases hobj : (parse json).filter isObject with
  | none =>
    have hput : phPutSettings live c json =
        (c, .inval, CString.lit "settings are not a JSON object") := by
      unfold phPutSettings
      rw [hobj]
    rw [hput]
    constructor
    · intro _ b hb hisObj
      rw [hb, Option.filter_some, if_pos hisObj] at hobj
      simp at hobj
    · intro _
      exact ⟨fun _ => ⟨rfl, rfl⟩, fun h => by simp at h⟩
  | some b =>
    obtain ⟨hb, hisObj⟩ := Option.filter_eq_some_iff.mp hobj
    have huniq (b' : CJson) (h : parse json = some b') : b' = b :=
      Option.some.inj (h.symm.trans hb)
    by_cases href : ShadowsRefused live c b
    · obtain ⟨hctx, hrc⟩ := phPutSettings_of_refused hobj href
      rw [hctx, hrc]
      constructor
      · rintro ⟨hkept, -⟩ b' hb' -
        obtain rfl := huniq b' hb'
        refine ⟨fun _ v hv => ?_, fun h => absurd href h⟩
        have hpoll := (hkept (by simp)).2
        simpa [hv] using hpoll
      · intro hwhen
        have hsame := (hwhen b hb hisObj).1 href
        refine ⟨fun _ => ⟨rfl, ?_⟩, fun h => by simp at h⟩
        cases hv : givenPoll b with
        | none => simp
        | some v => simpa using hsame v hv
    · obtain ⟨hrc, hpoll, hshadows⟩ := phPutSettings_of_taken hobj href
      rw [hrc]
      have hids {v : CJson} {s : CString} (hv : getCase? (some b) "phantom.shadows" = some v)
          (hs : shadowText v = some s) :
          (phPutSettings live c json).1.shadows.ids.map CBuf.str =
            distinctIds (tokens (shadowBuffer s)) := parseShadows_ids hs (hshadows v hv)
      constructor
      · rintro ⟨-, htaken⟩ b' hb' -
        obtain rfl := huniq b' hb'
        refine ⟨fun h => absurd h href, fun _ v hv hlist s hs => ?_⟩
        rw [← hids hv hs, (htaken rfl _ hb).2 v hv hlist, namedIds, hs, Option.getD_some]
      · intro hwhen
        refine ⟨fun h => absurd rfl h, fun _ b' hb' => ?_⟩
        obtain rfl := huniq b' hb'
        refine ⟨fun v hv => by rw [hpoll, hv, Option.getD_some], fun v hv hlist => ?_⟩
        obtain ⟨s, hs⟩ := shadowText_of_list hlist
        rw [hids hv hs, (hwhen _ hb hisObj).2 href v hv hlist s hs, namedIds, hs, Option.getD_some]

end MoonFlare.Phantom
