import MoonFlare.Plugin

/-!
# Secret, action and read-only plugin fields

A plugin's description says for each of its keys what type of field it is. The
REST interface shows masks in place of secrets, leaves buttons and shown values
out of what it accepts, and puts live secrets back where a mask returned.
-/

namespace MoonFlare

open CJson

namespace Secrets

/-- `field`: the first field with this key. -/
def field (fields : List CJson) (key : CString) : Option CJson :=
  fields.find? fun f => decide ((getCase? (some f) "key").bind string? = some key)

/-- `type_is`. -/
def typeIs (f : Option CJson) (type : String) : Bool :=
  decide ((getCase? f "type").bind string? = some (CString.lit type))

/-- `mf_field_is_secret`. -/
def mfFieldIsSecret (fields : List CJson) (key : CString) : Bool :=
  typeIs (field fields key) "secret"

/-- `mf_field_not_setting`. -/
def mfFieldNotSetting (fields : List CJson) (key : CString) : Bool :=
  typeIs (field fields key) "action" ||
    decide (getCase? (field fields key) "readonly" = some (.bool true))

/-- `MF_SECRET_MASK`. -/
def mfSecretMaskText : CString := CString.lit "********"

/-- `mf_secret_is_mask`. -/
def mfSecretIsMask (value : CString) : Bool := value.startsWith mfSecretMaskText

/-- `mf_secret_mask`, into a buffer of 32 bytes: the last four characters of
a long secret stay. -/
def mfSecretMask (value : CString) : CBuf 32 :=
  if ¬value.nonempty then CBuf.zero 32
  else if mfSecretIsMask value then CBuf.copy 32 value
  else if 12 ≤ value.length then
    CBuf.copy 32 (mfSecretMaskText ++ value.drop (value.length - 4))
  else CBuf.copy 32 mfSecretMaskText

/-- `mask_item`. -/
def maskItem : CJson → CJson
  | .string s => .string (mfSecretMask s).str
  | j => j

/-- `mf_secret_mask_settings`, on the members. -/
def mfSecretMaskSettings (fields : List CJson) : CJson → CJson
  | .object ms =>
    .object (ms.map fun m => if mfFieldIsSecret fields m.1 then (m.1, maskItem m.2) else m)
  | j => j

/-- Whether `mf_secret_clean_body` takes a member out. -/
def cleaned (fields : List CJson) (m : CString × CJson) : Bool :=
  mfFieldNotSetting fields m.1 ||
    (mfFieldIsSecret fields m.1 && m.2.string?.any mfSecretIsMask)

/-- `mf_secret_clean_body`: for each member to take out, the first one of its
key goes. -/
def mfSecretCleanBody (body : CJson) (fields : List CJson) : CJson :=
  body.members.foldl (fun j m => if cleaned fields m then j.deleteCase m.1 else j) body

/-- `split`: the namespace and the leaf of a dotted key. -/
def split (key : CString) : Option (CString × CString) :=
  (key.splitAt 46).filter fun p => p.1.nonempty && p.2.nonempty && decide (p.1.length < 32)

/-- The namespace and leaf of a field that `mf_secret_mask_module` and
`mf_secret_restore_extra` look at. -/
def secretLeaf (f : CJson) : Option (CString × CString) :=
  if typeIs (some f) "secret" then ((getCase? (some f) "key").bind string?).bind split else none

/-- `mf_secret_mask_module`. -/
def mfSecretMaskModule (module : CJson) (fields : List CJson) : CJson :=
  fields.foldl (fun j f =>
    match secretLeaf f with
    | none => j
    | some (ns, leaf) => j.modifyCase ns fun block => block.modifyCase leaf maskItem) module

/-- Whether a restored block keeps the value that came back. -/
def isNewValue : Option CJson → Bool
  | none => false
  | some .null => false
  | some (.string s) => !mfSecretIsMask s
  | some _ => true

/-- One live secret goes back into the block of its namespace. -/
def restoreBlock (leaf value : CString) (block : CJson) : CJson :=
  if block.isObject then
    if isNewValue (block.getCase leaf) then block
    else (block.deleteCase leaf).add leaf (.string value)
  else block

/-- The loop of `mf_secret_restore_extra` for one field. -/
def restoreField (live next : CJson) (f : CJson) : CJson :=
  match secretLeaf f with
  | none => next
  | some (ns, leaf) =>
    match ((live.getCase ns).bind fun block => block.getCase leaf).bind string? with
    | none => next
    | some value =>
      if value.nonempty then
        let next := if (next.getCase ns).isSome then next else next.add ns (.object [])
        next.modifyCase ns (restoreBlock leaf value)
      else next

/-- `cJSON_Parse` of an `extra_json`, which stands for `{}` when it is
empty. -/
def parseExtra (extra : CString) : Option CJson :=
  parse (if extra.nonempty then extra else CString.lit "\x7b\x7d")

/-- `mf_secret_restore_extra`: the text, unless it does not fit. -/
def mfSecretRestoreExtra (nextExtra liveExtra : CString) (fields : List CJson) :
    Option (CBuf 1024) :=
  match parseExtra nextExtra, parseExtra liveExtra with
  | some next, some live =>
    if next.isObject ∧ live.isObject then
      let s := printText (fields.foldl (restoreField live) next)
      if h : s.length < 1024 then some ⟨s, h⟩ else none
    else none
  | _, _ => none

end Secrets

end MoonFlare
