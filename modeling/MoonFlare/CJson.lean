import MoonFlare.DecimalText

/-!
# cJSON trees

The value tree of cJSON and the calls the program makes on it. Objects keep
their members in order and may repeat a key; a lookup returns the first
match, either exactly or up to ASCII case.
-/

namespace MoonFlare

/-- A cJSON item. -/
inductive CJson where
  | null
  | bool (b : Bool)
  | number (v : Double)
  | string (s : CString)
  | array (items : List CJson)
  | object (members : List (CString × CJson))

namespace CJson

instance : Inhabited CJson := ⟨null⟩

mutual

/-- Structural equality of items. -/
def beq : CJson → CJson → Bool
  | null, null => true
  | bool a, bool b => a == b
  | number a, number b => decide (a = b)
  | string a, string b => decide (a = b)
  | array a, array b => beqItems a b
  | object a, object b => beqMembers a b
  | _, _ => false

/-- Structural equality of array elements. -/
def beqItems : List CJson → List CJson → Bool
  | [], [] => true
  | a :: as, b :: bs => beq a b && beqItems as bs
  | _, _ => false

/-- Structural equality of object members. -/
def beqMembers : List (CString × CJson) → List (CString × CJson) → Bool
  | [], [] => true
  | (k, a) :: as, (l, b) :: bs => decide (k = l) && (beq a b && beqMembers as bs)
  | _, _ => false

end

mutual

theorem beq_iff : ∀ a b : CJson, beq a b = true ↔ a = b
  | null, b => by cases b <;> simp [beq]
  | bool a, b => by cases b <;> simp [beq]
  | number a, b => by cases b <;> simp [beq]
  | string a, b => by cases b <;> simp [beq]
  | array a, b => by cases b <;> simp [beq, beqItems_iff a]
  | object a, b => by cases b <;> simp [beq, beqMembers_iff a]

theorem beqItems_iff : ∀ a b : List CJson, beqItems a b = true ↔ a = b
  | [], b => by cases b <;> simp [beqItems]
  | x :: xs, b => by cases b <;> simp [beqItems, beq_iff x, beqItems_iff xs]

theorem beqMembers_iff : ∀ a b : List (CString × CJson), beqMembers a b = true ↔ a = b
  | [], b => by cases b <;> simp [beqMembers]
  | (k, x) :: xs, b => by
    rcases b with _ | ⟨⟨l, y⟩, ys⟩
    · simp [beqMembers]
    · simp [beqMembers, beq_iff x, beqMembers_iff xs, and_assoc]

end

instance : DecidableEq CJson := fun a b => decidable_of_iff (beq a b = true) (beq_iff a b)

/-- The members of an object; other items have none. -/
def members : CJson → List (CString × CJson)
  | object ms => ms
  | _ => []

/-- The elements of an array; other items have none. -/
def items : CJson → List CJson
  | array xs => xs
  | _ => []

/-- `cJSON_IsString`, with the text. -/
def string? : CJson → Option CString
  | string s => some s
  | _ => none

/-- `cJSON_IsNumber`, with `valuedouble`. -/
def number? : CJson → Option Double
  | number v => some v
  | _ => none

/-- `cJSON_IsBool`, with the value. -/
def bool? : CJson → Option Bool
  | bool b => some b
  | _ => none

/-- `cJSON_IsObject`. -/
def isObject : CJson → Bool
  | object _ => true
  | _ => false

/-- `cJSON_IsArray`. -/
def isArray : CJson → Bool
  | array _ => true
  | _ => false

/-- The first member with exactly this key. -/
def lookup (k : CString) (ms : List (CString × CJson)) : Option CJson :=
  (ms.find? fun m => m.1 = k).map Prod.snd

/-- `cJSON_GetObjectItemCaseSensitive`. -/
def getCase (j : CJson) (k : CString) : Option CJson := lookup k j.members

/-- `cJSON_GetObjectItem`: the first key that matches up to case. -/
def get (j : CJson) (k : CString) : Option CJson :=
  (j.members.find? fun m => k.eqNoCase m.1).map Prod.snd

/-- `cJSON_AddItemToObject`: the member goes to the end. -/
def add (j : CJson) (k : CString) (v : CJson) : CJson :=
  match j with
  | object ms => object (ms ++ [(k, v)])
  | j => j

/-- `cJSON_DeleteItemFromObjectCaseSensitive`: the first match goes. -/
def deleteCase (j : CJson) (k : CString) : CJson :=
  match j with
  | object ms => object (ms.eraseP fun m => m.1 = k)
  | j => j

/-- Change the value of the first member with this key, in place. -/
def modifyFirst (k : CString) (f : CJson → CJson) :
    List (CString × CJson) → List (CString × CJson)
  | [] => []
  | (l, v) :: ms => if l = k then (l, f v) :: ms else (l, v) :: modifyFirst k f ms

/-- Change the item a case-sensitive lookup returns, in place. -/
def modifyCase (j : CJson) (k : CString) (f : CJson → CJson) : CJson :=
  match j with
  | object ms => object (modifyFirst k f ms)
  | j => j

/-- `cJSON_AddStringToObject`. -/
def addString (j : CJson) (k : String) (s : CString) : CJson := j.add (CString.lit k) (string s)

/-- `cJSON_AddNumberToObject`. -/
def addNumber (j : CJson) (k : String) (v : Double) : CJson := j.add (CString.lit k) (number v)

/-- `cJSON_AddBoolToObject`. -/
def addBool (j : CJson) (k : String) (b : Bool) : CJson := j.add (CString.lit k) (bool b)

@[simp] theorem members_object (ms : List (CString × CJson)) : (object ms).members = ms := rfl

@[simp] theorem lookup_nil (k : CString) : lookup k [] = none := rfl

theorem lookup_cons (k l : CString) (v : CJson) (ms : List (CString × CJson)) :
    lookup k ((l, v) :: ms) = if l = k then some v else lookup k ms := by
  by_cases h : l = k <;> simp [lookup, h]

@[simp] theorem lookup_cons_self (k : CString) (v : CJson) (ms : List (CString × CJson)) :
    lookup k ((k, v) :: ms) = some v := by
  simp [lookup_cons]

theorem lookup_append (k : CString) (ms ns : List (CString × CJson)) :
    lookup k (ms ++ ns) = (lookup k ms).or (lookup k ns) := by
  induction ms with
  | nil => simp
  | cons m ms ih =>
    obtain ⟨l, v⟩ := m
    rw [List.cons_append, lookup_cons, lookup_cons, ih]
    split <;> simp

theorem lookup_eq_none_iff {k : CString} {ms : List (CString × CJson)} :
    lookup k ms = none ↔ ∀ m ∈ ms, m.1 ≠ k := by
  simp [lookup]

theorem mem_of_lookup {k : CString} {v : CJson} {ms : List (CString × CJson)}
    (h : lookup k ms = some v) : (k, v) ∈ ms := by
  induction ms with
  | nil => simp at h
  | cons m ms ih =>
    obtain ⟨l, w⟩ := m
    rw [lookup_cons] at h
    split at h
    · rename_i hl
      cases h
      simp [hl]
    · exact List.mem_cons_of_mem _ (ih h)

end CJson

end MoonFlare
