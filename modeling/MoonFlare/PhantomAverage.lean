import MoonFlare.CString

/-!
# The average a phantom reports

A phantom's reading is made from the readings of the modules it shadows:
`avg_node` goes down the first of them and averages what all of them have at
the same place. Numbers are exact here, so a reading is a tree of its own. The
recursion ends because every document handed down is a part of one at hand.
-/

namespace MoonFlare.Phantom

/-- A module's reading, its numbers exact. Objects may repeat a key. -/
inductive Reading where
  | null
  | bool (b : Bool)
  | number (v : ℚ)
  | string (s : CString)
  | array (items : List Reading)
  | object (members : List (CString × Reading))

namespace Reading

/-- `cJSON_IsNull`. -/
def isNull : Reading → Bool
  | null => true
  | _ => false

/-- `cJSON_IsNumber`, with its value. -/
def number? : Reading → Option ℚ
  | number v => some v
  | _ => none

/-- Two items of one cJSON type; true and false are types of their own. -/
def sameType : Reading → Reading → Bool
  | null, null => true
  | bool a, bool b => a == b
  | number _, number _ => true
  | string _, string _ => true
  | array _, array _ => true
  | object _, object _ => true
  | _, _ => false

/-- `cJSON_GetObjectItemCaseSensitive`: the first member with the key. -/
def getCase (v : Reading) (k : CString) : Option Reading :=
  match v with
  | object members => (members.find? fun m => m.1 = k).map Prod.snd
  | _ => none

/-- `cJSON_GetArrayItem` of an array. -/
def getItem (v : Reading) (k : ℕ) : Option Reading :=
  match v with
  | array items => items[k]?
  | _ => none

end Reading

open Reading

/-! ## The documents handed down -/

/-- The first document that is not null; null when all are. -/
def firstOf : List Reading → Reading
  | [] => null
  | null :: rest => firstOf rest
  | v :: _ => v

/-- A part is handed down when it is the first, has the type of the first
document's part, or the first one handed down is null. -/
def push (it : Reading) (sub : List Reading) : Option Reading → List Reading
  | none => sub
  | some c =>
    match sub with
    | [] => [c]
    | s :: rest => if c.sameType it || s.isNull then s :: rest ++ [c] else s :: rest

/-- The parts of all documents at one place, as they are handed down. -/
def collect (it : Reading) (get : Reading → Option Reading) (nodes : List Reading) :
    List Reading :=
  nodes.foldl (fun sub v => push it sub (get v)) []

/-- A member is smaller than its object. -/
theorem sizeOf_getCase {v c : Reading} {k : CString} (h : v.getCase k = some c) :
    sizeOf c < sizeOf v := by
  cases v with
  | object members =>
    obtain ⟨⟨l, c⟩, hm, rfl⟩ := Option.map_eq_some_iff.mp h
    have hlt := List.sizeOf_lt_of_mem (List.mem_of_find?_eq_some hm)
    simp only [object.sizeOf_spec, Prod.mk.sizeOf_spec] at hlt ⊢
    omega
  | _ => cases h

/-- An element is smaller than its array. -/
theorem sizeOf_getItem {v c : Reading} {k : ℕ} (h : v.getItem k = some c) :
    sizeOf c < sizeOf v := by
  cases v with
  | array items =>
    have hlt := List.sizeOf_lt_of_mem (List.mem_of_getElem? h)
    simp only [array.sizeOf_spec]
    omega
  | _ => cases h

/-- The size of all documents at hand. -/
noncomputable def totalSize (nodes : List Reading) : ℕ := (nodes.map sizeOf).sum

/-- A part handed down adds no more than its size. -/
theorem totalSize_push (it : Reading) (sub : List Reading) (c : Reading) :
    totalSize (push it sub (some c)) ≤ totalSize sub + sizeOf c := by
  cases sub with
  | nil => simp [push, totalSize]
  | cons s rest =>
    simp only [push]
    split_ifs
    · simp only [totalSize, List.cons_append, List.map_cons, List.map_append, List.map_nil,
        List.sum_cons, List.sum_append, List.sum_nil]
      omega
    · exact Nat.le_add_right _ _

/-- The parts handed down are smaller together than the documents they are of. -/
theorem totalSize_collect {get : Reading → Option Reading}
    (hget : ∀ v c, get v = some c → sizeOf c < sizeOf v) (it : Reading) {nodes : List Reading}
    (hne : nodes ≠ []) : totalSize (collect it get nodes) < totalSize nodes := by
  have hfold : ∀ nodes sub : List Reading,
      totalSize (nodes.foldl (fun sub v => push it sub (get v)) sub) + nodes.length ≤
        totalSize sub + totalSize nodes := by
    intro nodes
    induction nodes with
    | nil => exact fun sub => le_rfl
    | cons v nodes ih =>
      intro sub
      have hrest := ih (push it sub (get v))
      have htotal : totalSize (v :: nodes) = sizeOf v + totalSize nodes := by
        simp [totalSize]
      have hpos : 0 < sizeOf v := by cases v <;> simp
      rw [List.foldl_cons, List.length_cons, htotal]
      cases hc : get v with
      | none =>
        rw [hc] at hrest
        simp only [push] at hrest ⊢
        omega
      | some c =>
        rw [hc] at hrest
        have hlt := hget v c hc
        have hpush := totalSize_push it sub c
        omega
  have hall := hfold nodes []
  have hlen : 0 < nodes.length := List.length_pos_iff.mpr hne
  have hnil : totalSize [] = 0 := rfl
  unfold collect
  omega

/-- Where some document is not null, there is one. -/
theorem ne_nil_of_firstOf {nodes : List Reading} (h : firstOf nodes ≠ null) : nodes ≠ [] := by
  rintro rfl
  exact h rfl

/-! ## The average -/

/-- C `round`: to the nearest whole number, halves away from zero. -/
def cRound (x : ℚ) : ℚ := if 0 ≤ x then ⌊x + 1 / 2⌋ else ⌈x - 1 / 2⌉

/-- A number rounded to four decimals. -/
def round4 (x : ℚ) : ℚ := cRound (x * 10000) / 10000

/-- The sum of some numbers over their count. -/
def mean (xs : List ℚ) : ℚ := xs.sum / xs.length

/-- `avg_node`. -/
def avgNode (nodes : List Reading) : Reading :=
  match _h : firstOf nodes with
  | number _ => number (round4 (mean (nodes.filterMap number?)))
  | object members =>
    object (members.map fun m => (m.1, avgNode (collect m.2 (·.getCase m.1) nodes)))
  | array items => array (items.mapIdx fun k it => avgNode (collect it (·.getItem k) nodes))
  | v => v
termination_by totalSize nodes
decreasing_by
  · exact totalSize_collect (fun _ _ => sizeOf_getCase) _ (ne_nil_of_firstOf (by simp [*]))
  · exact totalSize_collect (fun _ _ => sizeOf_getItem) _ (ne_nil_of_firstOf (by simp [*]))

/-- `MAX_READINGS`. -/
def maxReadings : ℕ := 32

/-- `mf_phantom_average`. -/
def mfPhantomAverage (readings : List Reading) : Option Reading :=
  if readings = [] then none else some (avgNode (readings.take maxReadings))

end MoonFlare.Phantom
