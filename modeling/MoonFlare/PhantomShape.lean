import MoonFlare.PhantomAverage

/-!
# The average has the shape of the readings

A place in a reading is a path of keys and indices. At every place the average
is the average of what the readings have there, so its leaves follow from one
unfolding of the recursion. Readings have one shape when no place holds two
different kinds of items, nulls apart.
-/

namespace MoonFlare.Phantom

open Reading

/-! ## Places -/

/-- One step down a reading. -/
inductive Step where
  /-- The member with a key. -/
  | key (k : CString)
  /-- The element at an index. -/
  | index (i : ℕ)

/-- What a step leads to. -/
def Reading.child (v : Reading) : Step → Option Reading
  | .key k => v.getCase k
  | .index i => v.getItem i

/-- What a reading has at a place. -/
def Reading.get? (v : Reading) : List Step → Option Reading
  | [] => some v
  | s :: p => (v.child s).bind fun c => c.get? p

/-- What some readings have at a place, in their order. -/
def valuesAt (p : List Step) (nodes : List Reading) : List Reading := nodes.filterMap (·.get? p)

/-- What some readings have one step down. -/
def column (s : Step) (nodes : List Reading) : List Reading := nodes.filterMap (·.child s)

/-- A path is followed a step at a time. -/
theorem valuesAt_cons (s : Step) (p : List Step) (nodes : List Reading) :
    valuesAt (s :: p) nodes = valuesAt p (column s nodes) := by
  unfold valuesAt column
  rw [List.filterMap_filterMap]
  rfl

/-- At the root the readings stand themselves. -/
theorem valuesAt_nil (nodes : List Reading) : valuesAt [] nodes = nodes := List.filterMap_some

/-- What an item is: a leaf of a type, an array of a length or an object with its keys. -/
inductive Kind where
  | null
  | bool
  | number
  | string
  | array (length : ℕ)
  | object (keys : Multiset CString)

/-- The kind of an item. -/
def Reading.kind : Reading → Kind
  | null => .null
  | bool _ => .bool
  | number _ => .number
  | string _ => .string
  | array items => .array items.length
  | object members => .object (members.map Prod.fst)

/-- Two readings of one shape: where both have an item that is not null, the
two are of one kind. -/
def SameShape (r r' : Reading) : Prop :=
  ∀ p v v', r.get? p = some v → r'.get? p = some v' → v.kind ≠ .null → v'.kind ≠ .null →
    v.kind = v'.kind

/-- No object of the reading names a key twice. -/
def DistinctKeys (r : Reading) : Prop :=
  ∀ p members, r.get? p = some (object members) → (members.map Prod.fst).Nodup

/-- What holds of the documents handed down: one shape, and no key twice. -/
structure Alike (nodes : List Reading) : Prop where
  /-- All of one shape. -/
  shape : ∀ v ∈ nodes, ∀ w ∈ nodes, SameShape v w
  /-- No key twice. -/
  keys : ∀ v ∈ nodes, DistinctKeys v

/-- Parts of readings that are alike are alike. -/
theorem alike_column {nodes : List Reading} (h : Alike nodes) (s : Step) :
    Alike (column s nodes) where
  shape := by
    intro v hv w hw p x y hx hy
    obtain ⟨a, ha, hav⟩ := List.mem_filterMap.mp hv
    obtain ⟨b, hb, hbw⟩ := List.mem_filterMap.mp hw
    have hxa : a.get? (s :: p) = some x := by rw [get?, hav, Option.bind_some, hx]
    have hyb : b.get? (s :: p) = some y := by rw [get?, hbw, Option.bind_some, hy]
    exact h.shape a ha b hb (s :: p) x y hxa hyb
  keys := by
    intro v hv p members hp
    obtain ⟨a, ha, hav⟩ := List.mem_filterMap.mp hv
    have hpa : a.get? (s :: p) = some (object members) := by rw [get?, hav, Option.bind_some, hp]
    exact h.keys a ha (s :: p) members hpa

/-- Fewer documents that are alike are alike. -/
theorem Alike.subset {nodes few : List Reading} (h : Alike nodes) (hsub : few ⊆ nodes) :
    Alike few where
  shape v hv w hw := h.shape v (hsub hv) w (hsub hw)
  keys v hv := h.keys v (hsub hv)

/-- Items of documents that are alike are of one kind unless one is null. -/
theorem Alike.kind_eq {nodes : List Reading} (h : Alike nodes) {v w : Reading} (hv : v ∈ nodes)
    (hw : w ∈ nodes) (hvn : v.kind ≠ .null) (hwn : w.kind ≠ .null) : v.kind = w.kind :=
  h.shape v hv w hw [] v w rfl rfl hvn hwn

/-! ## Nulls among the documents -/

/-- The kind of null is no other's. -/
theorem kind_eq_null {v : Reading} : v.kind = .null ↔ v = null := by
  cases v <;> simp [kind]

/-- The first document that is not null is the first but for the nulls. -/
theorem firstOf_filter (nodes : List Reading) :
    firstOf (nodes.filter fun v => !v.isNull) = firstOf nodes := by
  induction nodes with
  | nil => rfl
  | cons v nodes ih =>
    cases v with
    | null => exact ih
    | _ => rfl

/-- It is one of the documents. -/
theorem firstOf_mem {nodes : List Reading} (h : firstOf nodes ≠ null) : firstOf nodes ∈ nodes := by
  induction nodes with
  | nil => exact absurd rfl h
  | cons v nodes ih =>
    cases v with
    | null => exact List.mem_cons_of_mem _ (ih h)
    | _ => exact List.mem_cons_self

/-- There is none only when all are null. -/
theorem eq_null_of_firstOf {nodes : List Reading} (h : firstOf nodes = null) {v : Reading}
    (hv : v ∈ nodes) : v = null := by
  induction nodes with
  | nil => cases hv
  | cons w nodes ih =>
    cases w with
    | null =>
      rcases List.mem_cons.mp hv with rfl | hv
      · rfl
      · exact ih h hv
    | _ => cases h

/-- A null has no part to hand down. -/
theorem collect_filter {get : Reading → Option Reading} (hnull : get null = none) (it : Reading)
    (nodes : List Reading) :
    collect it get (nodes.filter fun v => !v.isNull) = collect it get nodes := by
  unfold collect
  generalize ([] : List Reading) = sub
  induction nodes generalizing sub with
  | nil => rfl
  | cons v nodes ih =>
    cases v with
    | null =>
      rw [List.foldl_cons, hnull]
      exact ih sub
    | _ => exact ih _

/-- Nulls do not take part in an average. -/
theorem avgNode_filter (nodes : List Reading) :
    avgNode (nodes.filter fun v => !v.isNull) = avgNode nodes := by
  have hnumbers : (nodes.filter fun v => !v.isNull).filterMap number? =
      nodes.filterMap number? := by
    rw [List.filterMap_filter]
    congr 1
    funext v
    cases v <;> rfl
  have hkey : ∀ it k, collect it (·.getCase k) (nodes.filter fun v => !v.isNull) =
      collect it (·.getCase k) nodes := fun it k => collect_filter rfl it nodes
  have hindex : ∀ it k, collect it (·.getItem k) (nodes.filter fun v => !v.isNull) =
      collect it (·.getItem k) nodes := fun it k => collect_filter rfl it nodes
  rw [avgNode, avgNode, firstOf_filter, hnumbers]
  simp only [hkey, hindex]

/-! ## One step down the average -/

/-- The first document with a part hands it down. -/
theorem column_of_firstOf {nodes : List Reading} {s : Step} {c : Reading}
    (h : (firstOf nodes).child s = some c) : ∃ rest, column s nodes = c :: rest := by
  induction nodes with
  | nil => cases s <;> cases h
  | cons v nodes ih =>
    cases v with
    | null =>
      have hnull : null.child s = none := by cases s <;> rfl
      obtain ⟨rest, hrest⟩ := ih h
      refine ⟨rest, ?_⟩
      rw [column, List.filterMap_cons, hnull]
      exact hrest
    | _ => exact ⟨_, List.filterMap_cons_some h⟩

/-- Only the documents with a part count for what is handed down. -/
theorem collect_eq_foldl (it : Reading) (get : Reading → Option Reading) (nodes : List Reading) :
    collect it get nodes =
      (nodes.filterMap get).foldl (fun sub v => push it sub (some v)) [] := by
  unfold collect
  generalize ([] : List Reading) = sub
  induction nodes generalizing sub with
  | nil => rfl
  | cons v nodes ih =>
    rw [List.foldl_cons, List.filterMap_cons]
    cases get v with
    | none => exact ih sub
    | some w => exact ih _

/-- After the first part, those of the first document's type are handed down,
or all when the first is null. -/
theorem collect_of_cons {get : Reading → Option Reading} {it c : Reading}
    {rest nodes : List Reading} (h : nodes.filterMap get = c :: rest) :
    collect it get nodes = c :: rest.filter fun v => v.sameType it || c.isNull := by
  have hfold : ∀ rest few : List Reading,
      rest.foldl (fun sub v => push it sub (some v)) (c :: few) =
        c :: few ++ rest.filter fun v => v.sameType it || c.isNull := by
    intro rest
    induction rest with
    | nil => exact fun few => (List.append_nil _).symm
    | cons v rest ih =>
      intro few
      rw [List.foldl_cons, List.filter_cons, push]
      split_ifs
      · rw [List.cons_append, ih, List.cons_append, List.cons_append, List.append_assoc]
        rfl
      · exact ih few
  rw [collect_eq_foldl, h, List.foldl_cons]
  exact hfold rest []

/-- The average of documents whose first is a number. -/
theorem avgNode_number {nodes : List Reading} {x : ℚ} (h : firstOf nodes = number x) :
    avgNode nodes = number (round4 (mean (nodes.filterMap number?))) := by
  rw [avgNode]
  split <;> simp_all

/-- The average of documents whose first is an object. -/
theorem avgNode_object {nodes : List Reading} {members : List (CString × Reading)}
    (h : firstOf nodes = object members) :
    avgNode nodes =
      object (members.map fun m => (m.1, avgNode (collect m.2 (·.getCase m.1) nodes))) := by
  rw [avgNode]
  split <;> simp_all

/-- The average of documents whose first is an array. -/
theorem avgNode_array {nodes items : List Reading} (h : firstOf nodes = array items) :
    avgNode nodes =
      array (items.mapIdx fun k it => avgNode (collect it (·.getItem k) nodes)) := by
  rw [avgNode]
  split <;> simp_all

/-- Any other first document is the average. -/
theorem avgNode_string {nodes : List Reading} {t : CString} (h : firstOf nodes = string t) :
    avgNode nodes = string t := by
  rw [avgNode]
  split <;> simp_all

theorem avgNode_bool {nodes : List Reading} {b : Bool} (h : firstOf nodes = bool b) :
    avgNode nodes = bool b := by
  rw [avgNode]
  split <;> simp_all

theorem avgNode_null {nodes : List Reading} (h : firstOf nodes = null) : avgNode nodes = null := by
  rw [avgNode]
  split <;> simp_all

/-- The average is of the kind of the first document that is not null. -/
theorem kind_avgNode (nodes : List Reading) : (avgNode nodes).kind = (firstOf nodes).kind := by
  cases h : firstOf nodes with
  | null => rw [avgNode_null h]
  | bool b => rw [avgNode_bool h]
  | number x =>
    rw [avgNode_number h]
    rfl
  | string t => rw [avgNode_string h]
  | array items =>
    rw [avgNode_array h, kind, kind, List.length_mapIdx]
  | object members =>
    rw [avgNode_object h, kind, kind, List.map_map]
    rfl

/-- Among documents that are alike those of the first one's type are those that
are not null, booleans apart. -/
theorem sameType_eq {c v : Reading} {rest : List Reading} (h : Alike (c :: rest)) (hv : v ∈ rest)
    (hnull : c ≠ null) (hbool : c.kind ≠ .bool) : v.sameType c = !v.isNull := by
  cases v with
  | null => cases c <;> simp_all [sameType, isNull]
  | _ =>
    have hkind := h.kind_eq (List.mem_cons_of_mem c hv) List.mem_cons_self
      (by simp [kind]) (kind_eq_null.not.mpr hnull)
    cases c <;> simp_all [sameType, isNull, kind]

/-- Of parts that are alike, what is handed down has the average of all. -/
theorem avgNode_collect {s : Step} {c : Reading} {rest nodes : List Reading} (h : Alike nodes)
    (hcolumn : column s nodes = c :: rest) :
    avgNode (collect c (·.child s) nodes) = avgNode (column s nodes) := by
  have halike : Alike (c :: rest) := hcolumn ▸ alike_column h s
  rw [collect_of_cons hcolumn, hcolumn]
  by_cases hnull : c = null
  · -- the first part is null, so every part is handed down
    have hall : rest.filter (fun v => v.sameType c || c.isNull) = rest := by
      refine List.filter_eq_self.mpr fun v _ => ?_
      rw [hnull, isNull, Bool.or_true]
    rw [hall]
  · by_cases hbool : c.kind = .bool
    · -- booleans are of two types, but the first one is the average
      cases c with
      | bool b => rw [avgNode_bool rfl, avgNode_bool rfl]
      | _ => cases hbool
    · have hc : c.isNull = false := by cases c <;> simp_all [isNull]
      have hparts : rest.filter (fun v => v.sameType c || c.isNull) =
          rest.filter fun v => !v.isNull := by
        refine List.filter_congr fun v hv => ?_
        rw [sameType_eq halike hv hnull hbool, hc, Bool.or_false]
      have hkept : c :: rest.filter (fun v => !v.isNull) =
          (c :: rest).filter fun v => !v.isNull := by
        rw [List.filter_cons, if_pos (by rw [hc]; rfl)]
      rw [hparts, hkept, avgNode_filter]

/-- What an item of some kind has a part for. -/
def Kind.Has : Kind → Step → Prop
  | .object keys, .key k => k ∈ keys
  | .array length, .index i => i < length
  | _, _ => False

/-- Its kind says where an item has parts. -/
theorem child_isSome_iff (v : Reading) (s : Step) : (v.child s).isSome = true ↔ v.kind.Has s := by
  cases v with
  | object members =>
    cases s with
    | key k =>
      simp [child, getCase, kind, Kind.Has, List.find?_isSome]
    | index i => simp [child, getItem, kind, Kind.Has]
  | array items =>
    cases s with
    | key k => simp [child, getCase, kind, Kind.Has]
    | index i => simp [child, getItem, kind, Kind.Has]
  | _ => cases s <;> simp [child, getItem, getCase, kind, Kind.Has]

/-- Documents that are alike have parts where the first that is not null has one. -/
theorem column_ne_nil_iff {nodes : List Reading} (h : Alike nodes) (s : Step) :
    column s nodes ≠ [] ↔ ((firstOf nodes).child s).isSome = true := by
  constructor
  · intro hne
    obtain ⟨c, hc⟩ := List.exists_mem_of_ne_nil _ hne
    obtain ⟨v, hv, hvc⟩ := List.mem_filterMap.mp hc
    have hpart : (v.child s).isSome = true := by rw [hvc]; rfl
    have hvn : v.kind ≠ .null := by
      intro hnull
      rw [kind_eq_null.mp hnull] at hpart
      cases s <;> cases hpart
    have hfirst : firstOf nodes ≠ null := by
      intro hnull
      exact hvn (kind_eq_null.mpr (eq_null_of_firstOf hnull hv))
    have hkind := h.kind_eq hv (firstOf_mem hfirst) hvn (kind_eq_null.not.mpr hfirst)
    rw [child_isSome_iff, ← hkind, ← child_isSome_iff, hpart]
  · intro hsome
    obtain ⟨c, hc⟩ := Option.isSome_iff_exists.mp hsome
    obtain ⟨rest, hrest⟩ := column_of_firstOf hc
    rw [hrest]
    exact List.cons_ne_nil c rest

/-- With no key twice, a member is what a lookup of its key finds. -/
theorem getCase_of_mem {members : List (CString × Reading)} (h : (members.map Prod.fst).Nodup)
    {m : CString × Reading} (hm : m ∈ members) : (object members).getCase m.1 = some m.2 := by
  induction members with
  | nil => cases hm
  | cons l members ih =>
    rw [List.map_cons, List.nodup_cons] at h
    rcases List.mem_cons.mp hm with rfl | hm
    · simp [getCase]
    · have hne : l.1 ≠ m.1 := fun he => h.1 (he ▸ List.mem_map_of_mem hm)
      have hrest := ih h.2 hm
      simp only [getCase] at hrest ⊢
      rw [List.find?_cons_of_neg (by simpa using hne), hrest]

/-- A part of the average is the average of the parts. -/
theorem child_avgNode {nodes : List Reading} (h : Alike nodes) {s : Step} {c : Reading}
    (hc : (avgNode nodes).child s = some c) : c = avgNode (column s nodes) := by
  cases hfirst : firstOf nodes with
  | object members =>
    have hmem : object members ∈ nodes := hfirst ▸ firstOf_mem (by rw [hfirst]; simp)
    have hnodup : (members.map Prod.fst).Nodup := h.keys _ hmem [] members rfl
    rw [avgNode_object hfirst] at hc
    cases s with
    | index i => cases hc
    | key k =>
      simp only [child, getCase, List.find?_map, Option.map_map] at hc
      obtain ⟨m, hm, rfl⟩ := Option.map_eq_some_iff.mp hc
      have hkey : m.1 = k := by simpa using List.find?_some hm
      have hpart : (firstOf nodes).child (.key k) = some m.2 := by
        rw [hfirst, ← hkey]
        exact getCase_of_mem hnodup (List.mem_of_find?_eq_some hm)
      obtain ⟨rest, hrest⟩ := column_of_firstOf hpart
      rw [← avgNode_collect h hrest, ← hkey]
      rfl
  | array items =>
    rw [avgNode_array hfirst] at hc
    cases s with
    | key k => cases hc
    | index i =>
      simp only [child, getItem, List.getElem?_mapIdx] at hc
      obtain ⟨it, hit, rfl⟩ := Option.map_eq_some_iff.mp hc
      have hpart : (firstOf nodes).child (.index i) = some it := by
        rw [hfirst]
        exact hit
      obtain ⟨rest, hrest⟩ := column_of_firstOf hpart
      rw [← avgNode_collect h hrest]
      rfl
  | null =>
    rw [avgNode_null hfirst] at hc
    cases s <;> cases hc
  | bool b =>
    rw [avgNode_bool hfirst] at hc
    cases s <;> cases hc
  | number x =>
    rw [avgNode_number hfirst] at hc
    cases s <;> cases hc
  | string t =>
    rw [avgNode_string hfirst] at hc
    cases s <;> cases hc

/-- The average has a part where some document has one. -/
theorem child_avgNode_isSome {nodes : List Reading} (h : Alike nodes) (s : Step) :
    ((avgNode nodes).child s).isSome = true ↔ column s nodes ≠ [] := by
  rw [child_isSome_iff, kind_avgNode, ← child_isSome_iff, ← column_ne_nil_iff h]

/-! ## Any place in the average -/

/-- At every place some reading has, the average is that of what the readings have there. -/
theorem get?_avgNode {nodes : List Reading} (h : Alike nodes) (hne : nodes ≠ []) (p : List Step) :
    (avgNode nodes).get? p =
      if valuesAt p nodes = [] then none else some (avgNode (valuesAt p nodes)) := by
  induction p generalizing nodes with
  | nil =>
    rw [valuesAt_nil, if_neg hne]
    rfl
  | cons s p ih =>
    rw [get?, valuesAt_cons]
    by_cases hcolumn : column s nodes = []
    · have hnone : (avgNode nodes).child s = none := by
        rw [← Option.not_isSome_iff_eq_none, child_avgNode_isSome h]
        exact not_not.mpr hcolumn
      rw [hnone, hcolumn]
      rfl
    · obtain ⟨c, hc⟩ := Option.isSome_iff_exists.mp ((child_avgNode_isSome h s).mpr hcolumn)
      rw [hc, Option.bind_some, child_avgNode h hc]
      exact ih (alike_column h s) hcolumn

/-- What readings that are alike have at a place is alike. -/
theorem alike_valuesAt {nodes : List Reading} (h : Alike nodes) (p : List Step) :
    Alike (valuesAt p nodes) := by
  induction p generalizing nodes with
  | nil => rwa [valuesAt_nil]
  | cons s p ih =>
    rw [valuesAt_cons]
    exact ih (alike_column h s)

end MoonFlare.Phantom
