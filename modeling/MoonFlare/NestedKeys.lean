import MoonFlare.RestHandlers
import MoonFlare.SecretCleaning

/-!
# Dotted keys moved into their namespaces

`nest_dotted_keys` walks over the members of a body and moves each dotted one
into the object of its namespace. The walk takes members out of the list it
goes over and adds objects to its end, so the facts are about the list as it
stands while some members are still ahead.
-/

namespace MoonFlare.Nest

open CJson Secrets

/-- The members of an object. -/
abbrev Members := List (CString × CJson)

/-! ## Dotted keys -/

/-- The namespace and the leaf of a dotted key, both nonempty. -/
def dotted (k : CString) : Option (CString × CString) :=
  (k.splitAt 46).filter fun p => p.1.nonempty && p.2.nonempty

/-- A member with a dotted key. -/
def isDotted (m : CString × CJson) : Bool := (dotted m.1).isSome

variable {k ns leaf : CString}

/-- A list is what is in front of a byte, the byte, and what is behind it. -/
theorem split_at_byte {c : UInt8} {l : List UInt8} (h : c ∈ l) :
    l = l.take (l.takeWhile (· ≠ c)).length ++ c :: l.drop ((l.takeWhile (· ≠ c)).length + 1) ∧
      c ∉ l.take (l.takeWhile (· ≠ c)).length := by
  induction l with
  | nil => cases h
  | cons b l ih =>
    by_cases hb : b = c
    · subst hb
      simp
    · have hmem : c ∈ l := (List.mem_cons.mp h).resolve_left (Ne.symm hb)
      obtain ⟨hl, hc⟩ := ih hmem
      have hlen : ((b :: l).takeWhile (· ≠ c)).length = (l.takeWhile (· ≠ c)).length + 1 := by
        rw [List.takeWhile_cons_of_pos (by simpa using hb), List.length_cons]
      rw [hlen, List.take_succ_cons, List.drop_succ_cons, List.cons_append]
      refine ⟨congrArg (b :: ·) hl, ?_⟩
      rw [List.mem_cons, not_or]
      exact ⟨Ne.symm hb, hc⟩

/-- A dotted key is its namespace, a dot and its leaf; the namespace has no dot. -/
theorem bytes_of_dotted (h : dotted k = some (ns, leaf)) :
    k.bytes = ns.bytes ++ 46 :: leaf.bytes ∧ (46 : UInt8) ∉ ns.bytes := by
  obtain ⟨hsplit, -⟩ := Option.filter_eq_some_iff.mp h
  unfold CString.splitAt at hsplit
  split_ifs at hsplit with hmem
  obtain ⟨rfl, rfl⟩ := Prod.mk.inj (Option.some.inj hsplit)
  exact split_at_byte hmem

/-- A namespace is not dotted itself. -/
theorem dotted_space (h : dotted k = some (ns, leaf)) : dotted ns = none := by
  have hno := (bytes_of_dotted h).2
  unfold dotted CString.splitAt
  rw [if_neg hno]
  rfl

/-- So it is not the key of a dotted member. -/
theorem space_ne {k' ns' leaf' : CString} (h : dotted k = some (ns, leaf))
    (h' : dotted k' = some (ns', leaf')) : ns ≠ k' := by
  rintro rfl
  rw [dotted_space h] at h'
  cases h'

/-- Namespace and leaf say which key it is. -/
theorem dotted_inj {k' : CString} (h : dotted k = some (ns, leaf))
    (h' : dotted k' = some (ns, leaf)) : k = k' :=
  CString.ext ((bytes_of_dotted h).1.trans (bytes_of_dotted h').1.symm)

/-! ## One member moved -/

/-- A value goes into a block under its leaf, which is cut at its buffer. -/
def putMember (block : Members) (part : CString × CJson) : Members :=
  (block.eraseP fun l => l.1 = part.1.take 63) ++ [(part.1.take 63, part.2)]

/-- The body with an object for the namespace. -/
def ensure (ns : CString) (left : Members) : Members :=
  if (lookup ns left).isSome then left else left ++ [(ns, .object [])]

/-- The body with the member of a key moved into the namespace. -/
def move (key ns leaf : CString) (v : CJson) (left : Members) : Members :=
  modifyFirst ns (fun block => (block.deleteCase (leaf.take 63)).add (leaf.take 63) v)
    ((ensure ns left).eraseP fun l => l.1 = key)

/-- One step of the walk where every namespace fits and is an object. -/
def nestStep (left : Members) (m : CString × CJson) : Members :=
  match dotted m.1 with
  | none => left
  | some (ns, leaf) => move m.1 ns leaf m.2 left

/-- The namespaces fit their buffer, and what has their name is an object. -/
def Fits (spaces : List CString) (left : Members) : Prop :=
  ∀ ns ∈ spaces, ns.length < 32 ∧ ∀ m ∈ left, m.1 = ns → m.2.isObject = true

/-- The namespaces of the dotted members. -/
def spaces (ms : Members) : List CString := ms.filterMap fun m => (dotted m.1).map Prod.fst

theorem mem_spaces {ms : Members} {m : CString × CJson} (hm : m ∈ ms)
    (h : dotted m.1 = some (ns, leaf)) : ns ∈ spaces ms :=
  List.mem_filterMap.mpr ⟨m, hm, by rw [h]; rfl⟩

/-- A member that is not dotted stays. -/
theorem nestMember_plain {m : CString × CJson} (h : dotted m.1 = none) (root : CJson) :
    nestMember root m = root := by
  unfold nestMember
  cases hsplit : m.1.splitAt 46 with
  | none => rfl
  | some parts =>
    obtain ⟨parent, child⟩ := parts
    have hempty : ¬(parent.nonempty = true ∧ child.nonempty = true) := by
      intro hboth
      rw [dotted, hsplit, Option.filter_some, if_pos (by simpa using hboth)] at h
      cases h
    dsimp only
    rw [if_neg fun hall => hempty ⟨hall.1, hall.2.1⟩]

/-- A dotted one whose namespace fits moves. -/
theorem nestMember_move {left : Members} {m : CString × CJson}
    (h : dotted m.1 = some (ns, leaf)) (hlen : ns.length < 32)
    (hobject : ∀ l ∈ left, l.1 = ns → l.2.isObject = true) :
    nestMember (.object left) m = .object (move m.1 ns leaf m.2 left) := by
  obtain ⟨hsplit, hboth⟩ := Option.filter_eq_some_iff.mp h
  have hne : ns.nonempty = true ∧ leaf.nonempty = true := by simpa using hboth
  have hget : (CJson.object left).getCase ns = lookup ns left := rfl
  have hensure : (if ((CJson.object left).getCase ns).isSome = true then CJson.object left
      else (CJson.object left).add ns (.object [])) = .object (ensure ns left) := by
    rw [hget, ensure]
    split_ifs <;> rfl
  have hblock : ((CJson.object (ensure ns left)).getCase ns).any isObject = true := by
    show (lookup ns (ensure ns left)).any isObject = true
    unfold ensure
    cases hlookup : lookup ns left with
    | none =>
      rw [Option.isSome_none, if_neg (by simp), lookup_append, hlookup, Option.none_or,
        lookup_cons_self]
      rfl
    | some v =>
      rw [Option.isSome_some, if_pos rfl, hlookup]
      exact hobject _ (mem_of_lookup hlookup) rfl
  unfold nestMember
  rw [hsplit]
  dsimp only
  rw [if_pos ⟨hne.1, hne.2, hlen⟩, hensure, if_pos hblock]
  rfl

/-! ## What a step keeps -/

/-- What a list has at a key but for the first, changed value. -/
theorem ofKey_modifyFirst {f : CJson → CJson} {left rest : Members} {v : CJson}
    (h : ofKey k left = (k, v) :: rest) : ofKey k (modifyFirst k f left) = (k, f v) :: rest := by
  induction left with
  | nil => cases h
  | cons m left ih =>
    obtain ⟨l, w⟩ := m
    by_cases hl : l = k
    · subst hl
      rw [ofKey, List.filter_cons_of_pos (by simp), List.cons.injEq, Prod.mk.injEq] at h
      obtain ⟨⟨-, rfl⟩, hrest⟩ := h
      rw [modifyFirst, if_pos rfl, ofKey, List.filter_cons_of_pos (by simp), hrest]
    · rw [ofKey, List.filter_cons_of_neg (by simpa using hl)] at h
      rw [modifyFirst, if_neg hl, ofKey, List.filter_cons_of_neg (by simpa using hl)]
      exact ih h

/-- Members that a change of one key does not concern. -/
theorem filter_modifyFirst {f : CJson → CJson} {q : CString × CJson → Bool} {left : Members}
    (h : ∀ v, (k, v) ∈ left → q (k, v) = false ∧ q (k, f v) = false) :
    (modifyFirst k f left).filter q = left.filter q := by
  induction left with
  | nil => rfl
  | cons m left ih =>
    obtain ⟨l, w⟩ := m
    have hrest := ih fun v hv => h v (List.mem_cons_of_mem _ hv)
    by_cases hl : l = k
    · subst hl
      obtain ⟨hold, hnew⟩ := h w List.mem_cons_self
      rw [modifyFirst, if_pos rfl, List.filter_cons, List.filter_cons, hold, hnew]
      rfl
    · rw [modifyFirst, if_neg hl, List.filter_cons, List.filter_cons, hrest]

/-- The keys stay. -/
theorem keys_modifyFirst {f : CJson → CJson} (left : Members) :
    (modifyFirst k f left).map Prod.fst = left.map Prod.fst := by
  induction left with
  | nil => rfl
  | cons m left ih =>
    obtain ⟨l, w⟩ := m
    by_cases hl : l = k
    · rw [modifyFirst, if_pos hl, List.map_cons, List.map_cons]
    · rw [modifyFirst, if_neg hl, List.map_cons, List.map_cons, ih]

/-- A member of the changed list is one of the list or the changed one. -/
theorem mem_modifyFirst {f : CJson → CJson} {left : Members} {m : CString × CJson}
    (h : m ∈ modifyFirst k f left) : m ∈ left ∨ ∃ v, (k, v) ∈ left ∧ m = (k, f v) := by
  induction left with
  | nil => cases h
  | cons l left ih =>
    obtain ⟨l, w⟩ := l
    by_cases hl : l = k
    · subst hl
      rw [modifyFirst, if_pos rfl] at h
      rcases List.mem_cons.mp h with rfl | h
      · exact Or.inr ⟨w, List.mem_cons_self, rfl⟩
      · exact Or.inl (List.mem_cons_of_mem _ h)
    · rw [modifyFirst, if_neg hl] at h
      rcases List.mem_cons.mp h with rfl | h
      · exact Or.inl List.mem_cons_self
      · rcases ih h with h | ⟨v, hv, rfl⟩
        · exact Or.inl (List.mem_cons_of_mem _ h)
        · exact Or.inr ⟨v, List.mem_cons_of_mem _ hv, rfl⟩

/-- Members that the deletion of a key does not concern. -/
theorem filter_eraseP_of_key {q : CString × CJson → Bool} {left : Members}
    (h : ∀ v, q (k, v) = false) : (left.eraseP fun l => l.1 = k).filter q = left.filter q := by
  induction left with
  | nil => rfl
  | cons m left ih =>
    obtain ⟨l, w⟩ := m
    by_cases hl : l = k
    · subst hl
      rw [List.eraseP_cons_of_pos (by simp), List.filter_cons, h w]
      rfl
    · rw [List.eraseP_cons_of_neg (by simpa using hl), List.filter_cons, List.filter_cons, ih]

/-- What is at a namespace, with the object made for it when there is none. -/
theorem ofKey_ensure (ns : CString) (left : Members) :
    ofKey ns (ensure ns left) =
      if ofKey ns left = [] then [(ns, .object [])] else ofKey ns left := by
  have hlookup : (lookup ns left).isSome = true ↔ ofKey ns left ≠ [] := by
    rw [Option.isSome_iff_ne_none, Ne, lookup_eq_none_iff, ofKey, Ne, List.filter_eq_nil_iff]
    simp
  unfold ensure
  split_ifs with hsome hnil hnil
  · exact absurd hnil (hlookup.mp hsome)
  · rfl
  · rw [ofKey, List.filter_append, List.filter_cons_of_pos (by simp)]
    unfold ofKey at hnil
    rw [hnil]
    rfl
  · exact absurd (hlookup.mpr hnil) hsome

/-- Making the object of a namespace adds at most that. -/
theorem mem_ensure {left : Members} {m : CString × CJson} (h : m ∈ ensure ns left) :
    m ∈ left ∨ m = (ns, .object []) := by
  unfold ensure at h
  split_ifs at h
  · exact Or.inl h
  · rcases List.mem_append.mp h with h | h
    · exact Or.inl h
    · exact Or.inr (List.mem_singleton.mp h)

section Move

variable {key : CString} {left : Members} {v : CJson}

/-- A move leaves what is neither dotted nor at its namespace. -/
theorem filter_move (hkey : dotted key = some (ns, leaf)) {q : CString × CJson → Bool}
    (hdot : ∀ l, dotted l.1 ≠ none → q l = false) (hspace : ∀ w, q (ns, w) = false) :
    (move key ns leaf v left).filter q = left.filter q := by
  have hensure : (ensure ns left).filter q = left.filter q := by
    unfold ensure
    split_ifs
    · rfl
    · rw [List.filter_append, List.filter_cons_of_neg (by simp [hspace])]
      exact List.append_nil _
  unfold move
  rw [filter_modifyFirst fun w _ => ⟨hspace w, hspace _⟩,
    filter_eraseP_of_key fun w => hdot (key, w) (by rw [hkey]; simp), hensure]

/-- It takes one member from the dotted ones, the first of its key. -/
theorem dotted_move (hkey : dotted key = some (ns, leaf)) :
    (move key ns leaf v left).filter isDotted =
      (left.filter isDotted).eraseP fun l => l.1 = key := by
  have hspace : ∀ w : CJson, isDotted (ns, w) = false := by
    intro w
    rw [isDotted, dotted_space hkey]
    rfl
  have hensure : (ensure ns left).filter isDotted = left.filter isDotted := by
    unfold ensure
    split_ifs
    · rfl
    · rw [List.filter_append, List.filter_cons_of_neg (by simp [hspace])]
      exact List.append_nil _
  unfold move
  rw [filter_modifyFirst fun w _ => ⟨hspace w, hspace _⟩, ← hensure]
  generalize ensure ns left = l
  induction l with
  | nil => rfl
  | cons m l ih =>
    by_cases hm : m.1 = key
    · have hdot : isDotted m = true := by rw [isDotted, hm, hkey]; rfl
      rw [List.eraseP_cons_of_pos (by simpa using hm), List.filter_cons_of_pos hdot,
        List.eraseP_cons_of_pos (by simpa using hm)]
    · rw [List.eraseP_cons_of_neg (by simpa using hm), List.filter_cons, List.filter_cons]
      split_ifs
      · rw [List.eraseP_cons_of_neg (by simpa using hm), ih]
      · exact ih

/-- The keys: the namespace's when it is missing, less the member's. -/
theorem keys_move : (move key ns leaf v left).map Prod.fst =
    (left.map Prod.fst ++ if ns ∈ left.map Prod.fst then [] else [ns]).erase key := by
  have hensure : (ensure ns left).map Prod.fst =
      left.map Prod.fst ++ if ns ∈ left.map Prod.fst then [] else [ns] := by
    have hlookup : (lookup ns left).isSome = true ↔ ns ∈ left.map Prod.fst := by
      rw [Option.isSome_iff_ne_none, Ne, lookup_eq_none_iff, List.mem_map]
      simp
    unfold ensure
    split_ifs with hsome hin hin
    · exact (List.append_nil _).symm
    · exact absurd (hlookup.mp hsome) hin
    · exact absurd (hlookup.mpr hin) hsome
    · rw [List.map_append]
      rfl
  have herase : ∀ l : Members, (l.eraseP fun m => m.1 = key).map Prod.fst =
      (l.map Prod.fst).erase key := by
    intro l
    induction l with
    | nil => rfl
    | cons m l ih =>
      by_cases hm : m.1 = key
      · rw [List.eraseP_cons_of_pos (by simpa using hm), List.map_cons, hm, List.erase_cons_head]
      · rw [List.eraseP_cons_of_neg (by simpa using hm), List.map_cons, List.map_cons,
          List.erase_cons_tail (by simpa using hm), ih]
  rw [move, keys_modifyFirst, herase, hensure]

/-- What is at another key that is not dotted stays. -/
theorem ofKey_move_ne (hkey : dotted key = some (ns, leaf)) (hk : dotted k = none) (hne : k ≠ ns) :
    ofKey k (move key ns leaf v left) = ofKey k left := by
  refine filter_move hkey (fun l hl => ?_) fun w => by simpa using Ne.symm hne
  refine decide_eq_false fun heq => hl ?_
  rw [heq, hk]

/-- The block at a namespace: the members of the first object there. -/
def blockOf (ns : CString) (left : Members) : Members :=
  ((ofKey ns left).head?.map fun m => m.2.members).getD []

/-- At its own namespace a move puts the value into the first object. -/
theorem ofKey_move_self (hkey : dotted key = some (ns, leaf))
    (hobject : ∀ m ∈ left, m.1 = ns → m.2.isObject = true) :
    ofKey ns (move key ns leaf v left) =
      (ns, .object (putMember (blockOf ns left) (leaf, v))) :: (ofKey ns left).tail := by
  have hne : key ≠ ns := (space_ne hkey hkey).symm
  have herase : ofKey ns ((ensure ns left).eraseP fun l => l.1 = key) =
      if ofKey ns left = [] then [(ns, .object [])] else ofKey ns left := by
    rw [ofKey_eraseP_of_ne hne, ofKey_ensure]
  cases hof : ofKey ns left with
  | nil =>
    rw [hof, if_pos rfl] at herase
    rw [move, ofKey_modifyFirst herase, blockOf, hof]
    rfl
  | cons m rest =>
    have hm : m ∈ ofKey ns left := by rw [hof]; exact List.mem_cons_self
    obtain ⟨hmem, hmkey⟩ := List.mem_filter.mp hm
    have hmns : m.1 = ns := of_decide_eq_true hmkey
    obtain ⟨l, w⟩ := m
    obtain rfl : l = ns := hmns
    have hw := hobject _ hmem rfl
    cases w with
    | object block =>
      rw [hof, if_neg (by simp)] at herase
      rw [move, ofKey_modifyFirst herase, blockOf, hof]
      rfl
    | _ => cases hw

/-- A move keeps the namespaces fit. -/
theorem fits_move {names : List CString} (h : Fits names left) :
    Fits names (move key ns leaf v left) := by
  intro n hn
  refine ⟨(h n hn).1, fun m hm hmn => ?_⟩
  have hold : ∀ l ∈ (ensure ns left).eraseP (fun l => l.1 = key), l.1 = n →
      l.2.isObject = true := by
    intro l hl hln
    rcases mem_ensure (List.mem_of_mem_eraseP hl) with hl | rfl
    · exact (h n hn).2 l hl hln
    · rfl
  rcases mem_modifyFirst hm with hm | ⟨w, hw, rfl⟩
  · exact hold m hm hmn
  · have hobject := hold _ hw hmn
    cases w with
    | object block => rfl
    | _ => cases hobject

end Move

/-! ## The walk -/

/-- The namespaces ahead, one member further. -/
theorem spaces_cons (m : CString × CJson) (few : Members) :
    spaces (m :: few) = ((dotted m.1).map Prod.fst).toList ++ spaces few := by
  unfold spaces
  rw [List.filterMap_cons]
  cases dotted m.1 <;> rfl

/-- The walk is made of moves while the namespaces fit, and they stay fit. -/
theorem foldl_nestMember {names : List CString} {few left : Members}
    (hnames : ∀ ns ∈ spaces few, ns ∈ names) (h : Fits names left) :
    few.foldl nestMember (.object left) = .object (few.foldl nestStep left) ∧
      Fits names (few.foldl nestStep left) := by
  induction few generalizing left with
  | nil => exact ⟨rfl, h⟩
  | cons m few ih =>
    rw [spaces_cons] at hnames
    have hrest : ∀ ns ∈ spaces few, ns ∈ names := fun ns hns =>
      hnames ns (List.mem_append_right _ hns)
    rw [List.foldl_cons, List.foldl_cons]
    cases hd : dotted m.1 with
    | none =>
      rw [nestMember_plain hd, nestStep, hd]
      exact ih hrest h
    | some p =>
      obtain ⟨ns, leaf⟩ := p
      have hns : ns ∈ names := hnames ns (by rw [hd]; exact List.mem_append_left _ (by simp))
      rw [nestMember_move hd (h ns hns).1 (h ns hns).2, nestStep, hd]
      exact ih hrest (fits_move h)

/-- What is neither dotted nor at a namespace stays. -/
theorem filter_nest {q : CString × CJson → Bool} {few left : Members}
    (hdot : ∀ l, dotted l.1 ≠ none → q l = false)
    (hspace : ∀ ns ∈ spaces few, ∀ w, q (ns, w) = false) :
    (few.foldl nestStep left).filter q = left.filter q := by
  induction few generalizing left with
  | nil => rfl
  | cons m few ih =>
    rw [spaces_cons] at hspace
    have hrest : ∀ ns ∈ spaces few, ∀ w, q (ns, w) = false := fun ns hns =>
      hspace ns (List.mem_append_right _ hns)
    rw [List.foldl_cons, ih hrest, nestStep]
    cases hd : dotted m.1 with
    | none => rfl
    | some p =>
      obtain ⟨ns, leaf⟩ := p
      exact filter_move hd hdot (hspace ns (by rw [hd]; exact List.mem_append_left _ (by simp)))

/-- The dotted members still there are those ahead, so none is left at the end. -/
theorem dotted_nest {few left : Members} (h : left.filter isDotted = few.filter isDotted) :
    (few.foldl nestStep left).filter isDotted = [] := by
  induction few generalizing left with
  | nil => exact h
  | cons m few ih =>
    rw [List.foldl_cons]
    refine ih ?_
    rw [nestStep]
    cases hd : dotted m.1 with
    | none => rw [h, List.filter_cons_of_neg (by simp [isDotted, hd])]
    | some p =>
      obtain ⟨ns, leaf⟩ := p
      rw [dotted_move hd, h, List.filter_cons_of_pos (by simp [isDotted, hd]),
        List.eraseP_cons_of_pos (by simp)]

/-- The keys at the end: those of the members that are not dotted, in their
order, and behind them the namespaces that were missing. -/
theorem keys_nest {few left : Members} {front back : List CString}
    (hkeys : left.map Prod.fst = front ++ (few.map Prod.fst ++ back))
    (hfront : ∀ k ∈ front, dotted k = none) :
    ∃ new : List CString,
      (few.foldl nestStep left).map Prod.fst =
        front ++ ((few.filter fun m => !isDotted m).map Prod.fst ++ (back ++ new)) ∧
      new.Nodup ∧ ∀ k, k ∈ new ↔ k ∈ spaces few ∧ k ∉ left.map Prod.fst := by
  induction few generalizing left front back with
  | nil => exact ⟨[], by simpa using hkeys, List.nodup_nil, by simp [spaces]⟩
  | cons m few ih =>
    rw [List.foldl_cons, nestStep, spaces_cons]
    cases hd : dotted m.1 with
    | none =>
      have hstep : left.map Prod.fst = (front ++ [m.1]) ++ (few.map Prod.fst ++ back) := by
        rw [hkeys]
        simp
      have hfront' : ∀ k ∈ front ++ [m.1], dotted k = none := by
        intro k hk
        rcases List.mem_append.mp hk with hk | hk
        · exact hfront k hk
        · rw [List.mem_singleton.mp hk, hd]
      obtain ⟨new, hnew, hnodup, hmem⟩ := ih hstep hfront'
      refine ⟨new, ?_, hnodup, hmem⟩
      rw [List.filter_cons_of_pos (by simp [isDotted, hd])]
      simpa using hnew
    | some p =>
      obtain ⟨ns, leaf⟩ := p
      have hnot : m.1 ∉ front := by
        intro hin
        rw [hfront _ hin] at hd
        cases hd
      obtain ⟨add, hadd⟩ : ∃ add, add = if ns ∈ left.map Prod.fst then [] else [ns] := ⟨_, rfl⟩
      have hmoved : (move m.1 ns leaf m.2 left).map Prod.fst =
          front ++ (few.map Prod.fst ++ (back ++ add)) := by
        rw [keys_move, ← hadd, hkeys, List.append_assoc, List.erase_append_right _ hnot,
          List.map_cons, List.cons_append, List.cons_append, List.erase_cons_head,
          List.append_assoc]
      obtain ⟨new, hnew, hnodup, hmem⟩ := ih hmoved hfront
      have hin : ∀ k, dotted k = none →
          (k ∈ (move m.1 ns leaf m.2 left).map Prod.fst ↔ k ∈ left.map Prod.fst ∨ k ∈ add) := by
        intro k hk
        have hne : k ≠ m.1 := by
          rintro rfl
          rw [hk] at hd
          cases hd
        rw [hmoved, hkeys]
        simp only [List.mem_append, List.map_cons, List.mem_cons, hne, false_or]
        tauto
      have hns : ns ∈ left.map Prod.fst ∨ ns ∈ add := by
        rw [hadd]
        split_ifs with h
        · exact Or.inl h
        · exact Or.inr List.mem_cons_self
      have haddmem : ∀ k, k ∈ add → k = ns ∧ ns ∉ left.map Prod.fst := by
        intro k hk
        rw [hadd] at hk
        split_ifs at hk with h
        · cases hk
        · exact ⟨List.mem_singleton.mp hk, h⟩
      have hplain : ∀ k ∈ spaces few, dotted k = none := by
        intro k hk
        obtain ⟨l, -, hl⟩ := List.mem_filterMap.mp hk
        obtain ⟨⟨n, f⟩, hnf, rfl⟩ := Option.map_eq_some_iff.mp hl
        exact dotted_space hnf
      refine ⟨add ++ new, ?_, ?_, fun k => ?_⟩
      · rw [hnew, List.filter_cons_of_neg (by simp [isDotted, hd]), List.append_assoc]
      · refine List.nodup_append.mpr ⟨?_, hnodup, ?_⟩
        · rw [hadd]
          split_ifs
          · exact List.nodup_nil
          · exact List.nodup_singleton ns
        · rintro a ha b hb rfl
          obtain ⟨rfl, hout⟩ := haddmem a ha
          exact ((hmem a).mp hb).2 ((hin a (dotted_space hd)).mpr (Or.inr ha))
      · rw [List.mem_append, hmem]
        constructor
        · rintro (hk | ⟨hk, hout⟩)
          · obtain ⟨rfl, hout⟩ := haddmem k hk
            exact ⟨List.mem_append_left _ (by simp), hout⟩
          · refine ⟨List.mem_append_right _ hk, fun hl => hout ?_⟩
            exact (hin k (hplain k hk)).mpr (Or.inl hl)
        · rintro ⟨hk, hout⟩
          by_cases hkns : k = ns
          · subst hkns
            exact Or.inl (hns.resolve_left hout)
          · have hfew : k ∈ spaces few := by
              rcases List.mem_append.mp hk with hk | hk
              · exact absurd (by simpa using hk) hkns
              · exact hk
            refine Or.inr ⟨hfew, fun hl => ?_⟩
            rcases (hin k (hplain k hfew)).mp hl with hl | hl
            · exact hout hl
            · exact hkns (haddmem k hl).1

/-- The values that go to a namespace, with their leaves. -/
def parts (ns : CString) (few : Members) : Members :=
  few.filterMap fun m => (dotted m.1).bind fun p => if p.1 = ns then some (p.2, m.2) else none

/-- At a namespace all its values are put into the first object. -/
theorem ofKey_nest {names : List CString} {few left : Members}
    (hnames : ∀ n ∈ spaces few, n ∈ names) (h : Fits names left) (hns : dotted ns = none) :
    ofKey ns (few.foldl nestStep left) =
      if parts ns few = [] then ofKey ns left
      else (ns, .object ((parts ns few).foldl putMember (blockOf ns left))) ::
        (ofKey ns left).tail := by
  induction few generalizing left with
  | nil => rfl
  | cons m few ih =>
    rw [spaces_cons] at hnames
    have hrest : ∀ n ∈ spaces few, n ∈ names := fun n hn => hnames n (List.mem_append_right _ hn)
    rw [List.foldl_cons, nestStep, parts, List.filterMap_cons]
    cases hd : dotted m.1 with
    | none => exact ih hrest h
    | some p =>
      obtain ⟨n, leaf⟩ := p
      have hn : n ∈ names := hnames n (by rw [hd]; exact List.mem_append_left _ (by simp))
      have hfits : Fits names (move m.1 n leaf m.2 left) := fits_move h
      have hmove := ih hrest hfits
      by_cases hne : n = ns
      · subst hne
        have hself := ofKey_move_self (v := m.2) hd (h n hn).2
        simp only [Option.bind_some, if_true]
        rw [hmove, hself, if_neg (List.cons_ne_nil _ _), List.foldl_cons, List.tail_cons]
        have hblock : blockOf n (move m.1 n leaf m.2 left) =
            putMember (blockOf n left) (leaf, m.2) := by
          rw [blockOf, hself]
          rfl
        split_ifs with hnil
        · unfold parts at hnil
          rw [hnil]
          rfl
        · rw [hblock]
          rfl
      · simp only [Option.bind_some, if_neg hne]
        have hof : ofKey ns (move m.1 n leaf m.2 left) = ofKey ns left :=
          ofKey_move_ne hd hns (Ne.symm hne)
        rw [hmove, blockOf, hof]
        rfl

end MoonFlare.Nest
