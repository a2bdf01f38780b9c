import MoonFlare.NestedKeys

/-!
# Modules added from the flat and the nested form

What `nest_dotted_keys` makes of a body, said of the members before and after,
and that a body and what is made of it add the same module. The cleaning in
front of it looks at flat keys only, so the two forms agree where it has
nothing to take from the dotted ones.
-/

namespace MoonFlare.Nest

open CJson Secrets

variable {k ns leaf : CString}

/-! ## Values put into a block -/

/-- Members of a block that a value put into it does not concern. -/
theorem filter_putMember {q : CString × CJson → Bool} {block : Members} {part : CString × CJson}
    (h : ∀ v, q (part.1.take 63, v) = false) :
    (putMember block part).filter q = block.filter q := by
  rw [putMember, List.filter_append, filter_eraseP_of_key h, List.filter_cons_of_neg (by simp [h])]
  exact List.append_nil _

/-- Members that several values put into it do not concern. -/
theorem filter_putMembers {q : CString × CJson → Bool} {few block : Members}
    (h : ∀ part ∈ few, ∀ v, q (part.1.take 63, v) = false) :
    (few.foldl putMember block).filter q = block.filter q := by
  induction few generalizing block with
  | nil => rfl
  | cons part few ih =>
    rw [List.foldl_cons, ih fun l hl => h l (List.mem_cons_of_mem part hl),
      filter_putMember (h part List.mem_cons_self)]

/-- A value put into a block replaces the first of its name. -/
theorem ofKey_putMember (block : Members) (part : CString × CJson) :
    ofKey (part.1.take 63) (putMember block part) =
      (ofKey (part.1.take 63) block).tail ++ [(part.1.take 63, part.2)] := by
  rw [putMember, ofKey, List.filter_append, filter_eraseP, List.filter_cons_of_pos (by simp)]
  rfl

/-- A name that a block has once at most it has once at most afterwards. -/
theorem length_ofKey_putMembers {few block : Members} (h : (ofKey k block).length ≤ 1) :
    (ofKey k (few.foldl putMember block)).length ≤ 1 := by
  induction few generalizing block with
  | nil => exact h
  | cons part few ih =>
    rw [List.foldl_cons]
    refine ih ?_
    by_cases hk : part.1.take 63 = k
    · rw [← hk, ofKey_putMember, List.length_append, List.length_tail, hk, List.length_singleton]
      omega
    · have hother : ofKey k (putMember block part) = ofKey k block :=
        filter_putMember fun v => by simpa using hk
      rw [hother]
      exact h

/-! ## The body and what is made of it -/

/-- Leaves fit their buffer, and the object of a namespace names each once at most. -/
def LeavesFit (ms : Members) : Prop :=
  ∀ m ∈ ms, ∀ p ∈ dotted m.1, p.2.length < 64 ∧ (ofKey p.2 (blockOf p.1 ms)).length ≤ 1

/-- The leaves that go to a namespace. -/
def leavesOf (ns : CString) (ms : Members) : List CString := (parts ns ms).map Prod.fst

/-- What is made of a body: its dotted members are in the objects of their
namespaces, and nothing else is lost or changed. -/
structure NestsInto (ms left : Members) : Prop where
  /-- A dotted member is in the object of its namespace under its leaf; of
  several with one key it is the last. A value there before is replaced. -/
  moved : ∀ before m after ns leaf, ms = before ++ m :: after → dotted m.1 = some (ns, leaf) →
    (∀ l ∈ after, l.1 ≠ m.1) →
    ∃ block, lookup ns left = some (.object block) ∧ ofKey leaf block = [(leaf, m.2)]
  /-- That object has its other members as before; further ones of its name stay. -/
  blocks : ∀ ns ∈ spaces ms, ∃ block, ofKey ns left = (ns, .object block) :: (ofKey ns ms).tail ∧
    block.filter (fun l => l.1 ∉ leavesOf ns ms) =
      (blockOf ns ms).filter fun l => l.1 ∉ leavesOf ns ms
  /-- Members that are neither dotted nor at a namespace stay, in their order. -/
  others : left.filter (fun l => l.1 ∉ spaces ms) =
    ms.filter fun l => !isDotted l && decide (l.1 ∉ spaces ms)
  /-- The dotted members are gone; the objects created are behind the rest. -/
  keys : ∃ new : List CString,
    left.map Prod.fst = (ms.filter fun m => !isDotted m).map Prod.fst ++ new ∧ new.Nodup ∧
      ∀ k, k ∈ new ↔ k ∈ spaces ms ∧ k ∉ ms.map Prod.fst

/-- A namespace is no dotted key. -/
theorem dotted_of_mem_spaces {ms : Members} (h : ns ∈ spaces ms) : dotted ns = none := by
  obtain ⟨m, -, hm⟩ := List.mem_filterMap.mp h
  obtain ⟨⟨n, leaf⟩, hp, rfl⟩ := Option.map_eq_some_iff.mp hm
  exact dotted_space hp

/-- What goes to a namespace from two lists. -/
theorem parts_append (ns : CString) (few more : Members) :
    parts ns (few ++ more) = parts ns few ++ parts ns more := List.filterMap_append

/-- A part comes from a dotted member. -/
theorem mem_parts {few : Members} {part : CString × CJson} (h : part ∈ parts ns few) :
    ∃ m ∈ few, dotted m.1 = some (ns, part.1) ∧ m.2 = part.2 := by
  obtain ⟨m, hm, hpart⟩ := List.mem_filterMap.mp h
  obtain ⟨⟨n, leaf⟩, hd, hp⟩ := Option.bind_eq_some_iff.mp hpart
  simp only [Option.ite_none_right_eq_some, Option.some.injEq] at hp
  obtain ⟨rfl, rfl⟩ := hp
  exact ⟨m, hm, hd, rfl⟩

/-- A dotted member is a part of its namespace. -/
theorem parts_cons {m : CString × CJson} (h : dotted m.1 = some (ns, leaf)) (few : Members) :
    parts ns (m :: few) = (leaf, m.2) :: parts ns few := by
  rw [parts, List.filterMap_cons, h]
  simp only [Option.bind_some, if_true]
  rfl

/-- The first member of a key is what a lookup finds. -/
theorem lookup_eq_head (k : CString) (ms : Members) :
    lookup k ms = (ofKey k ms).head?.map Prod.snd := by
  rw [lookup, ofKey, List.head?_filter]

/-- A body whose namespaces and leaves fit nests into what the walk makes of it. -/
theorem nestsInto {ms : Members} (hfits : Fits (spaces ms) ms) (hleaves : LeavesFit ms) :
    NestsInto ms (ms.foldl nestStep ms) := by
  have hspace : ∀ ns ∈ spaces ms, parts ns ms ≠ [] := by
    intro ns hns
    obtain ⟨m, hm, hp⟩ := List.mem_filterMap.mp hns
    obtain ⟨⟨n, leaf⟩, hd, rfl⟩ := Option.map_eq_some_iff.mp hp
    obtain ⟨before, after, rfl⟩ := List.append_of_mem hm
    rw [parts_append, parts_cons hd]
    exact List.append_ne_nil_of_right_ne_nil _ (List.cons_ne_nil _ _)
  have hof : ∀ ns ∈ spaces ms, ofKey ns (ms.foldl nestStep ms) =
      (ns, .object ((parts ns ms).foldl putMember (blockOf ns ms))) :: (ofKey ns ms).tail := by
    intro ns hns
    rw [ofKey_nest (fun _ h => h) hfits (dotted_of_mem_spaces hns), if_neg (hspace ns hns)]
  have hcut : ∀ ns, ∀ part ∈ parts ns ms, part.1.take 63 = part.1 := by
    intro ns part hpart
    obtain ⟨m, hm, hd, -⟩ := mem_parts hpart
    have hlen : part.1.length < 64 := (hleaves m hm _ hd).1
    exact CString.take_of_length_le (by omega)
  constructor
  case moved =>
    rintro before m after ns leaf hms hd hlast
    have hm : m ∈ ms := by rw [hms]; exact List.mem_append_right _ List.mem_cons_self
    have hns : ns ∈ spaces ms := mem_spaces hm hd
    refine ⟨_, by rw [lookup_eq_head, hof ns hns]; rfl, ?_⟩
    have hparts : parts ns ms = parts ns before ++ (leaf, m.2) :: parts ns after := by
      rw [hms, parts_append, parts_cons hd]
    have hfirst : (leaf, m.2) ∈ parts ns ms := by
      rw [hparts]
      exact List.mem_append_right _ List.mem_cons_self
    have hself : leaf.take 63 = leaf := hcut ns (leaf, m.2) hfirst
    have hlater : ∀ part ∈ parts ns after, ∀ v : CJson,
        (fun l : CString × CJson => decide (l.1 = leaf)) (part.1.take 63, v) = false := by
      intro part hpart v
      have hmem : part ∈ parts ns ms := by
        rw [hparts]
        exact List.mem_append_right _ (List.mem_cons_of_mem _ hpart)
      rw [hcut ns part hmem]
      refine decide_eq_false ?_
      rintro rfl
      obtain ⟨l, hl, hdl, -⟩ := mem_parts hpart
      exact hlast l hl (dotted_inj hdl hd)
    have honce : (ofKey leaf ((parts ns before).foldl putMember (blockOf ns ms))).length ≤ 1 :=
      length_ofKey_putMembers (hleaves m hm _ hd).2
    rw [hparts, List.foldl_append, List.foldl_cons, ofKey, filter_putMembers hlater]
    have hput := ofKey_putMember ((parts ns before).foldl putMember (blockOf ns ms)) (leaf, m.2)
    dsimp only at hput
    rw [hself] at hput
    have htail : (ofKey leaf ((parts ns before).foldl putMember (blockOf ns ms))).tail = [] := by
      rw [← List.length_eq_zero_iff, List.length_tail]
      omega
    rw [htail] at hput
    exact hput
  case blocks =>
    intro ns hns
    refine ⟨_, hof ns hns, filter_putMembers fun part hpart v => ?_⟩
    rw [hcut ns part hpart]
    have hleaf : part.1 ∈ leavesOf ns ms := List.mem_map_of_mem hpart
    exact decide_eq_false (not_not.mpr hleaf)
  case others =>
    have hgone : (ms.foldl nestStep ms).filter isDotted = [] := dotted_nest rfl
    have hleft : (ms.foldl nestStep ms).filter (fun l => l.1 ∉ spaces ms) =
        (ms.foldl nestStep ms).filter fun l => !isDotted l && decide (l.1 ∉ spaces ms) := by
      refine List.filter_congr fun l hl => ?_
      have hplain : isDotted l = false := by
        rw [← Bool.not_eq_true]
        exact List.filter_eq_nil_iff.mp hgone l hl
      rw [hplain]
      rfl
    rw [hleft]
    refine filter_nest (fun l hl => ?_) fun n hn w => ?_
    · have hdotted : isDotted l = true := Option.isSome_iff_ne_none.mpr hl
      rw [hdotted]
      rfl
    · rw [decide_eq_false (not_not.mpr hn), Bool.and_false]
  case keys =>
    have hstart : ms.map Prod.fst = [] ++ (ms.map Prod.fst ++ []) := by simp
    obtain ⟨new, hnew, hnodup, hmem⟩ := keys_nest hstart (by simp)
    exact ⟨new, by simpa using hnew, hnodup, hmem⟩

/-! ## The walk and the cleaning -/

/-- A body whose namespaces fit is walked over as a list. -/
theorem nestDottedKeys_object {ms : Members} (h : Fits (spaces ms) ms) :
    nestDottedKeys (.object ms) = .object (ms.foldl nestStep ms) :=
  (foldl_nestMember (fun _ hn => hn) h).1

/-- A body without dotted keys stays. -/
theorem nestDottedKeys_plain {ms : Members} (h : ms.filter isDotted = []) :
    nestDottedKeys (.object ms) = .object ms := by
  have hplain : ∀ m ∈ ms, dotted m.1 = none := by
    intro m hm
    rw [← Option.not_isSome_iff_eq_none]
    exact List.filter_eq_nil_iff.mp h m hm
  have hfold : ∀ few : Members, (∀ m ∈ few, dotted m.1 = none) →
      few.foldl nestMember (.object ms) = .object ms := by
    intro few hfew
    induction few with
    | nil => rfl
    | cons m few ih =>
      rw [List.foldl_cons, nestMember_plain (hfew m List.mem_cons_self)]
      exact ih fun l hl => hfew l (List.mem_cons_of_mem m hl)
  exact hfold ms hplain

/-- Only the dotted members make steps. -/
theorem foldl_nestStep_filter (few left : Members) :
    few.foldl nestStep left = (few.filter isDotted).foldl nestStep left := by
  induction few generalizing left with
  | nil => rfl
  | cons m few ih =>
    rw [List.foldl_cons, List.filter_cons]
    split_ifs with hm
    · rw [List.foldl_cons, ih]
    · rw [isDotted, Option.not_isSome_iff_eq_none] at hm
      rw [nestStep, hm, ih]

/-- Only the members to go make deletions. -/
theorem deleteOn_filter (p : CString × CJson → Bool) (few left : Members) :
    deleteOn p few left =
      (few.filter p).foldl (fun left m => left.eraseP fun l => l.1 = m.1) left := by
  unfold deleteOn
  induction few generalizing left with
  | nil => rfl
  | cons m few ih =>
    rw [List.foldl_cons, List.filter_cons]
    split_ifs
    · rw [List.foldl_cons, ih]
    · exact ih left

/-- Two walks whose steps commute can be taken in either order. -/
theorem foldl_swap {σ α β : Type*} {f : σ → α → σ} {g : σ → β → σ} {as : List α} {bs : List β}
    (h : ∀ a ∈ as, ∀ b ∈ bs, ∀ s, f (g s b) a = g (f s a) b) (s : σ) :
    as.foldl f (bs.foldl g s) = bs.foldl g (as.foldl f s) := by
  have hone : ∀ a ∈ as, ∀ cs : List β, (∀ b ∈ cs, b ∈ bs) → ∀ s,
      f (cs.foldl g s) a = cs.foldl g (f s a) := by
    intro a ha cs
    induction cs with
    | nil => exact fun _ _ => rfl
    | cons b cs ih =>
      intro hcs s
      rw [List.foldl_cons, List.foldl_cons, ih fun c hc => hcs c (List.mem_cons_of_mem b hc),
        h a ha b (hcs b List.mem_cons_self)]
  induction as generalizing s with
  | nil => rfl
  | cons a as ih =>
    rw [List.foldl_cons, List.foldl_cons, hone a List.mem_cons_self bs fun _ hb => hb]
    exact ih (fun c hc => h c (List.mem_cons_of_mem a hc)) _
      fun c hc => hone c (List.mem_cons_of_mem a hc)

/-- Deleting another key and changing the first of a key can be done in either order. -/
theorem eraseP_modifyFirst {f : CJson → CJson} {c : CString} (hne : c ≠ k) (left : Members) :
    (modifyFirst k f left).eraseP (fun l => l.1 = c) =
      modifyFirst k f (left.eraseP fun l => l.1 = c) := by
  induction left with
  | nil => rfl
  | cons m left ih =>
    obtain ⟨l, w⟩ := m
    by_cases hl : l = k
    · have hlc : decide (l = c) = false := decide_eq_false (by rw [hl]; exact Ne.symm hne)
      simp only [modifyFirst, if_pos hl, List.eraseP_cons, hlc, cond_false]
    · by_cases hlc : l = c
      · rw [modifyFirst, if_neg hl, List.eraseP_cons_of_pos (by simpa using hlc),
          List.eraseP_cons_of_pos (by simpa using hlc)]
      · rw [modifyFirst, if_neg hl, List.eraseP_cons_of_neg (by simpa using hlc),
          List.eraseP_cons_of_neg (by simpa using hlc), modifyFirst, if_neg hl, ih]

/-- Another key's lookup does not see a deletion. -/
theorem lookup_eraseP_ne {c : CString} (hne : c ≠ k) (left : Members) :
    lookup k (left.eraseP fun l => l.1 = c) = lookup k left := by
  rw [lookup_eq_head, lookup_eq_head, ofKey_eraseP_of_ne hne]

/-- Deleting a key that is neither the member's nor its namespace, and moving
the member, can be done in either order. -/
theorem eraseP_move {key c : CString} {v : CJson} (hkey : c ≠ key) (hns : c ≠ ns)
    (left : Members) :
    move key ns leaf v (left.eraseP fun l => l.1 = c) =
      (move key ns leaf v left).eraseP fun l => l.1 = c := by
  have hensure : ensure ns (left.eraseP fun l => l.1 = c) =
      (ensure ns left).eraseP fun l => l.1 = c := by
    unfold ensure
    rw [lookup_eraseP_ne hns]
    split_ifs
    · rfl
    · by_cases hin : ∃ l ∈ left, l.1 = c
      · obtain ⟨l, hl, hlc⟩ := hin
        exact (List.eraseP_append_left (by simpa using hlc) _ hl).symm
      · have hnone : ∀ l ∈ left, ¬decide (l.1 = c) = true := by
          intro l hl hlc
          exact hin ⟨l, hl, of_decide_eq_true hlc⟩
        rw [List.eraseP_append_right _ hnone, List.eraseP_of_forall_not hnone,
          List.eraseP_cons_of_neg (by simpa using Ne.symm hns)]
        rfl
  unfold move
  rw [hensure, eraseP_modifyFirst hns]
  congr 1
  refine List.eraseP_comm fun l _ => ?_
  by_cases hl : l.1 = c
  · exact Or.inr (by simpa [hl] using hkey)
  · exact Or.inl (by simpa using hl)

/-- The cleaning takes nothing of what is walked over: no dotted member, and
no namespace is a field that is not a setting. -/
def CleansNone (fields : List CJson) (ms : Members) : Prop :=
  ∀ m ∈ ms, ∀ p ∈ dotted m.1, cleaned fields m = false ∧ mfFieldNotSetting fields p.1 = false

/-- Under a name where only objects are, and that is no button or shown value, nothing is to go. -/
theorem cleaned_object {fields : List CJson} {m : CString × CJson} (hm : m.2.isObject = true)
    (hset : mfFieldNotSetting fields m.1 = false) : cleaned fields m = false := by
  obtain ⟨l, w⟩ := m
  cases w with
  | object block => simp [cleaned, hset, string?]
  | _ => cases hm

/-- Cleaning and nesting a body can be done in either order, and what comes
out has no dotted key. -/
theorem clean_nest {fields : List CJson} {ms : Members} (hfits : Fits (spaces ms) ms)
    (hclean : CleansNone fields ms) :
    ∃ out : Members, out.filter isDotted = [] ∧
      nestDottedKeys (mfSecretCleanBody (.object ms) fields) = .object out ∧
      mfSecretCleanBody (nestDottedKeys (.object ms)) fields = .object out := by
  obtain ⟨nested, hnested⟩ : ∃ nested, nested = ms.foldl nestStep ms := ⟨_, rfl⟩
  have hgone : nested.filter isDotted = [] := by rw [hnested]; exact dotted_nest rfl
  have hfitsNested : Fits (spaces ms) nested := by
    rw [hnested]
    exact (foldl_nestMember (fun _ h => h) hfits).2
  -- the members to go are neither dotted nor at a namespace
  have hspaceSet : ∀ n ∈ spaces ms, mfFieldNotSetting fields n = false := by
    intro n hn
    obtain ⟨m, hm, hp⟩ := List.mem_filterMap.mp hn
    obtain ⟨⟨n, leaf⟩, hd, rfl⟩ := Option.map_eq_some_iff.mp hp
    exact (hclean m hm _ hd).2
  have hkept : ∀ left : Members, Fits (spaces ms) left →
      (∀ l ∈ left, isDotted l = true → cleaned fields l = false) →
      left.filter (cleaned fields) = left.filter fun l =>
        cleaned fields l && (!isDotted l && decide (l.1 ∉ spaces ms)) := by
    intro left hleft hdot
    refine List.filter_congr fun l hl => ?_
    cases hd : isDotted l with
    | true =>
      rw [hdot l hl hd]
      rfl
    | false =>
      by_cases hn : l.1 ∈ spaces ms
      · rw [cleaned_object ((hleft l.1 hn).2 l hl rfl) (hspaceSet l.1 hn)]
        rfl
      · simp [hn]
  have hdotClean : ∀ l ∈ ms, isDotted l = true → cleaned fields l = false := by
    intro l hl hd
    obtain ⟨p, hp⟩ := Option.isSome_iff_exists.mp hd
    exact (hclean l hl p hp).1
  have hsame : nested.filter (cleaned fields) = ms.filter (cleaned fields) := by
    rw [hkept nested hfitsNested fun l hl hd => absurd hd (List.filter_eq_nil_iff.mp hgone l hl),
      hkept ms hfits hdotClean, hnested]
    refine filter_nest (fun l hl => ?_) fun n hn w => ?_
    · have hdotted : isDotted l = true := Option.isSome_iff_ne_none.mpr hl
      rw [hdotted]
      simp
    · rw [decide_eq_false (not_not.mpr hn), Bool.and_false, Bool.and_false]
  have hcplain : ∀ c ∈ ms.filter (cleaned fields), isDotted c = false ∧ c.1 ∉ spaces ms := by
    intro c hc
    rw [hkept ms hfits hdotClean] at hc
    have hq := (List.mem_filter.mp hc).2
    simp only [Bool.and_eq_true, Bool.not_eq_true', decide_eq_true_eq] at hq
    exact hq.2
  -- the body without them has the same dotted members, and its namespaces fit
  obtain ⟨short, hshort⟩ : ∃ short, short =
      (ms.filter (cleaned fields)).foldl (fun left m => left.eraseP fun l => l.1 = m.1) ms :=
    ⟨_, rfl⟩
  have herase : ∀ few : Members, (∀ c ∈ few, isDotted c = false) → ∀ left : Members,
      (few.foldl (fun left m => left.eraseP fun l => l.1 = m.1) left).filter isDotted =
        left.filter isDotted ∧
      (few.foldl (fun left m => left.eraseP fun l => l.1 = m.1) left).Sublist left := by
    intro few
    induction few with
    | nil => exact fun _ left => ⟨rfl, List.Sublist.refl left⟩
    | cons c few ih =>
      intro hfew left
      obtain ⟨hdot, hsub⟩ := ih (fun l hl => hfew l (List.mem_cons_of_mem c hl))
        (left.eraseP fun l => l.1 = c.1)
      refine ⟨hdot.trans (filter_eraseP_of_key fun v => hfew c List.mem_cons_self), ?_⟩
      exact hsub.trans List.eraseP_sublist
  obtain ⟨hshortDot, hshortSub⟩ := herase _ (fun c hc => (hcplain c hc).1) ms
  rw [← hshort] at hshortDot hshortSub
  have hspaces : spaces short = spaces ms := by
    have hfew : ∀ left : Members, spaces left = spaces (left.filter isDotted) := by
      intro left
      induction left with
      | nil => rfl
      | cons m left ih =>
        rw [spaces_cons, List.filter_cons]
        split_ifs with hm
        · rw [spaces_cons, ih]
        · rw [isDotted, Option.not_isSome_iff_eq_none] at hm
          rw [hm, ih]
          rfl
    rw [hfew, hshortDot, ← hfew]
  have hfitsShort : Fits (spaces short) short := by
    rw [hspaces]
    exact fun n hn => ⟨(hfits n hn).1, fun m hm => (hfits n hn).2 m (hshortSub.subset hm)⟩
  -- and the two walks commute
  have hswap : short.foldl nestStep short =
      (ms.filter (cleaned fields)).foldl (fun left m => left.eraseP fun l => l.1 = m.1) nested := by
    rw [foldl_nestStep_filter, hshortDot, hnested, foldl_nestStep_filter ms, hshort]
    refine foldl_swap (fun m hm c hc left => ?_) ms
    obtain ⟨hm, hd⟩ := List.mem_filter.mp hm
    obtain ⟨⟨n, leaf⟩, hp⟩ := Option.isSome_iff_exists.mp hd
    obtain ⟨hcdot, hcspace⟩ := hcplain c hc
    have hckey : c.1 ≠ m.1 := by
      intro heq
      rw [isDotted, heq, hp] at hcdot
      cases hcdot
    have hcns : c.1 ≠ n := fun heq => hcspace (heq ▸ mem_spaces hm hp)
    rw [nestStep, nestStep, hp]
    exact eraseP_move hckey hcns left
  refine ⟨short.foldl nestStep short, dotted_nest rfl, ?_, ?_⟩
  · rw [mfSecretCleanBody_object, deleteOn_filter, ← hshort, nestDottedKeys_object hfitsShort]
  · rw [nestDottedKeys_object hfits, ← hnested, mfSecretCleanBody_object, deleteOn_filter, hsame,
      ← hswap]

/-! ## Modules asked for with dotted keys -/

section Create

variable {κ ε : Type}

/-- The plugin that the body of a `POST` names. -/
def namedPlugin (s : Daemon κ ε) (root : CJson) : Option (PluginOps κ ε) :=
  let text := fun key => ((getCase? (some root) key).bind string?).getD CString.empty
  mfPluginsFind s.dv.registry (CBuf.copy 16 (text "kind")).str (CBuf.copy 16 (text "driver")).str

/-- A text at a key that is not dotted is the same after the walk. -/
theorem text_nest {ms : Members} (hfits : Fits (spaces ms) ms) (hk : dotted k = none) :
    (lookup k (ms.foldl nestStep ms)).bind string? = (lookup k ms).bind string? := by
  by_cases hin : k ∈ spaces ms
  · -- at a namespace there is an object on both sides, or nothing
    have hnone : ∀ left : Members, Fits (spaces ms) left → (lookup k left).bind string? = none := by
      intro left hleft
      cases hl : lookup k left with
      | none => rfl
      | some v =>
        have hobject := (hleft k hin).2 _ (mem_of_lookup hl) rfl
        cases v with
        | object block => rfl
        | _ => cases hobject
    rw [hnone ms hfits, hnone _ (foldl_nestMember (fun _ h => h) hfits).2]
  · have hsame : ofKey k (ms.foldl nestStep ms) = ofKey k ms := by
      refine filter_nest (fun l hl => ?_) fun n hn w => ?_
      · refine decide_eq_false ?_
        rintro rfl
        exact hl hk
      · refine decide_eq_false ?_
        rintro rfl
        exact hin hn
    rw [lookup_eq_head, lookup_eq_head, hsame]

/-- A body and what is made of it are opened and stored as the same document. -/
theorem createDocument_nest {ops : Option (PluginOps κ ε)} {ms : Members}
    (hfits : Fits (spaces ms) ms) (hclean : CleansNone (restFields ops) ms) :
    createDocument ops (nestDottedKeys (.object ms)) = createDocument ops (.object ms) := by
  obtain ⟨out, hout, hflat, hnested⟩ := clean_nest hfits hclean
  unfold createDocument
  rw [hnested, hflat, nestDottedKeys_plain hout]

/-- A body whose namespaces are short and objects, and whose leaves fit, nests
into the object with its dotted members in their namespaces; nesting that
again changes nothing; and where the cleaning takes no dotted member, adding a
module from the flat and from the nested form is the same. -/
theorem nestDottedKeys_nests (ms : Members) (hfits : Fits (spaces ms) ms)
    (hleaves : LeavesFit ms) :
    ∃ left, nestDottedKeys (.object ms) = .object left ∧ NestsInto ms left ∧
      nestDottedKeys (.object left) = .object left ∧
      ∀ (env : RestEnv) (s : Daemon κ ε) (flat nested : Bytes),
        parseWithLength flat = some (.object ms) → parseWithLength nested = some (.object left) →
        CleansNone (restFields (namedPlugin s (.object ms))) ms →
        handleDevicesCreate env s nested = handleDevicesCreate env s flat := by
  refine ⟨_, nestDottedKeys_object hfits, nestsInto hfits hleaves,
    nestDottedKeys_plain (dotted_nest rfl), ?_⟩
  intro env s flat nested hflat hnested hclean
  have hempty : ∀ body root, parseWithLength body = some root → body ≠ [] := by
    rintro body root hbody rfl
    have hnil : parseWithLength [] = none := by decide +kernel
    rw [hnil] at hbody
    cases hbody
  have htext : ∀ key, dotted (CString.lit key) = none →
      (getCase? (some (.object (ms.foldl nestStep ms))) key).bind string? =
        (getCase? (some (.object ms)) key).bind string? := fun key hkey => text_nest hfits hkey
  have hname := htext "name" (by decide +kernel)
  have hkind := htext "kind" (by decide +kernel)
  have hdriver := htext "driver" (by decide +kernel)
  have hdocument : ∀ kind driver,
      (getCase? (some (.object ms)) "kind").bind string? = some kind →
      (getCase? (some (.object ms)) "driver").bind string? = some driver →
      createDocument (mfPluginsFind s.dv.registry (CBuf.copy 16 kind).str (CBuf.copy 16 driver).str)
          (.object (ms.foldl nestStep ms)) =
        createDocument (mfPluginsFind s.dv.registry (CBuf.copy 16 kind).str
          (CBuf.copy 16 driver).str) (.object ms) := by
    intro kind driver hk hd
    have hplugin : namedPlugin s (.object ms) =
        mfPluginsFind s.dv.registry (CBuf.copy 16 kind).str (CBuf.copy 16 driver).str := by
      unfold namedPlugin
      simp only [hk, hd, Option.getD_some]
    rw [hplugin] at hclean
    rw [← nestDottedKeys_object hfits]
    exact createDocument_nest hfits hclean
  unfold handleDevicesCreate
  rw [if_neg (hempty _ _ hflat), if_neg (hempty _ _ hnested), hflat, hnested]
  dsimp only
  rw [hname, hkind, hdriver]
  cases hn : (getCase? (some (.object ms)) "name").bind string? with
  | none => rfl
  | some name =>
    cases hk : (getCase? (some (.object ms)) "kind").bind string? with
    | none => rfl
    | some kind =>
      cases hd : (getCase? (some (.object ms)) "driver").bind string? with
      | none => rfl
      | some driver =>
        dsimp only
        rw [hdocument kind driver hk hd]

end Create

/-- A plugin whose key is a secret, in the namespace of its driver. -/
def smsPlugin : PluginOps Unit Unit :=
  { kind := CString.lit "service", driver := CString.lit "textbelt"
    describe := some (CString.lit
      "\x7b\"fields\":[\x7b\"key\":\"textbelt.key\",\"type\":\"secret\"\x7d]\x7d")
    openCtx := some fun _ => .ok (), step := none, caps := none
    lastError := none, getReading := none, getSettings := none, putSettings := none }

/-- A daemon that has it, without modules. -/
def smsDaemon : Daemon Unit Unit := ⟨mfDevicesInit [smsPlugin] true, mfConfigDefaults⟩

/-- A request that goes well. -/
def addEnv : RestEnv := ⟨CBuf.copy 37 (CString.lit "a1"), Double.zero, true, none⟩

/-- The flat form of a module, its secret in place. -/
def flatSms : Members :=
  [(CString.lit "name", .string (CString.lit "Sms")),
    (CString.lit "kind", .string (CString.lit "service")),
    (CString.lit "driver", .string (CString.lit "textbelt")),
    (CString.lit "textbelt.key", .string (CString.lit "k1"))]

/-- The body of a `POST` for such a module, its key as given. -/
def smsBody (key : String) : Bytes :=
  ascii ("\x7b\"name\":\"Sms\",\"kind\":\"service\",\"driver\":\"textbelt\"," ++ key ++ "\x7d")

/-- Adding it is the same from either form. -/
theorem nestDottedKeys_nests_sms :
    handleDevicesCreate addEnv smsDaemon (smsBody "\"textbelt\":\x7b\"key\":\"k1\"\x7d") =
      handleDevicesCreate addEnv smsDaemon (smsBody "\"textbelt.key\":\"k1\"") := by
  obtain ⟨left, hleft, -, -, hsame⟩ := @nestDottedKeys_nests Unit Unit flatSms
    (by unfold Fits; decide +kernel) (by unfold LeavesFit; decide +kernel)
  refine hsame addEnv smsDaemon _ _ (by decide +kernel) ?_ (by unfold CleansNone; decide +kernel)
  rw [← hleft]
  decide +kernel

/-- A leaf of 64 letters. -/
def longLeaf : CString := CString.ofBytes (List.replicate 64 97)

/-- Where the two forms differ: a mask under a secret's key is dropped from the
flat form and stored from the nested one; a leaf of 64 letters loses one; and
where the object names a leaf twice the second value stays in front. -/
theorem flat_nested_differ :
    (handleDevicesCreate addEnv smsDaemon
        (smsBody "\"textbelt\":\x7b\"key\":\"********\"\x7d")).1.cfg.devices.map (·.extraJson) ≠
      (handleDevicesCreate addEnv smsDaemon
        (smsBody "\"textbelt.key\":\"********\"")).1.cfg.devices.map (·.extraJson) ∧
    ((nestDottedKeys (.object [(CString.lit "usb." ++ longLeaf, .null)])).getCase
      (CString.lit "usb")).bind (·.getCase longLeaf) = none ∧
    ((nestDottedKeys (.object
      [(CString.lit "usb", .object [(CString.lit "path", .null), (CString.lit "path", .bool false)]),
        (CString.lit "usb.path", .bool true)])).getCase (CString.lit "usb")).bind
          (·.getCase (CString.lit "path")) = some (.bool false) := by
  refine ⟨?_, ?_, ?_⟩ <;> decide +kernel

end MoonFlare.Nest
