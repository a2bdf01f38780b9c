import MoonFlare.PhantomShape

/-!
# The average is the mean that keeps the shape

What the average has at a place is read off what the readings have there: the
rounded mean of their numbers, or the first string or boolean. Only the sum
and the count of the numbers matter, so their order does not. Copies of one
reading hand down copies of its parts.
-/

namespace MoonFlare.Phantom

open Reading

/-- The numbers that some readings have at a place, nulls ignored. -/
def numbersAt (p : List Step) (nodes : List Reading) : List ℚ :=
  (valuesAt p nodes).filterMap number?

/-- A string or a boolean. -/
def Reading.IsText (v : Reading) : Prop := v.kind = .string ∨ v.kind = .bool

/-- A reading is the mean of some readings that keeps their shape. -/
structure IsMean (readings : List Reading) (avg : Reading) : Prop where
  /-- It has the places the readings have. -/
  places : ∀ p, (avg.get? p).isSome = true ↔ ∃ r ∈ readings, (r.get? p).isSome = true
  /-- And items of their kinds there. -/
  shape : ∀ r ∈ readings, SameShape avg r
  /-- A null stands only where every reading has one. -/
  null : ∀ p, avg.get? p = some null → ∀ r ∈ readings, ∀ v, r.get? p = some v → v = null
  /-- A number is the rounded mean of the numbers at its place. -/
  number : ∀ p y, avg.get? p = some (number y) ↔
    numbersAt p readings ≠ [] ∧ y = round4 (mean (numbersAt p readings))
  /-- A string or a boolean is the first that is not null. -/
  text : ∀ p v, v.IsText → (avg.get? p = some v ↔ firstOf (valuesAt p readings) = v)

/-! ## Leaves -/

/-- A number among documents that are alike makes the first of them a number. -/
theorem firstOf_number {nodes : List Reading} (h : Alike nodes)
    (hnumbers : nodes.filterMap number? ≠ []) : ∃ x, firstOf nodes = number x := by
  obtain ⟨x, hx⟩ := List.exists_mem_of_ne_nil _ hnumbers
  obtain ⟨v, hv, hvx⟩ := List.mem_filterMap.mp hx
  have hkind : v.kind = .number := by cases v <;> simp_all [number?, kind]
  have hvn : v.kind ≠ .null := by rw [hkind]; simp
  have hfirst : firstOf nodes ≠ null := fun hnull =>
    hvn (kind_eq_null.mpr (eq_null_of_firstOf hnull hv))
  have heq := h.kind_eq (firstOf_mem hfirst) hv (kind_eq_null.not.mpr hfirst) hvn
  rw [hkind] at heq
  cases hf : firstOf nodes with
  | number x => exact ⟨x, rfl⟩
  | _ => simp [hf, kind] at heq

/-- The average is a number exactly when there are numbers, and then their rounded mean. -/
theorem avgNode_eq_number {nodes : List Reading} (h : Alike nodes) (y : ℚ) :
    avgNode nodes = number y ↔
      nodes.filterMap number? ≠ [] ∧ y = round4 (mean (nodes.filterMap number?)) := by
  constructor
  · intro havg
    have hkind : (firstOf nodes).kind = .number := by rw [← kind_avgNode, havg]; rfl
    cases hfirst : firstOf nodes with
    | number x =>
      rw [avgNode_number hfirst] at havg
      have hmem : number x ∈ nodes := hfirst ▸ firstOf_mem (by rw [hfirst]; simp)
      exact ⟨List.ne_nil_of_mem (List.mem_filterMap.mpr ⟨_, hmem, rfl⟩), (number.inj havg).symm⟩
    | _ => simp [hfirst, kind] at hkind
  · rintro ⟨hne, rfl⟩
    obtain ⟨x, hx⟩ := firstOf_number h hne
    exact avgNode_number hx

/-- The average is a string or a boolean exactly when the first document that is not null is. -/
theorem avgNode_eq_text (nodes : List Reading) {v : Reading} (hv : v.IsText) :
    avgNode nodes = v ↔ firstOf nodes = v := by
  have hkind : (firstOf nodes).IsText → avgNode nodes = firstOf nodes := by
    intro htext
    cases hfirst : firstOf nodes with
    | string t => exact avgNode_string hfirst
    | bool b => exact avgNode_bool hfirst
    | _ => rw [hfirst] at htext; simp [IsText, kind] at htext
  constructor
  · intro havg
    have htext : (firstOf nodes).IsText := by
      unfold IsText
      rw [← kind_avgNode, havg]
      exact hv
    rw [← hkind htext, havg]
  · rintro rfl
    exact hkind hv

/-! ## Order -/

/-- The order of the readings does not matter to the numbers' mean. -/
theorem mean_perm {xs ys : List ℚ} (h : xs.Perm ys) : mean xs = mean ys := by
  unfold mean
  rw [h.sum_eq, h.length_eq]

/-- The numbers at a place, in another order of the readings. -/
theorem numbersAt_perm {readings readings' : List Reading} (h : readings.Perm readings')
    (p : List Step) : (numbersAt p readings).Perm (numbersAt p readings') :=
  (h.filterMap _).filterMap _

/-! ## Copies -/

mutual

/-- A reading with its numbers rounded. -/
def Reading.roundNumbers : Reading → Reading
  | .number v => .number (round4 v)
  | .array items => .array (roundItems items)
  | .object members => .object (roundMembers members)
  | v => v

/-- Elements with their numbers rounded. -/
def Reading.roundItems : List Reading → List Reading
  | [] => []
  | v :: items => v.roundNumbers :: roundItems items

/-- Members with their numbers rounded. -/
def Reading.roundMembers : List (CString × Reading) → List (CString × Reading)
  | [] => []
  | (k, v) :: members => (k, v.roundNumbers) :: roundMembers members

end

/-- Each element is rounded. -/
theorem roundItems_eq (items : List Reading) : roundItems items = items.map roundNumbers := by
  induction items with
  | nil => rw [roundItems, List.map_nil]
  | cons v items ih => rw [roundItems, ih, List.map_cons]

/-- Each member is rounded. -/
theorem roundMembers_eq (members : List (CString × Reading)) :
    roundMembers members = members.map fun m => (m.1, m.2.roundNumbers) := by
  induction members with
  | nil => rw [roundMembers, List.map_nil]
  | cons m members ih => rw [roundMembers, ih, List.map_cons]

/-- Copies of one reading are alike. -/
theorem alike_replicate (n : ℕ) {r : Reading} (h : DistinctKeys r) :
    Alike (List.replicate n r) where
  shape := by
    intro v hv w hw p x y hx hy _ _
    rw [List.eq_of_mem_replicate hv] at hx
    rw [List.eq_of_mem_replicate hw, hx] at hy
    rw [Option.some.inj hy]
  keys := by
    intro v hv
    rw [List.eq_of_mem_replicate hv]
    exact h

/-- The first of copies of null is null. -/
theorem firstOf_nulls (n : ℕ) : firstOf (List.replicate n null) = null := by
  induction n with
  | zero => rfl
  | succ n ih => rwa [List.replicate_succ, firstOf]

/-- They hand down copies of a part. -/
theorem column_replicate (n : ℕ) {r c : Reading} {s : Step} (h : r.child s = some c) :
    column s (List.replicate n r) = List.replicate n c := by
  unfold column
  exact List.filterMap_replicate_of_some h

/-- The mean of copies of a number is the number. -/
theorem mean_replicate (n : ℕ) (x : ℚ) : mean (List.replicate (n + 1) x) = x := by
  have hpos : ((n + 1 : ℕ) : ℚ) ≠ 0 := by exact_mod_cast n.succ_ne_zero
  rw [mean, List.sum_replicate, List.length_replicate, nsmul_eq_mul, mul_comm,
    mul_div_cancel_right₀ x hpos]

/-- What a part of a reading without a repeated key is, is such a reading. -/
theorem DistinctKeys.child {r c : Reading} {s : Step} (h : DistinctKeys r)
    (hc : r.child s = some c) : DistinctKeys c := by
  intro p members hp
  exact h (s :: p) members (by rw [get?, hc, Option.bind_some, hp])

/-- The average of copies of a reading is the reading with its numbers rounded. -/
theorem avgNode_replicate (n : ℕ) (r : Reading) (h : DistinctKeys r) :
    avgNode (List.replicate (n + 1) r) = r.roundNumbers := by
  have hpart : ∀ s c, r.child s = some c →
      avgNode (collect c (·.child s) (List.replicate (n + 1) r)) =
        avgNode (List.replicate (n + 1) c) := by
    intro s c hc
    have hcolumn := column_replicate (n + 1) hc
    rw [← hcolumn]
    exact avgNode_collect (alike_replicate _ h) hcolumn
  cases r with
  | null => exact avgNode_null (firstOf_nulls (n + 1))
  | bool b => exact avgNode_bool rfl
  | string t => exact avgNode_string rfl
  | number x =>
    have hnumbers : (List.replicate (n + 1) (number x)).filterMap number? =
        List.replicate (n + 1) x := List.filterMap_replicate_of_some rfl
    rw [avgNode_number rfl, hnumbers, mean_replicate, roundNumbers]
  | array items =>
    rw [avgNode_array rfl, roundNumbers, roundItems_eq]
    refine congrArg array (List.ext_getElem? fun i => ?_)
    rw [List.getElem?_mapIdx, List.getElem?_map]
    cases hit : items[i]? with
    | none => rfl
    | some it =>
      have hc : (array items).child (.index i) = some it := hit
      have hsize : sizeOf it < sizeOf (array items) := sizeOf_getItem hc
      exact congrArg some ((hpart _ _ hc).trans (avgNode_replicate n it (h.child hc)))
  | object members =>
    rw [avgNode_object rfl, roundNumbers, roundMembers_eq]
    refine congrArg object (List.map_congr_left fun m hm => ?_)
    have hc : (object members).child (.key m.1) = some m.2 := getCase_of_mem (h [] members rfl) hm
    have hsize : sizeOf m.2 < sizeOf (object members) := sizeOf_getCase hc
    exact congrArg (Prod.mk m.1) ((hpart _ _ hc).trans (avgNode_replicate n m.2 (h.child hc)))
termination_by sizeOf r

/-! ## The average is the mean -/

/-- The average of readings that are alike is their mean. -/
theorem isMean_avgNode {readings : List Reading} (h : Alike readings) (hne : readings ≠ []) :
    IsMean readings (avgNode readings) := by
  have hget : ∀ p v, (avgNode readings).get? p = some v ↔
      valuesAt p readings ≠ [] ∧ avgNode (valuesAt p readings) = v := by
    intro p v
    rw [get?_avgNode h hne p]
    split_ifs with hnil <;> simp [hnil]
  have hvalue : ∀ p, ∀ r ∈ readings, ∀ v, r.get? p = some v → v ∈ valuesAt p readings :=
    fun p r hr v hv => List.mem_filterMap.mpr ⟨r, hr, hv⟩
  constructor
  case places =>
    intro p
    rw [Option.isSome_iff_exists]
    constructor
    · rintro ⟨v, hv⟩
      obtain ⟨w, hw⟩ := List.exists_mem_of_ne_nil _ ((hget p v).mp hv).1
      obtain ⟨r, hr, hrw⟩ := List.mem_filterMap.mp hw
      exact ⟨r, hr, by rw [hrw]; rfl⟩
    · rintro ⟨r, hr, hsome⟩
      obtain ⟨v, hv⟩ := Option.isSome_iff_exists.mp hsome
      exact ⟨_, (hget p _).mpr ⟨List.ne_nil_of_mem (hvalue p r hr v hv), rfl⟩⟩
  case shape =>
    intro r hr p v w hv hw hvn hwn
    obtain ⟨-, rfl⟩ := (hget p v).mp hv
    rw [kind_avgNode] at hvn ⊢
    have hfirst : firstOf (valuesAt p readings) ≠ null := kind_eq_null.not.mp hvn
    exact (alike_valuesAt h p).kind_eq (firstOf_mem hfirst) (hvalue p r hr w hw) hvn hwn
  case null =>
    intro p hnull r hr v hv
    have hkind : (firstOf (valuesAt p readings)).kind = .null := by
      rw [← kind_avgNode, ((hget p _).mp hnull).2]
      rfl
    exact eq_null_of_firstOf (kind_eq_null.mp hkind) (hvalue p r hr v hv)
  case number =>
    intro p y
    rw [hget, avgNode_eq_number (alike_valuesAt h p), numbersAt]
    constructor
    · rintro ⟨-, hnumber⟩
      exact hnumber
    · intro hnumber
      refine ⟨?_, hnumber⟩
      intro hnil
      exact hnumber.1 (by rw [hnil]; rfl)
  case text =>
    intro p v hv
    rw [hget, avgNode_eq_text _ hv]
    constructor
    · rintro ⟨-, hfirst⟩
      exact hfirst
    · intro hfirst
      refine ⟨?_, hfirst⟩
      intro hnil
      rw [hnil] at hfirst
      rw [← hfirst] at hv
      simp [IsText, firstOf, kind] at hv

/-- Of at most 32 readings of one shape that name no key twice, the average is
the mean that keeps the shape; its numbers do not depend on the order; and
copies of one reading give it back with its numbers rounded. -/
theorem mfPhantomAverage_isMean (readings : List Reading) (hne : readings ≠ [])
    (hlen : readings.length ≤ 32) (hshape : ∀ v ∈ readings, ∀ w ∈ readings, SameShape v w)
    (hkeys : ∀ v ∈ readings, DistinctKeys v) :
    ∃ avg, mfPhantomAverage readings = some avg ∧ IsMean readings avg ∧
      (∀ readings', readings.Perm readings' →
        ∃ avg', mfPhantomAverage readings' = some avg' ∧
          ∀ p y, avg.get? p = some (number y) ↔ avg'.get? p = some (number y)) ∧
      ∀ n r, 0 < n → DistinctKeys r →
        mfPhantomAverage (List.replicate n r) = some r.roundNumbers := by
  have halike : Alike readings := ⟨hshape, hkeys⟩
  have haverage : ∀ l : List Reading, l ≠ [] → l.length ≤ 32 →
      mfPhantomAverage l = some (avgNode l) := by
    intro l hl hl32
    rw [mfPhantomAverage, if_neg hl, maxReadings, List.take_of_length_le hl32]
  refine ⟨_, haverage readings hne hlen, isMean_avgNode halike hne, ?_, ?_⟩
  · intro readings' hperm
    have hne' : readings' ≠ [] := fun hnil => hne (List.perm_nil.mp (hnil ▸ hperm))
    have halike' : Alike readings' := halike.subset hperm.symm.subset
    refine ⟨_, haverage readings' hne' (hperm.length_eq ▸ hlen), fun p y => ?_⟩
    have hnumbers := numbersAt_perm hperm p
    have hnil : numbersAt p readings ≠ [] ↔ numbersAt p readings' ≠ [] := by
      rw [← List.length_pos_iff, ← List.length_pos_iff, hnumbers.length_eq]
    rw [(isMean_avgNode halike hne).number, (isMean_avgNode halike' hne').number, hnil,
      mean_perm hnumbers]
  · intro n r hn hr
    obtain ⟨m, hm⟩ : ∃ m, (List.replicate n r).take maxReadings = List.replicate (m + 1) r := by
      refine ⟨min maxReadings n - 1, ?_⟩
      rw [List.take_replicate, Nat.sub_add_cancel]
      exact le_min (by decide) hn
    have hcopies : List.replicate n r ≠ [] := by
      rw [Ne, List.replicate_eq_nil_iff]
      omega
    rw [mfPhantomAverage, if_neg hcopies, hm, avgNode_replicate m r hr]

/-- A pack that reports a state of charge and perhaps a current. -/
def pack (current : Reading) : Reading :=
  object [(CString.lit "soc_pct", number 80), (CString.lit "current_a", current)]

/-- What a pack has at a place: the root or one of its two leaves. -/
theorem get?_pack {current v : Reading} {p : List Step} (h : (pack current).get? p = some v)
    (hleaf : ∀ s, current.child s = none) :
    p = [] ∧ v = pack current ∨ p = [.key (CString.lit "soc_pct")] ∧ v = number 80 ∨
      p = [.key (CString.lit "current_a")] ∧ v = current := by
  have hleaves : ∀ (w : Reading) (p : List Step), (∀ s, w.child s = none) → w.get? p = some v →
      p = [] ∧ v = w := by
    intro w p hw hp
    cases p with
    | nil => exact ⟨rfl, (Option.some.inj hp).symm⟩
    | cons s p =>
      rw [get?, hw] at hp
      cases hp
  cases p with
  | nil => exact Or.inl ⟨rfl, (Option.some.inj h).symm⟩
  | cons s p =>
    cases s with
    | index i => cases h
    | key k =>
      by_cases hsoc : CString.lit "soc_pct" = k
      · have hp : (number 80).get? p = some v := by simpa [pack, get?, child, getCase, hsoc] using h
        obtain ⟨rfl, rfl⟩ := hleaves _ p (fun s => by cases s <;> rfl) hp
        exact Or.inr (Or.inl ⟨by rw [hsoc], rfl⟩)
      · by_cases hcurrent : CString.lit "current_a" = k
        · have hp : current.get? p = some v := by
            simpa [pack, get?, child, getCase, hsoc, hcurrent] using h
          obtain ⟨rfl, rfl⟩ := hleaves _ p hleaf hp
          exact Or.inr (Or.inr ⟨by rw [hcurrent], rfl⟩)
        · simp [pack, get?, child, getCase, hsoc, hcurrent] at h

/-- Two packs, the first without a current: the second's is the mean. -/
theorem mfPhantomAverage_isMean_two :
    ∃ avg, mfPhantomAverage [pack null, pack (number 3)] = some avg ∧
      avg.get? [.key (CString.lit "current_a")] = some (number (round4 3)) := by
  have hnull : ∀ s, null.child s = none := fun s => by cases s <;> rfl
  have hthree : ∀ s, (number 3).child s = none := fun s => by cases s <;> rfl
  have hpacks : ∀ v ∈ [pack null, pack (number 3)],
      ∃ c, v = pack c ∧ (c = null ∨ c = number 3) ∧ ∀ s, c.child s = none := by
    intro v hv
    rcases List.mem_pair.mp hv with rfl | rfl
    · exact ⟨null, rfl, Or.inl rfl, hnull⟩
    · exact ⟨number 3, rfl, Or.inr rfl, hthree⟩
  have hlit : CString.lit "soc_pct" ≠ CString.lit "current_a" := by decide
  obtain ⟨avg, havg, hmean, -, -⟩ := mfPhantomAverage_isMean [pack null, pack (number 3)]
    (by simp) (by simp)
    (by
      intro v hv w hw p x y hx hy hxn hyn
      obtain ⟨c, rfl, hc, hcl⟩ := hpacks v hv
      obtain ⟨d, rfl, hd, hdl⟩ := hpacks w hw
      clear hpacks
      rcases get?_pack hx hcl with ⟨rfl, rfl⟩ | ⟨rfl, rfl⟩ | ⟨rfl, rfl⟩ <;>
        rcases get?_pack hy hdl with ⟨hp, rfl⟩ | ⟨hp, rfl⟩ | ⟨hp, rfl⟩
      · rfl
      · cases hp
      · cases hp
      · cases hp
      · rfl
      · simp [hlit] at hp
      · cases hp
      · simp [hlit.symm] at hp
      · rcases hc with rfl | rfl <;> rcases hd with rfl | rfl <;> first | rfl | contradiction)
    (by
      intro v hv p members hp
      obtain ⟨c, rfl, hc, hcl⟩ := hpacks v hv
      rcases get?_pack hp hcl with ⟨-, hm⟩ | ⟨-, hm⟩ | ⟨-, hm⟩
      · rw [pack, object.injEq] at hm
        rw [hm]
        simpa using hlit
      · cases hm
      · rcases hc with rfl | rfl <;> cases hm)
  refine ⟨avg, havg, (hmean.number _ _).mpr ?_⟩
  have hnumbers : numbersAt [.key (CString.lit "current_a")] [pack null, pack (number 3)] = [3] := by
    simp [numbersAt, valuesAt, pack, get?, child, getCase, hlit]
    rfl
  rw [hnumbers]
  exact ⟨by simp, by simp [mean]⟩

/-- A reading that names a key twice, which the lookups of the average do not see. -/
def keyTwice : Reading :=
  object [(CString.lit "soc_pct", number 1), (CString.lit "soc_pct", number 2)]

/-- Copies of a reading that names a key twice do not give it back. -/
theorem keyTwice_lost : ¬∀ n r, 0 < n → n ≤ 32 →
    mfPhantomAverage (List.replicate n r) = some (roundNumbers r) := by
  intro h
  have hone : avgNode [keyTwice] = keyTwice.roundNumbers :=
    Option.some.inj (h 1 keyTwice (by decide) (by decide))
  rw [avgNode_object rfl] at hone
  simp [collect, push, keyTwice, getCase, avgNode_number, firstOf, number?, mean, roundNumbers,
    roundMembers] at hone
  norm_num [round4, cRound] at hone

end MoonFlare.Phantom
