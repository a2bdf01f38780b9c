import MoonFlare.Secrets

/-!
# What the cleaning of a body takes out

`mf_secret_clean_body` walks over the members and, for one to take out, deletes
the first member of its key. That member need not be the one it stands at:
where a key is repeated the earlier one goes. So as many members of a key go as
there are to take out, but from the front.
-/

namespace MoonFlare.Secrets

open CJson

/-! ## Deleting by key on a walk -/

/-- The first that passes a test goes, the others that pass it stay. -/
theorem filter_eraseP {α : Type*} (q : α → Bool) (l : List α) :
    (l.eraseP q).filter q = (l.filter q).tail := by
  induction l with
  | nil => rfl
  | cons m l ih =>
    cases hm : q m with
    | true => rw [List.eraseP_cons_of_pos hm, List.filter_cons_of_pos hm, List.tail_cons]
    | false =>
      have hm' : ¬q m = true := by rw [hm]; exact Bool.false_ne_true
      rw [List.eraseP_cons_of_neg hm', List.filter_cons_of_neg hm', List.filter_cons_of_neg hm', ih]

section Walk

variable {κ ν : Type*} [DecidableEq κ] {p : κ × ν → Bool}

/-- The members of a key. -/
def ofKey (k : κ) (ms : List (κ × ν)) : List (κ × ν) := ms.filter fun m => m.1 = k

/-- The walk: at a member that is to go, the first of its key does. -/
def deleteOn (p : κ × ν → Bool) (ms left : List (κ × ν)) : List (κ × ν) :=
  ms.foldl (fun left m => if p m = true then left.eraseP fun l => l.1 = m.1 else left) left

/-- What is behind the place of the walk when it has passed a member. -/
def passed (p : κ × ν → Bool) (kept : List (κ × ν)) (m : κ × ν) : List (κ × ν) :=
  if p m = true then (kept ++ [m]).eraseP fun l => l.1 = m.1 else kept ++ [m]

/-- The member the walk stands at is still there, so nothing ahead of it goes. -/
theorem deleteOn_append (ms kept : List (κ × ν)) :
    deleteOn p ms (kept ++ ms) = ms.foldl (passed p) kept := by
  induction ms generalizing kept with
  | nil => exact List.append_nil kept
  | cons m ms ih =>
    have hstep : (if p m = true then (kept ++ m :: ms).eraseP fun l => l.1 = m.1
        else kept ++ m :: ms) = passed p kept m ++ ms := by
      have hsplit : kept ++ m :: ms = kept ++ [m] ++ ms := by simp
      unfold passed
      split_ifs
      · rw [hsplit, List.eraseP_append_left (a := m) (by simp) _ (by simp)]
      · exact hsplit
    rw [List.foldl_cons, deleteOn, List.foldl_cons, hstep]
    exact ih (passed p kept m)

/-- Members of other keys stay when one of a key goes. -/
theorem ofKey_eraseP_of_ne {k l : κ} (hne : l ≠ k) (ms : List (κ × ν)) :
    ofKey k (ms.eraseP fun m => m.1 = l) = ofKey k ms := by
  induction ms with
  | nil => rfl
  | cons m ms ih =>
    by_cases hm : m.1 = l
    · have hk : m.1 ≠ k := hm ▸ hne
      rw [List.eraseP_cons_of_pos (by simpa using hm), ofKey, ofKey,
        List.filter_cons_of_neg (by simpa using hk)]
    · rw [List.eraseP_cons_of_neg (by simpa using hm), ofKey, ofKey, List.filter_cons,
        List.filter_cons]
      unfold ofKey at ih
      rw [ih]

/-- Of every key, as many go from the front as are to go. -/
theorem ofKey_deleteOn (k : κ) (ms kept : List (κ × ν)) :
    ofKey k (ms.foldl (passed p) kept) =
      (ofKey k kept ++ ofKey k ms).drop ((ofKey k ms).countP p) := by
  induction ms generalizing kept with
  | nil => simp [ofKey]
  | cons m ms ih =>
    rw [List.foldl_cons, ih]
    by_cases hk : m.1 = k
    · have hcons : ofKey k (m :: ms) = m :: ofKey k ms := by
        rw [ofKey, List.filter_cons_of_pos (by simpa using hk)]
        rfl
      have hlast : ofKey k (kept ++ [m]) = ofKey k kept ++ [m] := by
        rw [ofKey, List.filter_append, List.filter_singleton]
        simp [ofKey, hk]
      rw [hcons, List.countP_cons]
      by_cases hp : p m = true
      · have hpassed : ofKey k (passed p kept m) = (ofKey k kept ++ [m]).tail := by
          rw [passed, if_pos hp, hk, ofKey, filter_eraseP, ← hlast, ofKey]
        have hlen : 0 < (ofKey k kept ++ [m]).length := by simp
        rw [hpassed, if_pos hp, ← List.drop_one, ← List.drop_append_of_le_length hlen,
          List.drop_drop, List.append_assoc, Nat.add_comm]
        rfl
      · rw [passed, if_neg hp, if_neg hp, hlast, List.append_assoc]
        rfl
    · have hcons : ofKey k (m :: ms) = ofKey k ms := by
        rw [ofKey, List.filter_cons_of_neg (by simpa using hk)]
        rfl
      have hlast : ofKey k (kept ++ [m]) = ofKey k kept := by
        rw [ofKey, List.filter_append, List.filter_singleton]
        simp [ofKey, hk]
      have hpassed : ofKey k (passed p kept m) = ofKey k kept := by
        unfold passed
        split_ifs
        · rw [ofKey_eraseP_of_ne hk, hlast]
        · exact hlast
      rw [hcons, hpassed]

/-- Under every key those to go come first. -/
def GoFirst (p : κ × ν → Bool) (ms : List (κ × ν)) : Prop :=
  ms.Pairwise fun a b => a.1 = b.1 → p b = true → p a = true

/-- Where those to go come first, the walk deletes the members it stands at. -/
theorem passed_of_goFirst {kept : List (κ × ν)} {m : κ × ν} (hkept : ∀ l ∈ kept, p l = false)
    (hfirst : ∀ l ∈ kept, l.1 = m.1 → p m = true → p l = true) :
    passed p kept m = kept ++ [m].filter fun l => !p l := by
  unfold passed
  split_ifs with hp
  · have hnone : ∀ l ∈ kept, ¬decide (l.1 = m.1) = true := by
      intro l hl hkey
      have hgo := hfirst l hl (of_decide_eq_true hkey) hp
      rw [hkept l hl] at hgo
      cases hgo
    rw [List.eraseP_append_right _ hnone, List.eraseP_cons_of_pos (by simp),
      List.filter_singleton, hp]
    rfl
  · rw [List.filter_singleton, Bool.eq_false_of_not_eq_true hp]
    rfl

/-- Then the walk leaves the others, in their order. -/
theorem foldl_passed_of_goFirst {ms kept : List (κ × ν)} (hkept : ∀ l ∈ kept, p l = false)
    (hfirst : ∀ l ∈ kept, ∀ m ∈ ms, l.1 = m.1 → p m = true → p l = true) (h : GoFirst p ms) :
    ms.foldl (passed p) kept = kept ++ ms.filter fun l => !p l := by
  induction ms generalizing kept with
  | nil => exact (List.append_nil kept).symm
  | cons m ms ih =>
    obtain ⟨hm, hms⟩ := List.pairwise_cons.mp h
    have hpassed := passed_of_goFirst hkept fun l hl => hfirst l hl m List.mem_cons_self
    have hmem : ∀ l ∈ [m].filter (fun l => !p l), l = m ∧ p l = false := by
      intro l hl
      obtain ⟨hlm, hpl⟩ := List.mem_filter.mp hl
      exact ⟨List.mem_singleton.mp hlm, by simpa using hpl⟩
    rw [List.foldl_cons, hpassed, ih ?_ ?_ hms, List.append_assoc, ← List.filter_append]
    · rfl
    · intro l hl
      rcases List.mem_append.mp hl with hl | hl
      · exact hkept l hl
      · exact (hmem l hl).2
    · intro l hl m' hm'
      rcases List.mem_append.mp hl with hl | hl
      · exact hfirst l hl m' (List.mem_cons_of_mem m hm')
      · rw [(hmem l hl).1]
        exact hm m' hm'

/-- A list is its own front and rest, so those that pass a test come first
when dropping their number leaves the others. -/
theorem goFirst_of_drop {α : Type*} {q : α → Bool} {l : List α}
    (h : l.drop (l.countP q) = l.filter fun a => !q a) :
    l.Pairwise fun a b => q b = true → q a = true := by
  have hrest : ∀ a ∈ l.drop (l.countP q), q a = false := by
    intro a ha
    rw [h] at ha
    simpa using (List.mem_filter.mp ha).2
  have hcount : (l.take (l.countP q)).countP q = l.countP q := by
    have hsplit : (l.take (l.countP q) ++ l.drop (l.countP q)).countP q =
        (l.take (l.countP q)).countP q + (l.drop (l.countP q)).countP q := List.countP_append
    have hnone : (l.drop (l.countP q)).countP q = 0 := by
      refine List.countP_eq_zero.mpr fun a ha => ?_
      rw [hrest a ha]
      exact Bool.false_ne_true
    rw [List.take_append_drop, hnone, Nat.add_zero] at hsplit
    exact hsplit.symm
  have hfront : ∀ a ∈ l.take (l.countP q), q a = true := by
    refine List.countP_eq_length.mp ?_
    rw [hcount, List.length_take, Nat.min_eq_left List.countP_le_length]
  rw [← List.take_append_drop (l.countP q) l]
  refine List.pairwise_append.mpr ⟨?_, ?_, ?_⟩
  · exact List.pairwise_of_forall_mem_list fun a ha b _ _ => hfront a ha
  · refine List.pairwise_of_forall_mem_list fun a _ b hb hqb => ?_
    rw [hrest b hb] at hqb
    cases hqb
  · exact fun a ha b _ _ => hfront a ha

/-- The walk deletes just those to go exactly when they come first under every key. -/
theorem deleteOn_eq_filter_iff (ms : List (κ × ν)) :
    deleteOn p ms ms = ms.filter (fun m => !p m) ↔ GoFirst p ms := by
  have hwalk : deleteOn p ms ms = ms.foldl (passed p) [] := deleteOn_append ms []
  rw [hwalk]
  constructor
  · intro h
    have hkey : ∀ k, (ofKey k ms).Pairwise fun a b => p b = true → p a = true := by
      intro k
      refine goFirst_of_drop ?_
      have hleft := ofKey_deleteOn (p := p) k ms []
      rw [h] at hleft
      exact hleft.symm.trans (List.filter_comm _ _ ms)
    refine List.pairwise_iff_forall_sublist.mpr fun {a b} hab hkeys hpb => ?_
    have hsub : [a, b].Sublist (ofKey a.1 ms) := by
      have hboth : [a, b].filter (fun m => m.1 = a.1) = [a, b] := by simp [hkeys]
      rw [← hboth]
      exact hab.filter _
    exact List.pairwise_iff_forall_sublist.mp (hkey a.1) hsub hpb
  · intro h
    exact foldl_passed_of_goFirst (by simp) (by simp) h

end Walk

/-! ## What is cleaned away -/

/-- A body is cleaned of masks and of what is not a setting, and of nothing else. -/
structure Cleans (fields : List CJson) (ms left : List (CString × CJson)) : Prop where
  /-- No mask is left under a secret's key. -/
  masks : ∀ m ∈ left, mfFieldIsSecret fields m.1 = true →
    ¬∃ s, m.2 = .string s ∧ mfSecretIsMask s = true
  /-- No action or read-only value is left. -/
  settings : ∀ m ∈ left, mfFieldNotSetting fields m.1 = false
  /-- Every other member is left, in its order. -/
  others : (ms.filter fun m => !cleaned fields m).Sublist left
  /-- Nothing is added. -/
  only : left.Sublist ms

/-- What is to go: what is not a setting, and masks of secrets. -/
theorem cleaned_iff (fields : List CJson) (m : CString × CJson) :
    cleaned fields m = true ↔ mfFieldNotSetting fields m.1 = true ∨
      mfFieldIsSecret fields m.1 = true ∧ ∃ s, m.2 = .string s ∧ mfSecretIsMask s = true := by
  have hmask : m.2.string?.any mfSecretIsMask = true ↔
      ∃ s, m.2 = .string s ∧ mfSecretIsMask s = true := by
    cases m.2 <;> simp [string?]
  rw [cleaned, Bool.or_eq_true, Bool.and_eq_true, hmask]

/-- A body is cleaned when the members left are those that are not to go. -/
theorem cleans_iff (fields : List CJson) (ms left : List (CString × CJson)) :
    Cleans fields ms left ↔ left = ms.filter fun m => !cleaned fields m := by
  constructor
  · intro h
    have hkept : ∀ m ∈ left, (!cleaned fields m) = true := by
      intro m hm
      rw [Bool.not_eq_true', ← Bool.not_eq_true, cleaned_iff]
      rintro (hnot | ⟨hsecret, hmask⟩)
      · rw [h.settings m hm] at hnot
        cases hnot
      · exact h.masks m hm hsecret hmask
    have hsub := h.only.filter fun m => !cleaned fields m
    rw [List.filter_eq_self.mpr hkept] at hsub
    exact hsub.antisymm h.others
  · rintro rfl
    have hkept : ∀ m ∈ ms.filter (fun m => !cleaned fields m), ¬cleaned fields m = true := by
      intro m hm
      simpa using (List.mem_filter.mp hm).2
    constructor
    case masks =>
      intro m hm hsecret hmask
      exact hkept m hm ((cleaned_iff fields m).mpr (Or.inr ⟨hsecret, hmask⟩))
    case settings =>
      intro m hm
      rw [← Bool.not_eq_true]
      exact fun hnot => hkept m hm ((cleaned_iff fields m).mpr (Or.inl hnot))
    case others => exact List.Sublist.refl _
    case only => exact List.filter_sublist

/-- The cleaning is the walk over the members of the body. -/
theorem mfSecretCleanBody_object (fields : List CJson) (ms : List (CString × CJson)) :
    mfSecretCleanBody (.object ms) fields = .object (deleteOn (cleaned fields) ms ms) := by
  have hfold : ∀ few left : List (CString × CJson),
      few.foldl (fun (j : CJson) m => if cleaned fields m then j.deleteCase m.1 else j)
          (.object left) = .object (deleteOn (cleaned fields) few left) := by
    intro few
    induction few with
    | nil => exact fun left => rfl
    | cons m few ih =>
      intro left
      have hstep : (if cleaned fields m = true then (object left).deleteCase m.1 else object left) =
          object (if cleaned fields m = true then left.eraseP (fun l => l.1 = m.1) else left) := by
        split_ifs <;> rfl
      rw [List.foldl_cons, hstep, ih]
      rfl
  exact hfold ms ms

/-- No member that is to go stands behind one of its key that is to stay. -/
def MasksFirst (fields : List CJson) (ms : List (CString × CJson)) : Prop :=
  ∀ before m after, ms = before ++ m :: after → mfFieldNotSetting fields m.1 = false →
    mfFieldIsSecret fields m.1 = true → (∃ s, m.2 = .string s ∧ mfSecretIsMask s = true) →
    ∀ l ∈ before, l.1 = m.1 → ∃ s, l.2 = .string s ∧ mfSecretIsMask s = true

/-- Those to go come first exactly when the masks of every secret do. -/
theorem goFirst_iff (fields : List CJson) (ms : List (CString × CJson)) :
    GoFirst (cleaned fields) ms ↔ MasksFirst fields ms := by
  constructor
  · rintro h before m after rfl hset hsecret hmask l hl hkey
    have hgo := (List.pairwise_append.mp h).2.2 l hl m List.mem_cons_self hkey
      ((cleaned_iff fields m).mpr (Or.inr ⟨hsecret, hmask⟩))
    rcases (cleaned_iff fields l).mp hgo with hnot | ⟨-, hl⟩
    · rw [hkey, hset] at hnot
      cases hnot
    · exact hl
  · intro h
    refine List.pairwise_iff_getElem.mpr fun i j hi hj hij hkey hgo => ?_
    have hsplit : ms = ms.take j ++ ms[j] :: ms.drop (j + 1) := by
      rw [← List.drop_eq_getElem_cons hj, List.take_append_drop]
    have hbefore : ms[i] ∈ ms.take j := List.mem_take_iff_getElem.mpr ⟨i, by omega, rfl⟩
    rw [cleaned_iff, hkey]
    rcases (cleaned_iff fields ms[j]).mp hgo with hnot | ⟨hsecret, hmask⟩
    · exact Or.inl hnot
    · cases hset : mfFieldNotSetting fields ms[j].1 with
      | true => exact Or.inl rfl
      | false => exact Or.inr ⟨hsecret, h _ _ _ hsplit hset hsecret hmask _ hbefore hkey⟩

/-- The cleaning of any object body takes out the masks sent back for secrets
and what is not a setting, and nothing else, exactly when no mask of a secret
stands behind another value of its key. -/
theorem mfSecretCleanBody_cleans_iff (fields : List CJson) (ms : List (CString × CJson)) :
    Cleans fields ms (mfSecretCleanBody (.object ms) fields).members ↔ MasksFirst fields ms := by
  rw [mfSecretCleanBody_object, members_object, cleans_iff, deleteOn_eq_filter_iff, goFirst_iff]

/-- The field list of a module with a secret. -/
def secretFields : List CJson :=
  [.object [(CString.lit "key", .string (CString.lit "textbelt.key")),
    (CString.lit "type", .string (CString.lit "secret"))]]

/-- A new secret, and behind it the mask of the old one. -/
def maskBehind : List (CString × CJson) :=
  [(CString.lit "textbelt.key", .string (CString.lit "new")),
    (CString.lit "textbelt.key", .string (CString.lit "********"))]

/-- The new value goes and the mask stays. -/
theorem maskBehind_stays :
    ¬Cleans secretFields maskBehind (mfSecretCleanBody (.object maskBehind) secretFields).members := by
  intro h
  have hleft : (mfSecretCleanBody (.object maskBehind) secretFields).members =
      [(CString.lit "textbelt.key", .string (CString.lit "********"))] := by
    decide +kernel
  rw [hleft] at h
  exact h.masks _ List.mem_cons_self (by decide +kernel) ⟨_, rfl, by decide +kernel⟩

end MoonFlare.Secrets
