import MoonFlare.Textbelt

/-!
# Lists of recipients

A list is split at commas and semicolons and every entry is read as a phone number. An entry
is copied into 64 bytes before it is trimmed, so a longer one is read by its first 63 bytes.
A list is read as its entries say exactly when that changes no entry, or when it is refused
either way.
-/

namespace MoonFlare.Textbelt

open CJson

/-! ## Entries -/

/-- What an entry comes to. -/
inductive Entry where
  | blank
  | refused
  | number (phone : CBuf 20)
  deriving DecidableEq

/-- The entries of a list, as they stand in it. -/
def listItems (list : CString) : List Bytes := list.bytes.splitOnP fun b => b == 44 || b == 59

/-- A whole entry without the white space at its ends. -/
def trimWhole (item : Bytes) : CString :=
  CString.ofBytes ((item.dropWhile Double.isSpace).rdropWhile Double.isSpace)

/-- A trimmed entry, read as a number. -/
def entryOf (s : CString) : Entry :=
  if s.nonempty then
    match tbPhoneNorm s with
    | some phone => .number phone
    | none => .refused
  else .blank

/-- The number of an entry. -/
def Entry.number? : Entry → Option (CBuf 20)
  | .number phone => some phone
  | _ => none

/-- The numbers of some entries, in their order. -/
def numbers (entries : List Entry) : List (CBuf 20) := entries.filterMap Entry.number?

/-- An entry is no number, or there are too many numbers. -/
def Refused (max : ℕ) (entries : List Entry) : Prop :=
  Entry.refused ∈ entries ∨ max < (numbers entries).length

instance (max : ℕ) (entries : List Entry) : Decidable (Refused max entries) := by
  unfold Refused
  infer_instance

/-- What a list of entries gives. -/
def given (max : ℕ) (entries : List Entry) : Option (List (CBuf 20)) :=
  if Refused max entries then none else some (numbers entries)

theorem given_eq_none {max : ℕ} {entries : List Entry} :
    given max entries = none ↔ Refused max entries := by
  unfold given
  split <;> simp_all

/-- Reading entries one after another gives what the whole of them gives. -/
theorem foldlM_given {α ε : Type} (max : ℕ) (entry : α → Entry)
    {step : List (CBuf 20) → α → Except ε (List (CBuf 20))}
    (hblank : ∀ out a, entry a = .blank → step out a = .ok out)
    (hnumber : ∀ out a phone, entry a = .number phone → out.length < max →
      step out a = .ok (out ++ [phone]))
    (hroom : ∀ out a phone, entry a = .number phone → max ≤ out.length →
      ∃ e, step out a = .error e)
    (hrefused : ∀ out a, entry a = .refused → ∃ e, step out a = .error e)
    (as : List α) (out : List (CBuf 20)) (hout : out.length ≤ max) (result : List (CBuf 20)) :
    as.foldlM step out = .ok result ↔
      Entry.refused ∉ as.map entry ∧ out.length + (numbers (as.map entry)).length ≤ max ∧
        result = out ++ numbers (as.map entry) := by
  induction as generalizing out with
  | nil =>
    simp only [List.foldlM_nil, List.map_nil, numbers, List.filterMap_nil, List.append_nil]
    constructor
    · rintro h
      cases h
      exact ⟨by simp, by simpa using hout, rfl⟩
    · rintro ⟨-, -, rfl⟩
      rfl
  | cons a as ih =>
    rw [List.foldlM_cons, List.map_cons]
    cases hentry : entry a with
    | blank =>
      have hnumbers : numbers (Entry.blank :: as.map entry) = numbers (as.map entry) := rfl
      have h := ih out hout
      rw [hblank out a hentry, hnumbers, List.mem_cons]
      simp only [reduceCtorEq, false_or]
      exact h
    | refused =>
      obtain ⟨e, he⟩ := hrefused out a hentry
      rw [he]
      constructor
      · intro h
        cases h
      · rintro ⟨hnot, -⟩
        simp at hnot
    | number phone =>
      have hnumbers : numbers (Entry.number phone :: as.map entry) =
          phone :: numbers (as.map entry) := rfl
      rw [hnumbers]
      by_cases hfull : max ≤ out.length
      · obtain ⟨e, he⟩ := hroom out a phone hentry hfull
        rw [he]
        constructor
        · intro h
          cases h
        · rintro ⟨-, hlen, -⟩
          simp only [List.length_cons] at hlen
          omega
      · have hlen : (out ++ [phone]).length ≤ max := by
          simp only [List.length_append, List.length_cons, List.length_nil]
          omega
        have h := ih (out ++ [phone]) hlen
        rw [hnumber out a phone hentry (by omega)]
        simp only [List.length_append, List.length_cons, List.length_nil, List.append_assoc,
          List.singleton_append, List.mem_cons, reduceCtorEq, false_or] at h ⊢
        have hadd : out.length + ((numbers (as.map entry)).length + 1) =
            out.length + (0 + 1) + (numbers (as.map entry)).length := by omega
        rw [hadd]
        exact h

/-- Some entries give a list when none is refused and there is room for all. -/
theorem given_eq_some {max : ℕ} {entries : List Entry} {out : List (CBuf 20)} :
    given max entries = some out ↔
      Entry.refused ∉ entries ∧ (numbers entries).length ≤ max ∧ out = numbers entries := by
  unfold given
  split
  · next h =>
    constructor
    · intro h'
      cases h'
    · rintro ⟨hnot, hle, -⟩
      rcases h with h | h
      · exact absurd h hnot
      · omega
  · next h =>
    unfold Refused at h
    push Not at h
    simp only [Option.some.injEq, h.1, not_false_eq_true, h.2, true_and, eq_comm]

/-! ## The two forms of a list -/

/-- The entries as `tb_recipients` reads them. -/
def cutEntries (list : CString) : List Entry :=
  (listItems list).map fun item => entryOf (trimmed item)

/-- The entries, each read as a whole. -/
def wholeEntries (list : CString) : List Entry :=
  (listItems list).map fun item => entryOf (trimWhole item)

/-- The entries that are not blank, whole and trimmed. -/
def wholeTexts (list : CString) : List CString :=
  ((listItems list).map trimWhole).filter fun s => s.nonempty

theorem entryOf_blank {s : CString} (h : entryOf s = .blank) : s.nonempty = false := by
  unfold entryOf at h
  split at h
  · split at h <;> cases h
  · next hempty => simpa using hempty

theorem entryOf_number {s : CString} {phone : CBuf 20} (h : entryOf s = .number phone) :
    s.nonempty = true ∧ tbPhoneNorm s = some phone := by
  unfold entryOf at h
  split at h
  · next hne =>
    split at h
    · next p hp =>
      cases h
      exact ⟨hne, hp⟩
    · cases h
  · cases h

theorem entryOf_refused {s : CString} (h : entryOf s = .refused) :
    s.nonempty = true ∧ tbPhoneNorm s = none := by
  unfold entryOf at h
  split at h
  · next hne =>
    split at h
    · cases h
    · next hp => exact ⟨hne, hp⟩
  · cases h

/-- What a list gives. -/
theorem tbRecipients_eq (list : CString) (max : ℕ) (out : List (CBuf 20)) :
    tbRecipients list max = .ok out ↔ given max (cutEntries list) = some out := by
  rw [given_eq_some]
  unfold tbRecipients cutEntries
  refine (foldlM_given max (fun item => entryOf (trimmed item)) ?_ ?_ ?_ ?_ _ [] (by simp)
    out).trans ?_
  · intro out item h
    simp [entryOf_blank h]
  · intro out item phone h hlt
    obtain ⟨hne, hphone⟩ := entryOf_number h
    simp [hne, hphone, Nat.not_le.mpr hlt]
  · intro out item phone h hle
    obtain ⟨hne, -⟩ := entryOf_number h
    exact ⟨CString.lit "too many numbers", by simp [hne, hle]⟩
  · intro out item h
    obtain ⟨hne, hphone⟩ := entryOf_refused h
    by_cases hle : max ≤ out.length
    · exact ⟨CString.lit "too many numbers", by simp [hne, hle]⟩
    · exact ⟨trimmed item, by simp [hne, hphone, hle]⟩
  · simp only [List.length_nil, Nat.zero_add, List.nil_append]
    rfl

/-- A text of an array, read as a number whatever it is. -/
def arrayEntry (s : CString) : Entry :=
  match tbPhoneNorm s with
  | some phone => .number phone
  | none => .refused

/-- What an array of texts gives. -/
theorem notifyTo_array (texts : List CString) (out : List (CBuf 20)) :
    notifyTo (some (.array (texts.map CJson.string))) = .ok out ↔
      given tbToMax (texts.map arrayEntry) = some out := by
  rw [given_eq_some]
  unfold notifyTo
  dsimp only
  rw [List.foldlM_map]
  refine (foldlM_given tbToMax arrayEntry ?_ ?_ ?_ ?_ _ [] (by simp) out).trans ?_
  · intro out s h
    unfold arrayEntry at h
    split at h <;> cases h
  · intro out s phone h hlt
    have hphone : tbPhoneNorm s = some phone := by
      unfold arrayEntry at h
      split at h
      · next p hp =>
        cases h
        exact hp
      · cases h
    simp [CJson.string?, hphone, Nat.not_le.mpr hlt]
  · intro out s phone _ hle
    exact ⟨_, if_pos hle⟩
  · intro out s h
    have hphone : tbPhoneNorm s = none := by
      unfold arrayEntry at h
      split at h
      · cases h
      · next hp => exact hp
    by_cases hle : tbToMax ≤ out.length
    · exact ⟨_, if_pos hle⟩
    · refine ⟨CString.lit "not a phone number: " ++ s.take 60, ?_⟩
      simp [CJson.string?, hphone, hle]
  · simp only [List.length_nil, Nat.zero_add, List.nil_append]

/-- A list in a text is read for as many numbers as a notification may go to. -/
theorem notifyTo_string (list : CString) (out : List (CBuf 20)) :
    notifyTo (some (.string list)) = .ok out ↔ tbRecipients list tbToMax = .ok out := by
  unfold notifyTo toParse
  dsimp only
  cases tbRecipients list tbToMax with
  | ok numbers => exact Iff.rfl
  | error bad =>
    constructor
    · intro h
      cases h
    · intro h
      cases h

/-- Blank entries apart, a list and an array of its whole entries give the same. -/
theorem given_wholeTexts (max : ℕ) (list : CString) :
    given max ((wholeTexts list).map arrayEntry) = given max (wholeEntries list) := by
  have hsame : ∀ s : CString, s.nonempty = true → arrayEntry s = entryOf s := by
    intro s hs
    unfold arrayEntry entryOf
    rw [if_pos hs]
  have hnumbers : ∀ texts : List CString,
      numbers ((texts.filter fun s => s.nonempty).map arrayEntry) = numbers (texts.map entryOf) ∧
        (Entry.refused ∈ (texts.filter fun s => s.nonempty).map arrayEntry ↔
          Entry.refused ∈ texts.map entryOf) := by
    intro texts
    induction texts with
    | nil => exact ⟨rfl, Iff.rfl⟩
    | cons s texts ih =>
      cases hs : s.nonempty with
      | true =>
        rw [List.filter_cons_of_pos hs, List.map_cons, List.map_cons, hsame s hs]
        refine ⟨?_, ?_⟩
        · unfold numbers at ih ⊢
          rw [List.filterMap_cons, List.filterMap_cons, ih.1]
        · rw [List.mem_cons, List.mem_cons, ih.2]
      | false =>
        have hblank : entryOf s = .blank := by
          unfold entryOf
          rw [hs]
          rfl
        rw [List.filter_cons_of_neg (by simp [hs]), List.map_cons, hblank]
        refine ⟨ih.1, ?_⟩
        rw [ih.2, List.mem_cons]
        simp
  obtain ⟨hnums, hrefused⟩ := hnumbers ((listItems list).map trimWhole)
  have hwhole : ((listItems list).map trimWhole).map entryOf = wholeEntries list := by
    rw [List.map_map]
    rfl
  rw [hwhole] at hnums hrefused
  have hiff : Refused max ((wholeTexts list).map arrayEntry) ↔ Refused max (wholeEntries list) := by
    unfold Refused wholeTexts
    rw [hrefused, hnums]
  unfold given
  simp only [hiff]
  rw [show numbers ((wholeTexts list).map arrayEntry) = numbers (wholeEntries list) from hnums]

/-! ## When a list is read as it says -/

/-- A list gives its numbers when every entry that is not blank is one, whole and trimmed,
and there are at most `max` of them; else it gives none. -/
def ReadsAs (list : CString) (max : ℕ) : Prop :=
  ∀ out, tbRecipients list max = .ok out ↔
    (∀ s ∈ wholeTexts list, (tbPhoneNorm s).isSome = true) ∧ (wholeTexts list).length ≤ max ∧
      out = (wholeTexts list).filterMap tbPhoneNorm

/-- A list and the array of its entries give the same numbers. -/
def ArrayAgrees (list : CString) : Prop :=
  ∀ out, notifyTo (some (.string list)) = .ok out ↔
    notifyTo (some (.array ((wholeTexts list).map CJson.string))) = .ok out

/-- No entry of more than 63 bytes comes to something else than its first 63 bytes do,
or the list is refused by its cut entries and by its whole ones. -/
def ReadAlike (list : CString) (max : ℕ) : Prop :=
  (∀ item ∈ listItems list, 63 < item.length → entryOf (trimmed item) = entryOf (trimWhole item)) ∨
    Refused max (cutEntries list) ∧ Refused max (wholeEntries list)

/-- What a list of whole entries gives, entry for entry. -/
theorem given_arrayEntry {max : ℕ} {texts : List CString} {out : List (CBuf 20)} :
    given max (texts.map arrayEntry) = some out ↔
      (∀ s ∈ texts, (tbPhoneNorm s).isSome = true) ∧ texts.length ≤ max ∧
        out = texts.filterMap tbPhoneNorm := by
  have hnumbers : numbers (texts.map arrayEntry) = texts.filterMap tbPhoneNorm := by
    unfold numbers
    rw [List.filterMap_map]
    refine List.filterMap_congr fun s _ => ?_
    simp only [Function.comp_apply, arrayEntry]
    cases tbPhoneNorm s <;> rfl
  have hrefused : Entry.refused ∉ texts.map arrayEntry ↔
      ∀ s ∈ texts, (tbPhoneNorm s).isSome = true := by
    simp only [List.mem_map, not_exists, not_and]
    refine forall₂_congr fun s _ => ?_
    unfold arrayEntry
    cases tbPhoneNorm s <;> simp
  rw [given_eq_some, hrefused, hnumbers]
  refine and_congr_right fun hall => and_congr_left fun _ => ?_
  have hlen : (texts.filterMap tbPhoneNorm).length = texts.length :=
    List.filterMap_length_eq_length.mpr hall
  rw [hlen]

/-- The bytes of an entry are bytes of the list. -/
theorem mem_of_mem_listItems {list : CString} {item : Bytes} (h : item ∈ listItems list) {b : UInt8}
    (hb : b ∈ item) : b ∈ list.bytes := by
  unfold listItems at h
  generalize list.bytes = bytes at h ⊢
  induction bytes generalizing item with
  | nil =>
    rw [List.splitOnP_nil, List.mem_singleton] at h
    rw [h] at hb
    exact hb
  | cons c bytes ih =>
    rw [List.splitOnP_cons_eq_if_modifyHead] at h
    split at h
    · rcases List.mem_cons.mp h with rfl | h
      · cases hb
      · exact List.mem_cons_of_mem _ (ih hb h)
    · cases hrest : bytes.splitOnP (fun b => b == 44 || b == 59) with
      | nil => exact absurd hrest (List.splitOnP_ne_nil _ _)
      | cons first rest =>
        rw [hrest, List.modifyHead_cons] at h
        rcases List.mem_cons.mp h with rfl | h
        · rcases List.mem_cons.mp hb with rfl | hb
          · exact List.mem_cons_self
          · exact List.mem_cons_of_mem _ (ih hb (by rw [hrest]; exact List.mem_cons_self))
        · exact List.mem_cons_of_mem _ (ih hb (by rw [hrest]; exact List.mem_cons_of_mem _ h))

/-- What is trimmed to nothing is white space. -/
theorem isSpace_of_blank {item : Bytes} (hnul : (0 : UInt8) ∉ item)
    (h : (trimWhole item).nonempty = false) : ∀ b ∈ item, Double.isSpace b = true := by
  rw [← List.dropWhile_eq_nil_iff]
  by_contra hne
  have hhead := List.head_dropWhile_not Double.isSpace hne
  have hkept : (item.dropWhile Double.isSpace).rdropWhile Double.isSpace ≠ [] := by
    rw [ne_eq, List.rdropWhile_eq_nil_iff]
    intro hall
    rw [hall _ (List.head_mem hne)] at hhead
    cases hhead
  have hbytes : (trimWhole item).bytes =
      (item.dropWhile Double.isSpace).rdropWhile Double.isSpace := by
    refine CString.bytes_ofBytes ?_
    intro hzero
    have hmem : 0 ∈ item := (List.dropWhile_sublist _).mem ((List.rdropWhile_prefix _ _).mem hzero)
    exact hnul hmem
  unfold CString.nonempty at h
  rw [hbytes] at h
  simp only [Bool.not_eq_false', List.isEmpty_iff] at h
  exact hkept h

/-- An entry that is blank as a whole is blank when it is cut. -/
theorem blank_of_blank {item : Bytes} (hnul : (0 : UInt8) ∉ item)
    (h : entryOf (trimWhole item) = .blank) : entryOf (trimmed item) = .blank := by
  have hall := isSpace_of_blank hnul (entryOf_blank h)
  have hdrop : (item.take 63).dropWhile Double.isSpace = [] :=
    List.dropWhile_eq_nil_iff.mpr fun b hb => hall b (List.mem_of_mem_take hb)
  unfold entryOf trimmed
  rw [hdrop]
  rfl

/-- Entries that give the same numbers are the same, when none is refused and what is
blank as a whole is blank when cut. -/
theorem entries_eq {α : Type} {f g : α → Entry} {as : List α}
    (hblank : ∀ a ∈ as, g a = .blank → f a = .blank)
    (hf : Entry.refused ∉ as.map f) (hg : Entry.refused ∉ as.map g) :
    (numbers (as.map f)).length ≤ (numbers (as.map g)).length ∧
      (numbers (as.map f) = numbers (as.map g) → ∀ a ∈ as, f a = g a) := by
  induction as with
  | nil => exact ⟨le_rfl, fun _ a ha => by cases ha⟩
  | cons a as ih =>
    rw [List.map_cons, List.mem_cons, not_or] at hf hg
    obtain ⟨hle, hsame⟩ := ih (fun b hb => hblank b (List.mem_cons_of_mem _ hb)) hf.2 hg.2
    have hself := hblank a List.mem_cons_self
    rw [List.map_cons, List.map_cons]
    cases hga : g a with
    | refused => exact absurd hga.symm hg.1
    | blank =>
      rw [hself hga]
      refine ⟨hle, fun heq b hb => ?_⟩
      rcases List.mem_cons.mp hb with rfl | hb
      · rw [hself hga, hga]
      · exact hsame heq b hb
    | number phone =>
      cases hfa : f a with
      | refused => exact absurd hfa.symm hf.1
      | blank =>
        have hlen : (numbers (Entry.number phone :: as.map g)).length =
            (numbers (as.map g)).length + 1 := rfl
        refine ⟨?_, fun heq => ?_⟩
        · change (numbers (as.map f)).length ≤ _
          omega
        · have hcount : (numbers (as.map f)).length =
              (numbers (Entry.number phone :: as.map g)).length := congrArg List.length heq
          omega
      | number phone' =>
        refine ⟨Nat.succ_le_succ hle, fun heq b hb => ?_⟩
        obtain ⟨hphone, hrest⟩ := List.cons.inj heq
        rcases List.mem_cons.mp hb with rfl | hb
        · rw [hfa, hga, hphone]
        · exact hsame hrest b hb

/-- The cut entries give what the whole ones do exactly when they are read alike. -/
theorem given_cut_iff (list : CString) (max : ℕ) :
    given max (cutEntries list) = given max (wholeEntries list) ↔ ReadAlike list max := by
  have hshort : ∀ item : Bytes, item.length ≤ 63 → trimmed item = trimWhole item := by
    intro item hlen
    unfold trimmed trimWhole
    rw [List.take_of_length_le hlen]
  constructor
  · intro heq
    cases hgiven : given max (wholeEntries list) with
    | none =>
      rw [hgiven] at heq
      exact Or.inr ⟨given_eq_none.mp heq, given_eq_none.mp hgiven⟩
    | some out =>
      rw [hgiven] at heq
      obtain ⟨hcut, -, hcutOut⟩ := given_eq_some.mp heq
      obtain ⟨hwhole, -, hwholeOut⟩ := given_eq_some.mp hgiven
      have hblank : ∀ item ∈ listItems list, entryOf (trimWhole item) = .blank →
          entryOf (trimmed item) = .blank := by
        intro item hitem
        exact blank_of_blank fun hzero => list.noNul (mem_of_mem_listItems hitem hzero)
      have hsame := (entries_eq hblank hcut hwhole).2 (hcutOut.symm.trans hwholeOut)
      exact Or.inl fun item hitem _ => hsame item hitem
  · rintro (halike | ⟨hcut, hwhole⟩)
    · have hsame : cutEntries list = wholeEntries list := by
        refine List.map_congr_left fun item hitem => ?_
        by_cases hlong : 63 < item.length
        · exact halike item hitem hlong
        · rw [hshort item (by omega)]
      rw [hsame]
    · rw [given_eq_none.mpr hcut, given_eq_none.mpr hwhole]

/-- A list is read as it says, and as the array of its entries, exactly when its long
entries come to the same cut and whole or it is refused either way. -/
theorem tbRecipients_reads_iff (list : CString) (max : ℕ) :
    (ReadsAs list max ↔ ReadAlike list max) ∧ (ArrayAgrees list ↔ ReadAlike list tbToMax) := by
  have hiff : ∀ a b : Option (List (CBuf 20)), (∀ out, a = some out ↔ b = some out) ↔ a = b :=
    fun a b => ⟨fun h => Option.ext h, fun h out => by rw [h]⟩
  constructor
  · rw [← given_cut_iff, ← hiff]
    refine forall_congr' fun out => ?_
    rw [tbRecipients_eq, ← given_wholeTexts, given_arrayEntry]
  · rw [← given_cut_iff, ← hiff]
    refine forall_congr' fun out => ?_
    rw [notifyTo_string, tbRecipients_eq, notifyTo_array, given_wholeTexts]

/-- A number, 53 spaces and a digit: as a whole no number, cut another one. -/
def longEntry : CString :=
  CString.ofBytes (ascii "2125550100" ++ List.replicate 53 32 ++ ascii "9")

/-- The digit behind the 63 bytes is lost, and a number that was not meant is taken. -/
theorem long_entry_taken :
    tbRecipients longEntry tbToMax = .ok [CBuf.copy 20 (CString.lit "2125550100")] ∧
      wholeTexts longEntry = [longEntry] ∧ tbPhoneNorm longEntry = none ∧
      notifyTo (some (.array [.string longEntry])) ≠
        .ok [CBuf.copy 20 (CString.lit "2125550100")] := by
  have hok : (tbRecipients longEntry tbToMax).toOption =
      some [CBuf.copy 20 (CString.lit "2125550100")] := by decide +kernel
  have harray : (notifyTo (some (.array [.string longEntry]))).toOption = none := by
    decide +kernel
  refine ⟨?_, by decide +kernel, by decide +kernel, ?_⟩
  · cases hresult : tbRecipients longEntry tbToMax with
    | ok out =>
      rw [hresult] at hok
      rw [Option.some.inj hok]
    | error e =>
      rw [hresult] at hok
      cases hok
  · intro heq
    rw [heq] at harray
    cases harray

end MoonFlare.Textbelt
