import MoonFlare.SettingsAtomicity
import MoonFlare.SlotConvergence

/-!
# Names and uuids of the slots

Three paths give a slot its name and two give it its uuid. Adding and renaming
check against every slot in use; a configuration is checked against itself and
against the slots it does not mention, and a slot it is about to stop keeps its
old name. The uuids a slot can hold are shorter than those of the
configuration.
-/

namespace MoonFlare.Uniqueness

open KeyedTable Runs Settings

variable {κ ε : Type}

/-- The name of a slot. -/
def slotName (d : Slot κ ε) : CString := d.name.str

/-- No two slots in use share a name or a uuid. -/
structure Unique (t : Fin mfDeviceSlots → Option (Slot κ ε)) : Prop where
  names : Distinct slotName t
  uuids : Distinct slotKey t

/-- What happens to the slot table. -/
inductive Act (ε : Type) where
  | add (name kind driver spec uuidIn : CString) (generated : CBuf 37)
  | putSettings (uuid json : CString)
  | applyConfig (devs : List ConfigDevice)
  | applyPending
  | delete (uuid : CString)
  /-- A round of the thread of slot `i`; it ends a slot that is stopping. -/
  | tick (i : Fin mfDeviceSlots) (e : ε)

/-- One step. -/
def step (dv : Devices κ ε) : Act ε → Devices κ ε
  | .add name kind driver spec uuidIn generated =>
    (mfDevicesAdd dv name kind driver spec uuidIn generated).1
  | .putSettings uuid json => (mfDevicesPutSettings dv uuid json).1
  | .applyConfig devs => (mfDevicesApplyConfig dv devs).1
  | .applyPending => mfDevicesApplyPending dv
  | .delete uuid => (mfDevicesDelete dv uuid).1
  | .tick i e => dv.tick i e

/-! ## The condition -/

/-- The part of a uuid that a slot can hold. -/
def cut (u : CString) : CString := (CBuf.copy 37 u).str

/-- The uuids of the slots in use. -/
def keys (t : Fin mfDeviceSlots → Option (Slot κ ε)) : Set CString :=
  {u | ∃ d, Holds t d ∧ slotKey d = u}

/-- The uuids of the slots and of the modules asked for can be told apart by
the part a slot holds. -/
def ToldApart (dv : Devices κ ε) (asked : Set CString) : Prop :=
  Set.InjOn cut (keys dv.slots ∪ asked)

/-- The uuids of the modules a configuration asks for. -/
def askedBy (devs : List ConfigDevice) : Set CString :=
  {u | ∃ e ∈ devs, e.enabled = true ∧ entryKey e = u}

/-- The uuids of the queued modules. -/
def queued (dv : Devices κ ε) : Set CString := {u | ∃ p, Holds dv.pending p ∧ entryKey p = u}

/-- No slot takes over a name from a slot that does not take over one itself:
that one is to stop, and keeps the name it has. -/
def NamesLeft (dv : Devices κ ε) (devs : List ConfigDevice) : Prop :=
  ∀ d e d', Holds dv.slots d → verdict devs d = .patch e → Holds dv.slots d' →
    slotName d' = e.name.str → ∃ e', verdict devs d' = .patch e'

/-- The condition at each step. A uuid that is generated is in no slot. -/
def Apart (dv : Devices κ ε) : Act ε → Prop
  | .add _ _ _ _ uuidIn generated =>
    if uuidIn.nonempty then ToldApart dv {uuidIn} else generated.str ∉ keys dv.slots
  | .applyConfig devs => validateApply dv devs = none →
    NamesLeft dv devs ∧ ToldApart dv (askedBy devs)
  | .applyPending => ToldApart dv (queued dv)
  | .putSettings _ _ => True
  | .delete _ => True
  | .tick _ _ => True

/-- The slots are told apart, and so is what is queued. -/
structure Inv (dv : Devices κ ε) : Prop where
  slots : Unique dv.slots
  oneQueued : Distinct entryKey dv.pending
  queuedUuid : ∀ p, Holds dv.pending p → (entryKey p).nonempty = true

/-! ## Tables -/

theorem keys_update {t : Fin mfDeviceSlots → Option (Slot κ ε)} {i : Fin mfDeviceSlots}
    {d : Slot κ ε} (hi : t i = none) :
    keys (Function.update t i (some d)) = insert (slotKey d) (keys t) := by
  ext u
  simp only [keys, Set.mem_ofPred_eq, Set.mem_insert_iff, holds_update_of_empty hi]
  constructor
  · rintro ⟨d', rfl | hd', hkey⟩
    · exact Or.inl hkey.symm
    · exact Or.inr ⟨d', hd', hkey⟩
  · rintro (rfl | ⟨d', hd', hkey⟩)
    · exact ⟨d, Or.inl rfl, rfl⟩
    · exact ⟨d', Or.inr hd', hkey⟩

/-- A slot's uuid is what a slot can hold of it. -/
theorem cut_slotKey (d : Slot κ ε) : cut (slotKey d) = slotKey d :=
  congrArg CBuf.str (CBuf.copy_str d.uuid)

theorem cut_cut (u : CString) : cut (cut u) = cut u :=
  congrArg CBuf.str (CBuf.copy_str (CBuf.copy 37 u))

/-- Filling an empty place with a slot of a new name and a new uuid. -/
theorem Unique.update {t : Fin mfDeviceSlots → Option (Slot κ ε)} (h : Unique t)
    {i : Fin mfDeviceSlots} {d : Slot κ ε} (hname : ∀ d', Holds t d' → slotName d' ≠ slotName d)
    (hkey : slotKey d ∉ keys t) : Unique (Function.update t i (some d)) where
  names := distinct_update h.names fun j b hj hb => absurd hb (hname b ⟨j, hj⟩)
  uuids := distinct_update h.uuids fun j b hj hb => absurd ⟨b, ⟨j, hj⟩, hb⟩ hkey

/-- Replacing a slot by one of the same uuid whose name no other slot has. -/
theorem Unique.replace {t : Fin mfDeviceSlots → Option (Slot κ ε)} (h : Unique t)
    {i : Fin mfDeviceSlots} {d d' : Slot κ ε} (hi : t i = some d) (hkey : slotKey d' = slotKey d)
    (hname : ∀ j b, t j = some b → slotName b = slotName d' → j = i) :
    Unique (Function.update t i (some d')) where
  names := distinct_update h.names hname
  uuids := distinct_update h.uuids fun j b hj hb => h.uuids j i b d hj hi (hb.trans hkey)

theorem Unique.clear {t : Fin mfDeviceSlots → Option (Slot κ ε)} (h : Unique t)
    (i : Fin mfDeviceSlots) : Unique (Function.update t i none) :=
  ⟨distinct_update_none h.names i, distinct_update_none h.uuids i⟩

/-- What is told apart by the part a slot holds stays so when one of the
modules asked for gets its slot. -/
theorem injOn_added {K us : Set CString} {u : CString} (h : Set.InjOn cut (K ∪ insert u us))
    (hslot : u ∉ K) (hasked : u ∉ us) : Set.InjOn cut (insert (cut u) K ∪ us) := by
  have hmem (v : CString) (hv : v ∈ K ∪ us) : cut u ≠ cut v := by
    intro heq
    have hin : v ∈ K ∪ insert u us := by
      rcases hv with hv | hv
      · exact Or.inl hv
      · exact Or.inr (Or.inr hv)
    obtain rfl := h (Or.inr (Or.inl rfl)) hin heq
    exact hv.elim hslot hasked
  have hold (v : CString) (hv : v ∈ insert (cut u) K ∪ us) : v = cut u ∨ v ∈ K ∪ us := by
    rcases hv with (hv | hv) | hv
    · exact Or.inl hv
    · exact Or.inr (Or.inl hv)
    · exact Or.inr (Or.inr hv)
  intro v hv w hw heq
  rcases hold v hv with rfl | hv'
  · rcases hold w hw with rfl | hw'
    · rfl
    · exact absurd ((cut_cut u).symm.trans heq) (hmem w hw')
  · rcases hold w hw with rfl | hw'
    · exact absurd ((cut_cut u).symm.trans heq.symm) (hmem v hv')
    · refine h ?_ ?_ heq
      · exact Set.union_subset_union_right K (Set.subset_insert u us) hv'
      · exact Set.union_subset_union_right K (Set.subset_insert u us) hw'

/-! ## Adding a module -/

/-- Opening a slot's plugin keeps what the slot runs. -/
theorem openSlot_shown {historyOpen : Bool} {spec : CString} {d d' : Slot κ ε}
    {samples : List Sample} (h : openSlot historyOpen spec d = .ok (d', samples)) :
    d'.shown = d.shown := by
  unfold openSlot at h
  split at h
  · cases h
    rfl
  · split at h
    · cases h
    · have hd : _ = d' := congrArg Prod.fst (Except.ok.inj h)
      rw [← hd]
      exact (refreshReading_shown historyOpen _).1

/-- A module is added in a free slot under a name and a uuid that were both
free, or the slots stay as they are. The queue stays as it is. -/
theorem mfDevicesAdd_slots (dv : Devices κ ε) (name kind driver spec uuidIn : CString)
    (generated : CBuf 37) :
    (mfDevicesAdd dv name kind driver spec uuidIn generated).1.pending = dv.pending ∧
    ((mfDevicesAdd dv name kind driver spec uuidIn generated).1.slots = dv.slots ∨
      ∃ i d, dv.slots i = none ∧ dv.nameTaken name = false ∧ dv.uuidInUse uuidIn = false ∧
        slotName d = name ∧ d.uuid = (if uuidIn.nonempty then CBuf.copy 37 uuidIn else generated) ∧
        (mfDevicesAdd dv name kind driver spec uuidIn generated).1.slots =
          Function.update dv.slots i (some d)) := by
  unfold mfDevicesAdd
  split
  · exact ⟨rfl, Or.inl rfl⟩
  split
  · exact ⟨rfl, Or.inl rfl⟩
  rename_i hfits
  split
  · exact ⟨rfl, Or.inl rfl⟩
  rename_i hname
  split
  · exact ⟨rfl, Or.inl rfl⟩
  rename_i huuid
  split
  · exact ⟨rfl, Or.inl rfl⟩
  split
  · exact ⟨rfl, Or.inl rfl⟩
  rename_i i hslot
  dsimp only
  split
  · exact ⟨rfl, Or.inl rfl⟩
  rename_i d samples hopen
  have hshown := openSlot_shown hopen
  refine ⟨rfl, Or.inr ⟨i, d, freeSlot_some hslot, by simpa using hname, by simpa using huuid,
    ?_, ?_, rfl⟩⟩
  · exact (congrArg Shown.name hshown).trans (CBuf.str_copy_of_lt (by omega))
  · exact CBuf.ext (congrArg Shown.uuid hshown)

/-- Adding a module keeps names and uuids apart. -/
theorem add_inv {dv : Devices κ ε} (h : Inv dv) {name kind driver spec uuidIn : CString}
    {generated : CBuf 37} (hapart : Apart dv (.add name kind driver spec uuidIn generated)) :
    Inv (mfDevicesAdd dv name kind driver spec uuidIn generated).1 := by
  obtain ⟨hqueue, hslots⟩ := mfDevicesAdd_slots dv name kind driver spec uuidIn generated
  refine ⟨?_, hqueue ▸ h.oneQueued, hqueue ▸ h.queuedUuid⟩
  rcases hslots with hsame | ⟨i, d, hi, hname, huuid, hdname, hduuid, hadded⟩
  · exact hsame ▸ h.slots
  · rw [hadded]
    have hfreeName (d' : Slot κ ε) (hd' : Holds dv.slots d') : slotName d' ≠ slotName d := by
      intro heq
      have htaken := nameTaken_iff.mpr ⟨d', hd', heq.trans hdname⟩
      simp [htaken] at hname
    refine h.slots.update hfreeName fun hused => ?_
    simp only [Apart] at hapart
    cases hgiven : uuidIn.nonempty with
    | false =>
      simp only [hgiven, Bool.false_eq_true, if_false] at hapart hduuid
      exact hapart (hduuid ▸ hused)
    | true =>
      simp only [hgiven, if_true] at hapart hduuid
      obtain ⟨d', hd', hkey⟩ := hused
      have hcut : cut (slotKey d') = cut uuidIn := by
        rw [cut_slotKey, hkey, slotKey, hduuid]
        rfl
      have hsame := hapart (Or.inl ⟨d', hd', rfl⟩) (Or.inr rfl) hcut
      exact (uuidInUse_eq_false hgiven).mp huuid d' hd' hsame

/-- Adding an entry whose uuid is free: names and uuids stay apart, and so do
those of the entries still to come. -/
theorem addFromCfg_unique {dv : Devices κ ε} {e : ConfigDevice} {us : Set CString}
    (h : Unique dv.slots) (hne : (entryKey e).nonempty = true)
    (hfree : dv.uuidInUse e.uuid.str = false)
    (htold : Set.InjOn cut (keys dv.slots ∪ insert (entryKey e) us)) (hother : entryKey e ∉ us) :
    Unique (addFromCfg dv e).1.slots ∧ Set.InjOn cut (keys (addFromCfg dv e).1.slots ∪ us) ∧
      (addFromCfg dv e).1.pending = dv.pending := by
  obtain ⟨hqueue, hslots⟩ := mfDevicesAdd_slots dv e.name.str e.kind.str e.driver.str
    (mfConfigDeviceSerialize e) e.uuid.str (CBuf.zero 37)
  have hnotin : entryKey e ∉ keys dv.slots := by
    rintro ⟨d', hd', hkey⟩
    exact (uuidInUse_eq_false hne).mp hfree d' hd' hkey
  rcases hslots with hsame | ⟨i, d, hi, hname, -, hdname, hduuid, hadded⟩
  · refine ⟨?_, ?_, hqueue⟩
    · rw [addFromCfg, hsame]
      exact h
    · rw [addFromCfg, hsame]
      exact htold.mono (Set.union_subset_union_right _ (Set.subset_insert _ us))
  · have hkey : slotKey d = cut (entryKey e) := by
      have hne' : e.uuid.str.nonempty = true := hne
      rw [slotKey, hduuid, if_pos hne']
      rfl
    refine ⟨?_, ?_, hqueue⟩
    · rw [addFromCfg, hadded]
      refine h.update (fun d' hd' heq => ?_) ?_
      · have htaken := nameTaken_iff.mpr ⟨d', hd', heq.trans hdname⟩
        simp [htaken] at hname
      · rintro ⟨d', hd', hkey'⟩
        have hcut : cut (slotKey d') = cut (entryKey e) := by rw [cut_slotKey, hkey', hkey]
        have hsame := htold (Or.inl ⟨d', hd', rfl⟩) (Or.inr (Or.inl rfl)) hcut
        exact hnotin ⟨d', hd', hsame⟩
    · rw [addFromCfg, hadded, keys_update hi, hkey]
      exact injOn_added htold hnotin hother

/-! ## Renaming -/

/-- A `PUT` of settings leaves a slot its uuid, and its name or one that no
other slot has. -/
theorem putSlot_name (dv : Devices κ ε) (i : Fin mfDeviceSlots) (text : CString) (d : Slot κ ε) :
    (putSlot dv i text d).1.uuid = d.uuid ∧
      ((putSlot dv i text d).1.name = d.name ∨
        dv.nameTakenByOther i (slotName (putSlot dv i text d).1) = false) := by
  have hstored (hfree : ¬NameRefused dv i (handed text)) :
      (stored d (handed text)).name = d.name ∨
        dv.nameTakenByOther i (stored d (handed text)).name.str = false := by
    have hname : (stored d (handed text)).name =
        ((givenName (getCase? (some (handed text)) "name")).map (CBuf.copy 32)).getD d.name := rfl
    rw [hname]
    cases hgiven : givenName (getCase? (some (handed text)) "name") with
    | none => exact Or.inl rfl
    | some n =>
      refine Or.inr ?_
      have hfits : n.length < 32 := by
        by_contra hlong
        exact hfree ⟨n, hgiven, Or.inr (Or.inl (by omega))⟩
      rw [Option.map_some, Option.getD_some, CBuf.str_copy_of_lt hfits]
      cases htaken : dv.nameTakenByOther i n with
      | false => rfl
      | true => exact absurd ⟨n, hgiven, Or.inr (Or.inr htaken)⟩ hfree
  rcases putSlot_cases dv i text d with ⟨hpass, hslot, -⟩ | ⟨hpass, -, g, hslot, hreached⟩
  · rw [hslot]
    exact ⟨rfl, hstored hpass.name⟩
  · rw [hslot]
    refine ⟨rfl, ?_⟩
    have hg : g.name = d.name ∨ ¬NameRefused dv i (handed text) ∧
        g.name = (stored d (handed text)).name := by
      by_cases h1 : ActiveRefused (handed text)
      · exact Or.inl (congrArg Generic.name (hreached.early (Or.inl h1)))
      by_cases h2 : NameRefused dv i (handed text)
      · exact Or.inl (congrArg Generic.name (hreached.early (Or.inr h2)))
      refine Or.inr ⟨h2, ?_⟩
      by_cases h3 : PollRefused d (handed text)
      · exact (congrArg Generic.name (hreached.poll h1 h2 h3)).trans rfl
      by_cases h4 : CaptureRefused d (handed text)
      · exact (congrArg Generic.name (hreached.capture h1 h2 h3 h4)).trans rfl
      by_cases h5 : RetentionRefused d (handed text)
      · exact (congrArg Generic.name (hreached.retention h1 h2 h3 h4 h5)).trans rfl
      · exact absurd ⟨h1, h2, h3, h4, h5⟩ hpass
    rcases hg with hsame | ⟨hfree, hnew⟩
    · exact Or.inl hsame
    · have hslotName : slotName (setGeneric d g) = (stored d (handed text)).name.str :=
        congrArg CBuf.str hnew
      rw [hslotName]
      exact (hstored hfree).imp_left hnew.trans

/-- Changing settings keeps names and uuids apart. -/
theorem putSettings_inv {dv : Devices κ ε} (h : Inv dv) (uuid json : CString) :
    Inv (mfDevicesPutSettings dv uuid json).1 := by
  unfold mfDevicesPutSettings
  split
  · exact h
  rename_i i _
  cases hi : dv.slots i with
  | none => exact h
  | some d =>
    obtain ⟨huuid, hname⟩ := putSlot_name dv i json d
    refine ⟨h.slots.replace hi (congrArg CBuf.str huuid) fun j b hj hb => ?_,
      h.oneQueued, h.queuedUuid⟩
    rcases hname with hsame | hfree
    · exact h.slots.names j i b d hj hi (hb.trans (congrArg CBuf.str hsame))
    · by_contra hji
      refine List.any_eq_false.mp hfree j (List.mem_finRange j) ?_
      rw [hj, Option.any_some, Bool.and_eq_true]
      exact ⟨decide_eq_true hji, decide_eq_true hb⟩

/-! ## Applying a configuration -/

/-- The name and the verdict after the first loop: the entry's for a slot that
keeps running, the old one for a slot that is to stop. -/
theorem applySlot_name {dv : Devices κ ε} {devs : List ConfigDevice}
    (hvalid : ∀ e ∈ devs, EntryValid dv.registry e) (d : Slot κ ε) :
    (∃ e, verdict devs d = .patch e ∧ slotName (applySlot devs d) = e.name.str) ∨
      (∀ e, verdict devs d ≠ .patch e) ∧ slotName (applySlot devs d) = slotName d := by
  unfold applySlot
  cases hv : verdict devs d with
  | retire => exact Or.inr ⟨by simp, rfl⟩
  | reopen e => exact Or.inr ⟨by simp, rfl⟩
  | patch e =>
    have hfits := (hvalid e (verdict_patch hv).1).nameFits
    exact Or.inl ⟨e, rfl, CBuf.str_copy_of_lt hfits⟩

/-- The first loop keeps names apart exactly when no name is taken over from a
slot that keeps it. -/
theorem sweep_unique_iff {dv : Devices κ ε} (h : Unique dv.slots) {devs : List ConfigDevice}
    (hvalid : validateApply dv devs = none) : Unique (sweep devs dv).slots ↔ NamesLeft dv devs := by
  obtain ⟨⟨hentries, hpair⟩, -⟩ := validateApply_eq_none.mp hvalid
  rw [(sweep_frame devs dv).2.2]
  constructor
  · rintro hafter d e d' ⟨i, hi⟩ hv ⟨j, hj⟩ hname
    by_contra hno
    push Not at hno
    have hd : slotName (applySlot devs d) = e.name.str := by
      rcases applySlot_name hentries d with ⟨e', hv', hn⟩ | ⟨hno', -⟩
      · rw [hv, Verdict.patch.injEq] at hv'
        exact hv' ▸ hn
      · exact absurd hv (hno' e)
    have hd' : slotName (applySlot devs d') = slotName d' := by
      rcases applySlot_name hentries d' with ⟨e', hv', -⟩ | ⟨-, hn⟩
      · exact absurd hv' (hno e')
      · exact hn
    have hij : i = j := hafter.names i j (applySlot devs d) (applySlot devs d') (by simp [hi])
      (by simp [hj]) (hd.trans (hd'.trans hname).symm)
    subst hij
    obtain rfl := Option.some.inj (hi.symm.trans hj)
    exact hno e hv
  · intro hleft
    refine ⟨?_, distinct_map h.uuids (applySlot_key devs)⟩
    intro i j a b hi hj hname
    obtain ⟨c, hc, rfl⟩ := Option.map_eq_some_iff.mp hi
    obtain ⟨d, hd, rfl⟩ := Option.map_eq_some_iff.mp hj
    rcases applySlot_name hentries c with ⟨e, hv, hcn⟩ | ⟨hno, hcn⟩
    · rcases applySlot_name hentries d with ⟨e', hv', hdn⟩ | ⟨hno', hdn⟩
      · have hsame : e.name.str = e'.name.str := hcn.symm.trans (hname.trans hdn)
        obtain ⟨hmem, hen, hkey, -⟩ := verdict_patch hv
        obtain ⟨hmem', -, hkey', -⟩ := verdict_patch hv'
        have hne := ((hentries e hmem).required hen).1
        obtain rfl := Convergence.eq_of_name hpair hmem hmem' hne hsame
        exact h.uuids i j c d hc hd (hkey.symm.trans hkey')
      · obtain ⟨e', hv'⟩ := hleft c e d ⟨i, hc⟩ hv ⟨j, hd⟩
          (hdn.symm.trans (hname.symm.trans hcn))
        exact absurd hv' (hno' e')
    · rcases applySlot_name hentries d with ⟨e', hv', hdn⟩ | ⟨-, hdn⟩
      · obtain ⟨e, hv⟩ := hleft d e' c ⟨j, hd⟩ hv' ⟨i, hc⟩
          (hcn.symm.trans (hname.trans hdn))
        exact absurd hv (hno e)
      · exact h.names i j c d hc hd (hcn.symm.trans (hname.trans hdn))

/-- Queueing an entry keeps the queue apart. -/
theorem pendingQueue_inv {dv : Devices κ ε} (h : Inv dv) {e : ConfigDevice}
    (hne : (entryKey e).nonempty = true) : Inv (pendingQueue dv e) := by
  rcases pendingQueue_cases h.oneQueued e with hfull | ⟨t, hput, hdist, hholds⟩
  · rw [hfull]
    exact ⟨h.slots, h.oneQueued, h.queuedUuid⟩
  · rw [hput]
    refine ⟨h.slots, hdist, fun p hp => ?_⟩
    rcases (hholds p).mp hp with rfl | ⟨hp, -⟩
    · exact hne
    · exact h.queuedUuid p hp

/-- The queue after the first loop is apart. -/
theorem sweep_queued {devs : List ConfigDevice}
    (hne : ∀ e ∈ devs, (entryKey e).nonempty = true) {dv : Devices κ ε}
    (hdist : Distinct entryKey dv.pending)
    (hqueued : ∀ p, Holds dv.pending p → (entryKey p).nonempty = true) :
    Distinct entryKey (sweep devs dv).pending ∧
      ∀ p, Holds (sweep devs dv).pending p → (entryKey p).nonempty = true := by
  have hround (dv : Devices κ ε) (i : Fin mfDeviceSlots) (h : Distinct entryKey dv.pending ∧
      ∀ p, Holds dv.pending p → (entryKey p).nonempty = true) :
      Distinct entryKey (applyRound devs dv i).pending ∧
        ∀ p, Holds (applyRound devs dv i).pending p → (entryKey p).nonempty = true := by
    unfold applyRound
    cases dv.slots i with
    | none => exact h
    | some d =>
      change Distinct entryKey (applyQueue devs dv d).pending ∧
        ∀ p, Holds (applyQueue devs dv d).pending p → (entryKey p).nonempty = true
      unfold applyQueue
      cases hv : verdict devs d with
      | patch e => exact h
      | retire =>
        have hkept (p : ConfigDevice) (j : Fin mfDeviceSlots)
            (hp : pendingCancel dv.pending d.uuid.str j = some p) : dv.pending j = some p :=
          (Option.filter_eq_some_iff.mp hp).1
        refine ⟨fun j k a b ha hb hab => h.1 j k a b (hkept a j ha) (hkept b k hb) hab, ?_⟩
        rintro p ⟨j, hj⟩
        exact h.2 p ⟨j, hkept p j hj⟩
      | reopen e =>
        rcases pendingQueue_cases h.1 e with hfull | ⟨t, hput, hdist, hholds⟩
        · dsimp only
          rw [hfull]
          exact h
        · dsimp only
          rw [hput]
          refine ⟨hdist, fun p hp => ?_⟩
          rcases (hholds p).mp hp with rfl | ⟨hp, -⟩
          · exact hne p (verdict_reopen hv).1
          · exact h.2 p hp
  have hrounds (l : List (Fin mfDeviceSlots)) (dv : Devices κ ε)
      (h : Distinct entryKey dv.pending ∧ ∀ p, Holds dv.pending p → (entryKey p).nonempty = true) :
      Distinct entryKey (l.foldl (applyRound devs) dv).pending ∧
        ∀ p, Holds (l.foldl (applyRound devs) dv).pending p → (entryKey p).nonempty = true := by
    induction l generalizing dv with
    | nil => exact h
    | cons i l ih => exact ih _ (hround dv i h)
  exact hrounds _ dv ⟨hdist, hqueued⟩

/-- One entry of the second loop. -/
theorem addRound_inv {dv : Devices κ ε} (h : Inv dv) {e : ConfigDevice} {us : Set CString}
    (hne : (entryKey e).nonempty = true) (hother : entryKey e ∉ us)
    (htold : e.enabled = true → Set.InjOn cut (keys dv.slots ∪ insert (entryKey e) us))
    (hrest : Set.InjOn cut (keys dv.slots ∪ us)) :
    Inv (addRound dv e) ∧ Set.InjOn cut (keys (addRound dv e).slots ∪ us) := by
  unfold addRound
  split
  · exact ⟨h, hrest⟩
  rename_i hen
  split
  · exact ⟨h, hrest⟩
  rename_i hfree
  obtain ⟨hslots, htold', hqueue⟩ := addFromCfg_unique h.slots hne (by simpa using hfree)
    (htold (by simpa using hen)) hother
  have hadded : Inv (addFromCfg dv e).1 :=
    ⟨hslots, hqueue ▸ h.oneQueued, hqueue ▸ h.queuedUuid⟩
  split
  · rename_i dv' err hres
    rw [hres] at hadded htold'
    split
    · exact ⟨pendingQueue_inv hadded hne, (pendingQueue_frame dv' e).1 ▸ htold'⟩
    · exact ⟨hadded, htold'⟩
  · rename_i dv' u hres
    rw [hres] at hadded htold'
    exact ⟨hadded, htold'⟩

/-- The second loop, over entries of distinct uuids. -/
theorem addRounds_inv {devs : List ConfigDevice} {dv : Devices κ ε} (h : Inv dv)
    (hne : ∀ e ∈ devs, (entryKey e).nonempty = true)
    (hpair : devs.Pairwise fun e e' => entryKey e ≠ entryKey e')
    (htold : ToldApart dv (askedBy devs)) : Inv (devs.foldl addRound dv) := by
  induction devs generalizing dv with
  | nil => exact h
  | cons e devs ih =>
    obtain ⟨hother, hpair⟩ := List.pairwise_cons.mp hpair
    have hsub : askedBy devs ⊆ askedBy (e :: devs) := by
      rintro u ⟨e', he', hen, hkey⟩
      exact ⟨e', List.mem_cons_of_mem e he', hen, hkey⟩
    have hnotin : entryKey e ∉ askedBy devs := by
      rintro ⟨e', he', -, hkey⟩
      exact hother e' he' hkey.symm
    have hthis (hen : e.enabled = true) :
        Set.InjOn cut (keys dv.slots ∪ insert (entryKey e) (askedBy devs)) := by
      refine htold.mono (Set.union_subset_union_right _ ?_)
      exact Set.insert_subset ⟨e, List.mem_cons_self, hen, rfl⟩ hsub
    obtain ⟨hnext, htold'⟩ := addRound_inv h (hne e List.mem_cons_self) hnotin hthis
      (htold.mono (Set.union_subset_union_right _ hsub))
    exact ih hnext (fun e' he' => hne e' (List.mem_cons_of_mem e he')) hpair htold'

/-- Applying a configuration keeps names and uuids apart. -/
theorem applyConfig_inv {dv : Devices κ ε} (h : Inv dv) {devs : List ConfigDevice}
    (hapart : Apart dv (.applyConfig devs)) : Inv (mfDevicesApplyConfig dv devs).1 := by
  unfold mfDevicesApplyConfig
  cases hvalid : validateApply dv devs with
  | some err => exact h
  | none =>
    obtain ⟨hnames, htold⟩ := hapart hvalid
    obtain ⟨⟨hentries, hpair⟩, -⟩ := validateApply_eq_none.mp hvalid
    have hne (e : ConfigDevice) (he : e ∈ devs) : (entryKey e).nonempty = true :=
      (hentries e he).uuid
    obtain ⟨hdist, hqueued⟩ := sweep_queued hne h.oneQueued h.queuedUuid
    have hswept : Inv (sweep devs dv) :=
      ⟨(sweep_unique_iff h.slots hvalid).mpr hnames, hdist, hqueued⟩
    have hkeys : keys (sweep devs dv).slots = keys dv.slots := by
      rw [(sweep_frame devs dv).2.2]
      ext u
      constructor
      · rintro ⟨d, ⟨i, hi⟩, rfl⟩
        obtain ⟨c, hc, rfl⟩ := Option.map_eq_some_iff.mp hi
        exact ⟨c, ⟨i, hc⟩, (applySlot_key devs c).symm⟩
      · rintro ⟨d, ⟨i, hi⟩, rfl⟩
        exact ⟨applySlot devs d, ⟨i, by simp [hi]⟩, applySlot_key devs d⟩
    have htold' : ToldApart (sweep devs dv) (askedBy devs) := by
      rw [ToldApart, hkeys]
      exact htold
    exact addRounds_inv hswept hne (hpair.imp fun hc hkey => hc.uuid (CBuf.ext hkey)) htold'

/-! ## The queue, deletes and threads -/

/-- One place of the queue; the places in `l` are still to come. -/
theorem pendingRound_inv {dv : Devices κ ε} (h : Inv dv) {j : Fin mfDeviceSlots}
    {l : List (Fin mfDeviceSlots)} (hj : j ∉ l)
    (htold : ToldApart dv {u | ∃ k ∈ j :: l, ∃ p, dv.pending k = some p ∧ entryKey p = u}) :
    Inv (pendingRound dv j) ∧ ToldApart (pendingRound dv j)
      {u | ∃ k ∈ l, ∃ p, (pendingRound dv j).pending k = some p ∧ entryKey p = u} := by
  have hless : ToldApart dv {u | ∃ k ∈ l, ∃ p, dv.pending k = some p ∧ entryKey p = u} := by
    refine htold.mono (Set.union_subset_union_right _ ?_)
    rintro u ⟨k, hk, p, hp, hkey⟩
    exact ⟨k, List.mem_cons_of_mem j hk, p, hp, hkey⟩
  unfold pendingRound
  cases hp : dv.pending j with
  | none => exact ⟨h, hless⟩
  | some e =>
    dsimp only
    split
    · exact ⟨h, hless⟩
    rename_i hfree
    have hother : entryKey e ∉ {u | ∃ k ∈ l, ∃ p, dv.pending k = some p ∧ entryKey p = u} := by
      rintro ⟨k, hk, p, hp', hkey⟩
      obtain rfl := h.oneQueued k j p e hp' hp hkey
      exact hj hk
    have hthis : Set.InjOn cut (keys dv.slots ∪ insert (entryKey e)
        {u | ∃ k ∈ l, ∃ p, dv.pending k = some p ∧ entryKey p = u}) := by
      refine htold.mono (Set.union_subset_union_right _ (Set.insert_subset ?_ ?_))
      · exact ⟨j, List.mem_cons_self, e, hp, rfl⟩
      · rintro u ⟨k, hk, p, hp', hkey⟩
        exact ⟨k, List.mem_cons_of_mem j hk, p, hp', hkey⟩
    obtain ⟨hslots, htold', hqueue⟩ := addFromCfg_unique h.slots (h.queuedUuid e ⟨j, hp⟩)
      (by simpa using hfree) hthis hother
    have hadded : Inv (addFromCfg dv e).1 :=
      ⟨hslots, hqueue ▸ h.oneQueued, hqueue ▸ h.queuedUuid⟩
    have hcleared (dv' : Devices κ ε) (hinv : Inv dv') (hpending : dv'.pending = dv.pending)
        (htold'' : Set.InjOn cut (keys dv'.slots ∪
          {u | ∃ k ∈ l, ∃ p, dv.pending k = some p ∧ entryKey p = u})) :
        Inv { dv' with pending := Function.update dv'.pending j none } ∧
          ToldApart { dv' with pending := Function.update dv'.pending j none }
            {u | ∃ k ∈ l, ∃ p, Function.update dv'.pending j none k = some p ∧ entryKey p = u} := by
      have hkept (k : Fin mfDeviceSlots) (p : ConfigDevice)
          (hk : Function.update dv'.pending j none k = some p) : dv.pending k = some p := by
        by_cases hkj : k = j
        · subst hkj
          simp at hk
        · rwa [Function.update_of_ne hkj, hpending] at hk
      refine ⟨⟨hinv.slots, distinct_update_none hinv.oneQueued j, ?_⟩, ?_⟩
      · rintro p ⟨k, hk⟩
        exact h.queuedUuid p ⟨k, hkept k p hk⟩
      · refine htold''.mono (Set.union_subset_union_right _ ?_)
        rintro u ⟨k, hk, p, hp', hkey⟩
        exact ⟨k, hk, p, hkept k p hp', hkey⟩
    split
    · rename_i dv' err hres
      rw [hres] at hadded htold' hqueue
      split
      · refine ⟨hadded, ?_⟩
        rw [ToldApart, show dv'.pending = dv.pending from hqueue]
        exact htold'
      · exact hcleared dv' hadded hqueue htold'
    · rename_i dv' u hres
      rw [hres] at hadded htold' hqueue
      exact hcleared dv' hadded hqueue htold'

/-- Retrying the queue keeps names and uuids apart. -/
theorem applyPending_inv {dv : Devices κ ε} (h : Inv dv) (htold : ToldApart dv (queued dv)) :
    Inv (mfDevicesApplyPending dv) := by
  have hrounds (l : List (Fin mfDeviceSlots)) (hl : l.Nodup) (dv : Devices κ ε) (h : Inv dv)
      (htold : ToldApart dv {u | ∃ k ∈ l, ∃ p, dv.pending k = some p ∧ entryKey p = u}) :
      Inv (l.foldl pendingRound dv) := by
    induction l generalizing dv with
    | nil => exact h
    | cons j l ih =>
      obtain ⟨hj, hl⟩ := List.nodup_cons.mp hl
      obtain ⟨hnext, htold'⟩ := pendingRound_inv h hj htold
      exact ih hl _ hnext htold'
  refine hrounds _ (List.nodup_finRange mfDeviceSlots) dv h (htold.mono ?_)
  refine Set.union_subset_union_right _ ?_
  rintro u ⟨k, -, p, hp, hkey⟩
  exact ⟨p, ⟨k, hp⟩, hkey⟩

/-- Deleting a module keeps names and uuids apart. -/
theorem delete_inv {dv : Devices κ ε} (h : Inv dv) (uuid : CString) :
    Inv (mfDevicesDelete dv uuid).1 := by
  unfold mfDevicesDelete
  split
  · exact h
  have hcancelled : Inv { dv with pending := pendingCancel dv.pending uuid } := by
    have hkept (p : ConfigDevice) (j : Fin mfDeviceSlots)
        (hp : pendingCancel dv.pending uuid j = some p) : dv.pending j = some p :=
      (Option.filter_eq_some_iff.mp hp).1
    refine ⟨h.slots, fun j k a b ha hb hab => ?_, ?_⟩
    · exact h.oneQueued j k a b (hkept a j ha) (hkept b k hb) hab
    · rintro p ⟨j, hj⟩
      exact h.queuedUuid p ⟨j, hkept p j hj⟩
  dsimp only
  split
  · exact hcancelled
  · rename_i i hfind
    obtain ⟨d, hd, -⟩ := Devices.findSlot_some hfind
    have hi : dv.slots i = some d := hd
    refine ⟨?_, hcancelled.oneQueued, hcancelled.queuedUuid⟩
    simp only [Devices.setSlot, hi, Option.map_some]
    exact h.slots.replace hi rfl fun j b hj hb => h.slots.names j i b d hj hi hb

/-- A round of a slot's thread keeps names and uuids apart. -/
theorem tick_inv {dv : Devices κ ε} (h : Inv dv) (i : Fin mfDeviceSlots) (e : ε) :
    Inv (dv.tick i e) := by
  unfold Devices.tick
  cases hi : dv.slots i with
  | none => exact h
  | some d =>
    refine ⟨?_, h.oneQueued, h.queuedUuid⟩
    dsimp only [Devices.setSlot]
    cases hstop : d.stop with
    | true =>
      rw [devicePt_stopping hstop]
      exact h.slots.clear i
    | false =>
      obtain ⟨d', hd', -, hshown⟩ := devicePt_live hstop dv.historyOpen e
      rw [hd']
      have hname : slotName d' = slotName d := congrArg Shown.name hshown
      refine h.slots.replace hi (congrArg Shown.uuid hshown) fun j b hj hb => ?_
      exact h.slots.names j i b d hj hi (hb.trans hname)

/-! ## Runs -/

theorem step_inv (dv : Devices κ ε) (a : Act ε) (h : Inv dv) (hapart : Apart dv a) :
    Inv (step dv a) := by
  cases a with
  | add name kind driver spec uuidIn generated => exact add_inv h hapart
  | putSettings uuid json => exact putSettings_inv h uuid json
  | applyConfig devs => exact applyConfig_inv h hapart
  | applyPending => exact applyPending_inv h hapart
  | delete uuid => exact delete_inv h uuid
  | tick i e => exact tick_inv h i e

/-- In every run whose steps meet the condition, names and uuids are unique
among the slots in use after every step. -/
theorem unique_of_apart (registry : Registry κ ε) (historyOpen : Bool) {as : List (Act ε)}
    (hrun : Along step Apart (mfDevicesInit registry historyOpen) as) :
    Always step (fun dv => Unique dv.slots) (mfDevicesInit registry historyOpen) as := by
  have hnone (i j : Fin mfDeviceSlots) (a : Slot κ ε)
      (h : (mfDevicesInit registry historyOpen).slots i = some a) : i = j := by
    simp [mfDevicesInit] at h
  have hinit : Inv (mfDevicesInit registry historyOpen) := by
    refine ⟨⟨fun i j a b ha _ _ => hnone i j a ha, fun i j a b ha _ _ => hnone i j a ha⟩, ?_, ?_⟩
    · intro i j a b ha
      simp [mfDevicesInit] at ha
    · rintro p ⟨j, hj⟩
      simp [mfDevicesInit] at hj
  exact always_of_along step_inv (fun _ h => h.slots) hinit hrun

/-- An entry for a battery of this uuid and name. -/
def battery (uuid name : String) (enabled : Bool) : ConfigDevice :=
  { Convergence.packEntry with
    uuid := CBuf.copy 40 (CString.lit uuid)
    name := CBuf.copy 64 (CString.lit name)
    enabled := enabled }

/-- Uuids that a slot can hold are told apart. -/
theorem toldApart_of_cut {dv : Devices κ ε} {asked : Set CString} (h : ∀ u ∈ asked, cut u = u) :
    ToldApart dv asked := by
  have hcut (u : CString) (hu : u ∈ keys dv.slots ∪ asked) : cut u = u := by
    rcases hu with ⟨d, -, rfl⟩ | hasked
    · exact cut_slotKey d
    · exact h u hasked
  intro u hu v hv heq
  rwa [hcut u hu, hcut v hv] at heq

/-- Two batteries. -/
def pair : List ConfigDevice := [battery "u1" "A" true, battery "u2" "B" true]

/-- The same two, each with the other's name. -/
def swapped : List ConfigDevice := [battery "u1" "B" true, battery "u2" "A" true]

theorem toldApart_askedBy {dv : Devices κ ε} {devs : List ConfigDevice}
    (h : ∀ e ∈ devs, cut (entryKey e) = entryKey e) : ToldApart dv (askedBy devs) := by
  refine toldApart_of_cut ?_
  rintro u ⟨e, he, -, rfl⟩
  exact h e he

/-- Two batteries swap their names, one is deleted, and its thread ends. -/
theorem unique_of_apart_swap :
    Always step (fun dv => Unique dv.slots) (mfDevicesInit Xd.batteryOnly true)
      [.applyConfig pair, .applyConfig swapped, .delete (CString.lit "u1"),
        .tick ⟨0, by decide⟩ ⟨0, true, CString.empty, .needRead⟩] := by
  refine unique_of_apart Xd.batteryOnly true
    ⟨fun _ => ⟨?_, toldApart_askedBy (by decide)⟩, fun _ => ⟨?_, toldApart_askedBy (by decide)⟩,
      trivial, trivial, trivial⟩
  · rintro d e d' ⟨i, hi⟩
    simp [mfDevicesInit] at hi
  · rintro d e d' - - ⟨i, hi⟩ -
    have hpatched : ∀ i, ((step (mfDevicesInit Xd.batteryOnly true)
        (.applyConfig pair)).slots i).all (fun d =>
          decide (∃ e' ∈ swapped, verdict swapped d = .patch e')) = true := by
      decide +kernel
    have hi' := hpatched i
    rw [hi] at hi'
    obtain ⟨e', -, he'⟩ := of_decide_eq_true hi'
    exact ⟨e', he'⟩

/-- A battery takes over the name of one that is disabled in the same
configuration: two slots have the name until the second one's thread ends. -/
theorem name_taken_over :
    ¬Always step (fun dv => Unique dv.slots) (mfDevicesInit Xd.batteryOnly true)
      [.applyConfig [battery "u1" "A" true, battery "u2" "B" true],
        .applyConfig [battery "u1" "B" true, battery "u2" "C" false]] := by
  intro h
  have hnames := h.2.1.names ⟨0, by decide⟩ ⟨1, by decide⟩
  have hslots : ∀ i : Fin mfDeviceSlots, i.val < 2 →
      ((step (step (mfDevicesInit Xd.batteryOnly true)
          (.applyConfig [battery "u1" "A" true, battery "u2" "B" true]))
        (.applyConfig [battery "u1" "B" true, battery "u2" "C" false])).slots i).map slotName =
        some (CString.lit "B") := by
    decide +kernel
  obtain ⟨a, ha, hna⟩ := Option.map_eq_some_iff.mp (hslots ⟨0, by decide⟩ (by decide))
  obtain ⟨b, hb, hnb⟩ := Option.map_eq_some_iff.mp (hslots ⟨1, by decide⟩ (by decide))
  have hsame := hnames a b ha hb (hna.trans hnb.symm)
  exact absurd (congrArg Fin.val hsame) Nat.zero_ne_one

end MoonFlare.Uniqueness
