import MoonFlare.SlotConvergence

/-!
# Applying a configuration again

A slot records the identity of its module from the entry's serialised spec, cut to
the slot's own buffers. When the configuration whose modules run is applied again,
the slots are compared with the entries; nothing is stopped or opened when every
entry fits the slot's buffers and nothing is queued.
-/

namespace MoonFlare.Reapply

open KeyedTable Convergence

variable {κ ε : Type}

/-- The slot `mf_devices_add` fills in for an entry. -/
def recorded (e : ConfigDevice) : Slot κ ε :=
  newSlot none e.name.str e.kind.str e.driver.str (mfConfigDeviceSerialize e)
    (CBuf.copy 37 e.uuid.str)

/-- A slot has the identity recorded for an entry. -/
structure Opened (e : ConfigDevice) (d : Slot κ ε) : Prop where
  uuid : d.uuid = (recorded e : Slot κ ε).uuid
  kind : d.kind = (recorded e : Slot κ ε).kind
  driver : d.driver = (recorded e : Slot κ ε).driver
  bus : d.bus = (recorded e : Slot κ ε).bus
  endpoint : d.endpoint = (recorded e : Slot κ ε).endpoint

instance (e : ConfigDevice) (d : Slot κ ε) : Decidable (Opened e d) :=
  decidable_of_iff (d.uuid = (recorded e : Slot κ ε).uuid ∧ d.kind = (recorded e : Slot κ ε).kind ∧
      d.driver = (recorded e : Slot κ ε).driver ∧ d.bus = (recorded e : Slot κ ε).bus ∧
      d.endpoint = (recorded e : Slot κ ε).endpoint)
    ⟨fun ⟨h1, h2, h3, h4, h5⟩ => ⟨h1, h2, h3, h4, h5⟩,
      fun h => ⟨h.uuid, h.kind, h.driver, h.bus, h.endpoint⟩⟩

/-- What tells whether a slot was stopped or opened. -/
def running (d : Slot κ ε) : Bool × CBuf 37 × Option κ := (d.stop, d.uuid, d.ctx)

/-- Applying a configuration stops no slot, opens none, queues nothing and returns
0. -/
structure NoOp (dv : Devices κ ε) (devs : List ConfigDevice) : Prop where
  result : (mfDevicesApplyConfig dv devs).2 = .ok false
  slots : ∀ i, ((mfDevicesApplyConfig dv devs).1.slots i).map running = (dv.slots i).map running
  queue : (mfDevicesApplyConfig dv devs).1.pending = dv.pending

/-- An entry fits the buffers of a slot. -/
structure Short (e : ConfigDevice) : Prop where
  uuid : e.uuid.str.length < 37
  kind : e.kind.str.length < 16
  driver : e.driver.str.length < 16

/-- The module of an entry can be opened in a free slot. -/
def CanOpen (dv : Devices κ ε) (e : ConfigDevice) : Prop :=
  dv.freeSlot.isSome = true ∧
    ∃ r, openSlot dv.historyOpen (mfConfigDeviceSerialize e)
      (newSlot (mfPluginsFind dv.registry e.kind.str e.driver.str) e.name.str e.kind.str e.driver.str
        (mfConfigDeviceSerialize e) (CBuf.copy 37 e.uuid.str)) = .ok r

/-- Nothing is queued, every slot in use is one of an enabled entry that fits, and
an enabled entry whose uuid does not fit cannot be opened. -/
structure Repeatable (dv : Devices κ ε) (devs : List ConfigDevice) : Prop where
  queue : ∀ j, dv.pending j = none
  slots : ∀ d, Holds dv.slots d → ∃ e ∈ devs, e.enabled = true ∧ Opened e d ∧ Short e
  entries : ∀ e ∈ devs, e.enabled = true → e.uuid.str.length < 37 ∨ ¬CanOpen dv e

/-! ## Identities -/

theorem copy_eq_self_iff {cap : ℕ} [NeZero cap] {s : CString} :
    (CBuf.copy cap s).str = s ↔ s.length < cap := by
  constructor
  · intro h
    have hfits := (CBuf.copy cap s).fits
    rwa [h] at hfits
  · exact CBuf.str_copy_of_lt

/-- The identity recorded from the spec is the entry's, cut to the slot's
buffers. -/
theorem recorded_identity (e : ConfigDevice) :
    (recorded e : Slot κ ε).kind = CBuf.copy 16 e.kind.str ∧
      (recorded e : Slot κ ε).driver = CBuf.copy 16 e.driver.str ∧
      (recorded e : Slot κ ε).bus = e.bus ∧
      (recorded e : Slot κ ε).endpoint = mfConfigDeviceEndpoint e :=
  ⟨rfl, rfl, (identityFromSpec_serialize e twoSeconds).1, (identityFromSpec_serialize e twoSeconds).2⟩

/-- A slot's identity is that of its entry exactly when the entry's kind and driver
fit. -/
theorem identityChanged_opened {e : ConfigDevice} {d : Slot κ ε} (h : Opened e d) :
    identityChanged d e = false ↔ e.kind.str.length < 16 ∧ e.driver.str.length < 16 := by
  obtain ⟨hkind, hdriver, hbus, hendpoint⟩ := recorded_identity (κ := κ) (ε := ε) e
  have hk : d.kind = CBuf.copy 16 e.kind.str := h.kind.trans hkind
  have hd : d.driver = CBuf.copy 16 e.driver.str := h.driver.trans hdriver
  have hb : d.bus = e.bus := h.bus.trans hbus
  have he : d.endpoint = mfConfigDeviceEndpoint e := h.endpoint.trans hendpoint
  rw [identityChanged, hk, hd, hb, he]
  simp only [decide_true, Bool.and_true, Bool.not_eq_false', Bool.and_eq_true, decide_eq_true_iff,
    copy_eq_self_iff]

/-- A slot whose identity is that of an entry of its uuid was opened for it, and the
entry fits. -/
theorem opened_of_same {e : ConfigDevice} {d : Slot κ ε} (hkey : entryKey e = slotKey d)
    (hsame : identityChanged d e = false) : Opened e d ∧ Short e := by
  simp only [identityChanged, Bool.not_eq_false', Bool.and_eq_true, decide_eq_true_eq] at hsame
  obtain ⟨⟨⟨hkind, hdriver⟩, hbus⟩, hendpoint⟩ := hsame
  obtain ⟨-, -, hbus', hendpoint'⟩ := recorded_identity (κ := κ) (ε := ε) e
  have huuid : d.uuid.str = e.uuid.str := hkey.symm
  refine ⟨⟨?_, ?_, ?_, (CBuf.ext hbus).trans hbus'.symm, hendpoint.trans hendpoint'.symm⟩, ?_, ?_, ?_⟩
  · exact CBuf.ext (huuid.trans (CBuf.str_copy_of_lt (huuid ▸ d.uuid.fits)).symm)
  · exact CBuf.ext (hkind.trans (CBuf.str_copy_of_lt (hkind ▸ d.kind.fits)).symm)
  · exact CBuf.ext (hdriver.trans (CBuf.str_copy_of_lt (hdriver ▸ d.driver.fits)).symm)
  · exact huuid ▸ d.uuid.fits
  · exact hkind ▸ d.kind.fits
  · exact hdriver ▸ d.driver.fits

theorem slotKey_opened {e : ConfigDevice} {d : Slot κ ε} (h : Opened e d)
    (hshort : e.uuid.str.length < 37) : slotKey d = entryKey e := by
  rw [slotKey, h.uuid]
  exact CBuf.str_copy_of_lt hshort

/-! ## The rounds of the second loop -/

/-- What a round of the second loop can do to the table: slots in use stay, and
entries in the queue stay there or are replaced. -/
structure Grows (dv dv' : Devices κ ε) : Prop where
  registry : dv'.registry = dv.registry
  historyOpen : dv'.historyOpen = dv.historyOpen
  slots : ∀ i d, dv.slots i = some d → dv'.slots i = some d
  queue : ∀ j, (dv.pending j).isSome = true → (dv'.pending j).isSome = true

theorem Grows.refl (dv : Devices κ ε) : Grows dv dv := ⟨rfl, rfl, fun _ _ h => h, fun _ h => h⟩

theorem Grows.trans {dv dv' dv'' : Devices κ ε} (h : Grows dv dv') (h' : Grows dv' dv'') :
    Grows dv dv'' :=
  ⟨h'.registry.trans h.registry, h'.historyOpen.trans h.historyOpen,
    fun i d hd => h'.slots i d (h.slots i d hd), fun j hj => h'.queue j (h.queue j hj)⟩

theorem pendingQueue_grows (dv : Devices κ ε) (e : ConfigDevice) : Grows dv (pendingQueue dv e) := by
  unfold pendingQueue
  split
  · next j hplace =>
    refine ⟨rfl, rfl, fun _ _ h => h, fun k hk => ?_⟩
    by_cases hkj : k = j
    · subst hkj
      simp
    · simpa [Function.update_of_ne hkj] using hk
  · exact ⟨rfl, rfl, fun _ _ h => h, fun _ h => h⟩

/-- The queue is not empty once an entry was put into it. -/
theorem pendingQueue_some (dv : Devices κ ε) (e : ConfigDevice) :
    ∃ j, ((pendingQueue dv e).pending j).isSome = true := by
  unfold pendingQueue
  cases hplace : pendingPlace dv.pending e.uuid.str with
  | some j => exact ⟨j, by simp⟩
  | none =>
    rw [pendingPlace, Option.or_eq_none_iff, List.find?_eq_none, List.find?_eq_none] at hplace
    have hused := hplace.2 ⟨0, by decide⟩ (List.mem_finRange _)
    refine ⟨⟨0, by decide⟩, ?_⟩
    simpa [Option.isSome_iff_ne_none] using hused

theorem mfDevicesAdd_grows (dv : Devices κ ε) (name kind driver spec uuidIn : CString)
    (generated : CBuf 37) : Grows dv (mfDevicesAdd dv name kind driver spec uuidIn generated).1 := by
  unfold mfDevicesAdd
  split
  · exact Grows.refl dv
  split
  · exact Grows.refl dv
  split
  · exact Grows.refl dv
  split
  · exact Grows.refl dv
  split
  · exact Grows.refl dv
  split
  · exact ⟨rfl, rfl, fun _ _ h => h, fun _ h => h⟩
  next i hslot =>
    dsimp only
    split
    · exact Grows.refl dv
    · refine ⟨rfl, rfl, fun j d hd => ?_, fun _ h => h⟩
      have hne : j ≠ i := by
        rintro rfl
        rw [freeSlot_some hslot] at hd
        cases hd
      exact (Function.update_of_ne hne _ _).trans hd

theorem addRound_grows (dv : Devices κ ε) (e : ConfigDevice) : Grows dv (addRound dv e) := by
  have hadd : Grows dv (addFromCfg dv e).1 := mfDevicesAdd_grows ..
  unfold addRound
  split
  · exact Grows.refl dv
  split
  · exact Grows.refl dv
  · cases hcase : addFromCfg dv e with
    | mk dv' r =>
      rw [hcase] at hadd
      cases r with
      | ok u => exact hadd
      | error err =>
        dsimp only
        split
        · exact hadd.trans (pendingQueue_grows dv' e)
        · exact hadd

theorem addRounds_grows (dv : Devices κ ε) (devs : List ConfigDevice) :
    Grows dv (devs.foldl addRound dv) := by
  induction devs generalizing dv with
  | nil => exact Grows.refl dv
  | cons e devs ih => exact (addRound_grows dv e).trans (ih (addRound dv e))

/-- A table that cannot tell the difference keeps the free slots. -/
theorem freeSlot_congr {dv dv' : Devices κ ε}
    (h : ∀ i, (dv'.slots i).isSome = (dv.slots i).isSome) : dv'.freeSlot = dv.freeSlot := by
  rw [Devices.freeSlot, Devices.freeSlot]
  refine congrArg (List.find? · _) (funext fun i => ?_)
  rw [← Option.not_isSome, ← Option.not_isSome, h i]

/-- An entry whose uuid is in no slot and whose module can be opened takes a slot or
a place in the queue. -/
theorem addRound_takes {dv : Devices κ ε} {e : ConfigDevice} (henabled : e.enabled = true)
    (hvalid : EntryValid dv.registry e) (hunused : dv.uuidInUse e.uuid.str = false)
    (hopen : CanOpen dv e) :
    (∃ i, dv.slots i = none ∧ ((addRound dv e).slots i).isSome = true) ∨
      ∃ j, ((addRound dv e).pending j).isSome = true := by
  obtain ⟨hname, hkind, hdriver⟩ := hvalid.required henabled
  obtain ⟨hfree, ⟨d, samples⟩, hslot⟩ := hopen
  obtain ⟨i, hi⟩ := Option.isSome_iff_exists.mp hfree
  have hknown : ¬(dv.registry ≠ [] ∧ (mfPluginsFind dv.registry e.kind.str e.driver.str).isNone) := by
    rintro ⟨hne, hnone⟩
    rcases hvalid.known henabled with hempty | hsome
    · exact hne hempty
    · rw [Option.isNone_iff_eq_none] at hnone
      rw [hnone] at hsome
      cases hsome
  unfold addRound
  rw [if_neg (by simp [henabled]), hunused, if_neg Bool.false_ne_true, addFromCfg, mfDevicesAdd,
    if_neg (by simp [hname, hkind, hdriver]), if_neg (by have := hvalid.nameFits; omega)]
  by_cases htaken : dv.nameTaken e.name.str = true
  · rw [if_pos htaken]
    exact .inr (pendingQueue_some dv e)
  · rw [if_neg htaken, hunused, if_neg Bool.false_ne_true, if_neg hknown, hi, if_pos hvalid.uuid]
    dsimp only
    rw [hslot]
    exact .inl ⟨i, freeSlot_some hi, by simp [Devices.setSlot]⟩

/-- A uuid that no slot can hold is in none. -/
theorem uuidInUse_of_long {dv : Devices κ ε} {u : CString} (hlong : ¬u.length < 37) :
    dv.uuidInUse u = false := by
  rw [Devices.uuidInUse, Bool.and_eq_false_iff]
  refine .inr (Devices.anySlot_eq_false.mpr fun i d _ => decide_eq_false fun heq => ?_)
  exact hlong (heq ▸ d.uuid.fits)

/-- An entry whose uuid no slot can hold and whose module can be opened makes the
second loop take a slot or a place in the queue. -/
theorem addRounds_takes {dv : Devices κ ε} {devs : List ConfigDevice} {e : ConfigDevice}
    (he : e ∈ devs) (henabled : e.enabled = true) (hvalid : EntryValid dv.registry e)
    (hlong : ¬e.uuid.str.length < 37) (hopen : CanOpen dv e) :
    (∃ i, dv.slots i = none ∧ ((devs.foldl addRound dv).slots i).isSome = true) ∨
      ∃ j, ((devs.foldl addRound dv).pending j).isSome = true := by
  obtain ⟨before, after, rfl⟩ := List.append_of_mem he
  rw [List.foldl_append, List.foldl_cons]
  have hbefore := addRounds_grows dv before
  have hround := addRound_grows (before.foldl addRound dv) e
  have hafter := addRounds_grows (addRound (before.foldl addRound dv) e) after
  have hkept {dv dv' : Devices κ ε} (h : Grows dv dv') {i : Fin mfDeviceSlots}
      (hi : (dv.slots i).isSome = true) : (dv'.slots i).isSome = true := by
    obtain ⟨d, hd⟩ := Option.isSome_iff_exists.mp hi
    rw [h.slots i d hd]
    rfl
  by_cases htaken : ∃ i, dv.slots i = none ∧ ((before.foldl addRound dv).slots i).isSome = true
  · obtain ⟨i, hnone, hi⟩ := htaken
    exact .inl ⟨i, hnone, hkept (hround.trans hafter) hi⟩
  · push Not at htaken
    have hsame (i : Fin mfDeviceSlots) :
        ((before.foldl addRound dv).slots i).isSome = (dv.slots i).isSome := by
      cases hi : dv.slots i with
      | none => exact Bool.not_eq_true _ ▸ htaken i hi
      | some d => exact hkept hbefore (by rw [hi]; rfl)
    have hopen' : CanOpen (before.foldl addRound dv) e := by
      rwa [CanOpen, freeSlot_congr hsame, hbefore.registry, hbefore.historyOpen]
    rcases addRound_takes henabled (hbefore.registry ▸ hvalid) (uuidInUse_of_long hlong) hopen' with
      ⟨i, hnone, hi⟩ | ⟨j, hj⟩
    · refine .inl ⟨i, ?_, hkept hafter hi⟩
      rw [← Option.not_isSome_iff_eq_none, ← hsame i, hnone]
      simp
    · exact .inr ⟨j, hafter.queue j hj⟩

/-! ## Applying again -/

/-- The configuration stands by itself, and no slot of another module is in its
way. -/
theorem validateApply_of_slots {dv : Devices κ ε} {devs : List ConfigDevice}
    (hvalid : validateEntries dv.registry devs = none)
    (hslots : ∀ d, Holds dv.slots d → ∃ e ∈ devs, e.uuid.str = d.uuid.str ∧ d.uuid.str.nonempty = true) :
    validateApply dv devs = none := by
  rw [validateApply_eq_none]
  refine ⟨validateEntries_eq_none.mp hvalid, fun e _ _ => ?_⟩
  rw [Devices.anySlot_eq_false]
  intro i d hd
  obtain ⟨e', he', huuid, hne⟩ := hslots d ⟨i, hd⟩
  have hany : devs.any (fun e => decide (e.uuid.str = d.uuid.str)) = true :=
    List.any_eq_true.mpr ⟨e', he', decide_eq_true huuid⟩
  rw [blocks, hany, hne]
  simp

/-- Slots that are all patched: the first loop leaves the queue as it is. -/
theorem sweep_of_patched {dv : Devices κ ε} {devs : List ConfigDevice}
    (hpatch : ∀ d, Holds dv.slots d → ∃ e, verdict devs d = .patch e) :
    (sweep devs dv).pending = dv.pending ∧ (sweep devs dv).historyOpen = dv.historyOpen := by
  have hrounds (l : List (Fin mfDeviceSlots)) (hl : l.Nodup) (dv' : Devices κ ε)
      (hslots : ∀ i ∈ l, ∀ d, dv'.slots i = some d → ∃ e, verdict devs d = .patch e) :
      (l.foldl (applyRound devs) dv').pending = dv'.pending ∧
        (l.foldl (applyRound devs) dv').historyOpen = dv'.historyOpen := by
    induction l generalizing dv' with
    | nil => exact ⟨rfl, rfl⟩
    | cons i l ih =>
      obtain ⟨hi, hl⟩ := List.nodup_cons.mp hl
      have hsame : (applyRound devs dv' i).pending = dv'.pending ∧
          (applyRound devs dv' i).historyOpen = dv'.historyOpen := by
        unfold applyRound
        cases hd : dv'.slots i with
        | none => exact ⟨rfl, rfl⟩
        | some d =>
          obtain ⟨e, he⟩ := hslots i List.mem_cons_self d hd
          dsimp only
          rw [applyQueue, he]
          exact ⟨rfl, rfl⟩
      obtain ⟨hpending, hopen⟩ := ih hl (applyRound devs dv' i) fun j hj d hd => by
        have hji : j ≠ i := by
          rintro rfl
          exact hi hj
        rw [(applyRound_frame devs dv' i).2.2] at hd
        simp only [hji, if_false] at hd
        exact hslots j (List.mem_cons_of_mem i hj) d hd
      exact ⟨hpending.trans hsame.1, hopen.trans hsame.2⟩
  exact hrounds _ (List.nodup_finRange mfDeviceSlots) dv fun i _ d hd => hpatch d ⟨i, hd⟩

/-- A round for an entry whose uuid is in no slot, whose name is free and whose
module cannot be opened. -/
theorem addRound_of_cannot {dv : Devices κ ε} {e : ConfigDevice} (henabled : e.enabled = true)
    (hvalid : EntryValid dv.registry e) (hunused : dv.uuidInUse e.uuid.str = false)
    (hname : dv.nameTaken e.name.str = false) (hcannot : ¬CanOpen dv e) :
    (addRound dv e).slots = dv.slots ∧ (addRound dv e).pending = dv.pending ∧
      (addRound dv e).registry = dv.registry ∧ (addRound dv e).historyOpen = dv.historyOpen := by
  obtain ⟨hsome, hkind, hdriver⟩ := hvalid.required henabled
  have hknown : ¬(dv.registry ≠ [] ∧ (mfPluginsFind dv.registry e.kind.str e.driver.str).isNone) := by
    rintro ⟨hne, hnone⟩
    rcases hvalid.known henabled with hempty | hsome
    · exact hne hempty
    · rw [Option.isNone_iff_eq_none] at hnone
      rw [hnone] at hsome
      cases hsome
  unfold addRound
  rw [if_neg (by simp [henabled]), hunused, if_neg Bool.false_ne_true, addFromCfg, mfDevicesAdd,
    if_neg (by simp [hsome, hkind, hdriver]), if_neg (by have := hvalid.nameFits; omega), hname,
    if_neg Bool.false_ne_true, hunused, if_neg Bool.false_ne_true, if_neg hknown]
  cases hfree : dv.freeSlot with
  | none => exact ⟨rfl, rfl, rfl, rfl⟩
  | some i =>
    rw [if_pos hvalid.uuid]
    dsimp only
    cases hopen : openSlot dv.historyOpen (mfConfigDeviceSerialize e)
        (newSlot (mfPluginsFind dv.registry e.kind.str e.driver.str) e.name.str e.kind.str
          e.driver.str (mfConfigDeviceSerialize e) (CBuf.copy 37 e.uuid.str)) with
    | ok r => exact absurd ⟨by rw [hfree]; rfl, r, hopen⟩ hcannot
    | error err =>
      have herr : err.code ≠ -3 := by
        unfold openSlot at hopen
        split at hopen
        · cases hopen
        · split at hopen
          · cases hopen
            exact (by decide : (-5 : ℤ) ≠ -3)
          · cases hopen
      dsimp only
      rw [if_neg herr]
      exact ⟨rfl, rfl, rfl, rfl⟩

/-- Every slot has the verdict that the condition gives it. -/
theorem verdict_of_repeatable {devs : List ConfigDevice}
    (hpairs : devs.Pairwise Compatible) {e : ConfigDevice} (he : e ∈ devs)
    (henabled : e.enabled = true) {d : Slot κ ε} (hopened : Opened e d) (hshort : Short e) :
    verdict devs d = .patch e := by
  have hsame := (identityChanged_opened hopened).mpr ⟨hshort.kind, hshort.driver⟩
  rw [verdict_of_enabled hpairs he henabled (slotKey_opened hopened hshort.uuid), hsame,
    if_neg Bool.false_ne_true]

/-- What the rounds of the second loop must find in the table so that they leave it
alone: the slots and the free places of before, and names of short entries only. -/
structure Patched (dv : Devices κ ε) (devs : List ConfigDevice) (dv' : Devices κ ε) : Prop where
  registry : dv'.registry = dv.registry
  historyOpen : dv'.historyOpen = dv.historyOpen
  queue : dv'.pending = dv.pending
  slots : ∀ i, dv'.slots i = (dv.slots i).map (applySlot devs)
  named : ∀ d, Holds dv'.slots d → ∃ e ∈ devs, d.name.str = e.name.str ∧ Short e

theorem Patched.canOpen {dv dv' : Devices κ ε} {devs : List ConfigDevice} {e : ConfigDevice}
    (h : Patched dv devs dv') : CanOpen dv' e ↔ CanOpen dv e := by
  have hfree : dv'.freeSlot = dv.freeSlot :=
    freeSlot_congr fun i => by rw [h.slots, Option.isSome_map]
  rw [CanOpen, CanOpen, hfree, h.registry, h.historyOpen]

/-- The first loop leaves the table patched. -/
theorem patched_sweep {dv : Devices κ ε} {devs : List ConfigDevice}
    (hvalid : validateEntries dv.registry devs = none) (hrep : Repeatable dv devs) :
    Patched dv devs (sweep devs dv) := by
  obtain ⟨hentries, hpairs⟩ := validateEntries_eq_none.mp hvalid
  obtain ⟨hregistry, -, hslots⟩ := sweep_frame devs dv
  have hpatch : ∀ d, Holds dv.slots d → ∃ e, verdict devs d = .patch e := by
    intro d hd
    obtain ⟨e, he, henabled, hopened, hshort⟩ := hrep.slots d hd
    exact ⟨e, verdict_of_repeatable hpairs he henabled hopened hshort⟩
  obtain ⟨hqueue, hopen⟩ := sweep_of_patched hpatch
  refine ⟨hregistry, hopen, hqueue, congrFun hslots, ?_⟩
  rintro d' ⟨i, hi⟩
  rw [hslots] at hi
  obtain ⟨d, hd, rfl⟩ := Option.map_eq_some_iff.mp hi
  obtain ⟨e, he, henabled, hopened, hshort⟩ := hrep.slots d ⟨i, hd⟩
  refine ⟨e, he, ?_, hshort⟩
  rw [applySlot, verdict_of_repeatable hpairs he henabled hopened hshort]
  exact CBuf.str_copy_of_lt (hentries e he).nameFits

/-- A round of the second loop leaves the table patched. -/
theorem Patched.addRound {dv dv' : Devices κ ε} {devs : List ConfigDevice} {e : ConfigDevice}
    (h : Patched dv devs dv') (hvalid : validateEntries dv.registry devs = none)
    (hopened : ∀ e ∈ devs, e.enabled = true → ∃ d, Holds dv.slots d ∧ Opened e d)
    (hrep : Repeatable dv devs) (he : e ∈ devs) : Patched dv devs (addRound dv' e) := by
  obtain ⟨hentries, hpairs⟩ := validateEntries_eq_none.mp hvalid
  cases henabled : e.enabled with
  | false =>
    have hsame : MoonFlare.addRound dv' e = dv' := by
      rw [MoonFlare.addRound, henabled]
      rfl
    rwa [hsame]
  | true =>
    by_cases hshort : e.uuid.str.length < 37
    · obtain ⟨d, ⟨i, hi⟩, hd⟩ := hopened e he henabled
      have huse : dv'.uuidInUse e.uuid.str = true := by
        refine (uuidInUse_iff (hentries e he).uuid).mpr ⟨applySlot devs d, ⟨i, ?_⟩, ?_⟩
        · rw [h.slots, hi]
          rfl
        · exact (applySlot_key devs d).trans (slotKey_opened hd hshort)
      have hsame : MoonFlare.addRound dv' e = dv' := by
        rw [MoonFlare.addRound, henabled, huse]
        rfl
      rwa [hsame]
    · have hcannot := (hrep.entries e he henabled).resolve_left hshort
      have hname : dv'.nameTaken e.name.str = false := by
        rw [← Bool.not_eq_true, nameTaken_iff]
        rintro ⟨d, hd, hdname⟩
        obtain ⟨e', he', hname', hshort'⟩ := h.named d hd
        obtain rfl := eq_of_name hpairs he he' ((hentries e he).required henabled).1
          (hdname.symm.trans hname')
        exact hshort hshort'.uuid
      obtain ⟨hslots, hqueue, hregistry, hopen⟩ := addRound_of_cannot henabled
        (h.registry ▸ hentries e he) (uuidInUse_of_long hshort) hname (h.canOpen.not.mpr hcannot)
      exact ⟨hregistry.trans h.registry, hopen.trans h.historyOpen, hqueue.trans h.queue,
        fun i => by rw [hslots, h.slots], by rw [hslots]; exact h.named⟩

/-- The second loop leaves the table patched. -/
theorem patched_addRounds {dv dv' : Devices κ ε} {devs l : List ConfigDevice}
    (h : Patched dv devs dv') (hvalid : validateEntries dv.registry devs = none)
    (hopened : ∀ e ∈ devs, e.enabled = true → ∃ d, Holds dv.slots d ∧ Opened e d)
    (hrep : Repeatable dv devs) (hl : ∀ e ∈ l, e ∈ devs) :
    Patched dv devs (l.foldl addRound dv') := by
  induction l generalizing dv' with
  | nil => exact h
  | cons e l ih =>
    exact ih (h.addRound hvalid hopened hrep (hl e List.mem_cons_self)) fun e' he' =>
      hl e' (List.mem_cons_of_mem e he')

/-- Under the condition nothing happens. -/
theorem noOp_of_repeatable {dv : Devices κ ε} {devs : List ConfigDevice}
    (hvalid : validateEntries dv.registry devs = none)
    (hlive : ∀ d, Holds dv.slots d → d.stop = false)
    (hopened : ∀ e ∈ devs, e.enabled = true → ∃ d, Holds dv.slots d ∧ Opened e d)
    (hrep : Repeatable dv devs) : NoOp dv devs := by
  obtain ⟨hentries, hpairs⟩ := validateEntries_eq_none.mp hvalid
  have haccepted : validateApply dv devs = none :=
    validateApply_of_slots hvalid fun d hd => by
      obtain ⟨e, he, -, hd, hshort⟩ := hrep.slots d hd
      have hkey : d.uuid.str = e.uuid.str := slotKey_opened hd hshort.uuid
      exact ⟨e, he, hkey.symm, hkey ▸ (hentries e he).uuid⟩
  have hrunning (d : Slot κ ε) (hd : Holds dv.slots d) : running (applySlot devs d) = running d := by
    obtain ⟨e, he, henabled, hd, hshort⟩ := hrep.slots d hd
    rw [applySlot, verdict_of_repeatable hpairs he henabled hd hshort]
    rfl
  have hend : Patched dv devs (applyAccepted dv devs) :=
    patched_addRounds (patched_sweep hvalid hrep) hvalid hopened hrep fun _ he => he
  have hresult : mfDevicesApplyConfig dv devs =
      (applyAccepted dv devs, .ok (applyAccepted dv devs).applyPendingLeft) := by
    rw [mfDevicesApplyConfig, haccepted]
  refine ⟨?_, fun i => ?_, ?_⟩
  · rw [hresult]
    refine congrArg Except.ok ?_
    rw [Devices.applyPendingLeft, Bool.or_eq_false_iff, hend.queue]
    refine ⟨Devices.anySlot_eq_false.mpr fun i d' hd' => ?_, ?_⟩
    · rw [hend.slots] at hd'
      obtain ⟨d, hd, rfl⟩ := Option.map_eq_some_iff.mp hd'
      exact (congrArg Prod.fst (hrunning d ⟨i, hd⟩)).trans (hlive d ⟨i, hd⟩)
    · simp [hrep.queue]
  · rw [hresult]
    dsimp only
    rw [hend.slots]
    cases hd : dv.slots i with
    | none => rfl
    | some d => exact congrArg some (hrunning d ⟨i, hd⟩)
  · rw [hresult]
    exact hend.queue

/-- When nothing happens, the condition holds. -/
theorem repeatable_of_noOp {dv : Devices κ ε} {devs : List ConfigDevice}
    (hvalid : validateEntries dv.registry devs = none) (hnoop : NoOp dv devs) :
    Repeatable dv devs := by
  obtain ⟨hentries, -⟩ := validateEntries_eq_none.mp hvalid
  obtain ⟨hresult, hrunning, hqueue⟩ := hnoop
  cases haccepted : validateApply dv devs with
  | some err =>
    rw [mfDevicesApplyConfig, haccepted] at hresult
    cases hresult
  | none =>
    rw [mfDevicesApplyConfig, haccepted] at hresult hrunning hqueue
    dsimp only at hresult hrunning hqueue
    have hleft := Except.ok.inj hresult
    rw [Devices.applyPendingLeft, Bool.or_eq_false_iff] at hleft
    obtain ⟨hdying, hpending⟩ := hleft
    have hempty (j : Fin mfDeviceSlots) : (applyAccepted dv devs).pending j = none := by
      have hj := List.any_eq_false.mp hpending j (List.mem_finRange j)
      simpa using hj
    have hgrows : Grows (sweep devs dv) (applyAccepted dv devs) := addRounds_grows _ devs
    obtain ⟨hregistry, -, hslots⟩ := sweep_frame devs dv
    have hsame (d : Slot κ ε) (hd : Holds dv.slots d) :
        ∃ e, verdict devs d = .patch e := by
      obtain ⟨i, hi⟩ := hd
      have hend : (applyAccepted dv devs).slots i = some (applySlot devs d) :=
        hgrows.slots i _ (by simp only [hslots, hi, Option.map_some])
      have hstop := Devices.anySlot_eq_false.mp hdying i _ hend
      cases hverdict : verdict devs d with
      | retire =>
        rw [applySlot, hverdict] at hstop
        cases hstop
      | reopen e =>
        rw [applySlot, hverdict] at hstop
        cases hstop
      | patch e => exact ⟨e, rfl⟩
    refine ⟨fun j => by rw [← hqueue, hempty], fun d hd => ?_, fun e he henabled => ?_⟩
    · obtain ⟨e, hverdict⟩ := hsame d hd
      obtain ⟨he, henabled, hkey, hid⟩ := verdict_patch hverdict
      exact ⟨e, he, henabled, opened_of_same hkey hid⟩
    · by_contra hcon
      obtain ⟨hlong, hopen⟩ := not_or.mp hcon
      obtain ⟨-, hopened⟩ := sweep_of_patched hsame
      have hfree : (sweep devs dv).freeSlot = dv.freeSlot :=
        freeSlot_congr fun i => by rw [hslots, Option.isSome_map]
      have hopen' : CanOpen (sweep devs dv) e := by
        rw [CanOpen, hfree, hregistry, hopened]
        exact not_not.mp hopen
      rcases addRounds_takes he henabled (hregistry ▸ hentries e he) hlong hopen' with
        ⟨i, hi, htaken⟩ | ⟨j, hj⟩
      · have hnone : dv.slots i = none := by
          rw [hslots] at hi
          exact Option.map_eq_none_iff.mp hi
        have hempty := hrunning i
        rw [hnone, Option.map_none, Option.map_eq_none_iff] at hempty
        rw [show devs.foldl addRound (sweep devs dv) = applyAccepted dv devs from rfl, hempty] at htaken
        cases htaken
      · rw [show devs.foldl addRound (sweep devs dv) = applyAccepted dv devs from rfl, hempty] at hj
        cases hj

/-- The bus and the endpoint a slot has from the spec are always its entry's, and its
kind and driver are when they fit. Applying a configuration again whose enabled
modules are open and none of them stopping does nothing exactly under the
condition. -/
theorem reapply_noOp_iff {dv : Devices κ ε} {devs : List ConfigDevice}
    (hvalid : validateEntries dv.registry devs = none)
    (hlive : ∀ d, Holds dv.slots d → d.stop = false)
    (hopened : ∀ e ∈ devs, e.enabled = true → ∃ d, Holds dv.slots d ∧ Opened e d) :
    (∀ e ∈ devs, ∀ d, Holds dv.slots d → Opened e d →
      d.bus = e.bus ∧ d.endpoint = mfConfigDeviceEndpoint e ∧
        (identityChanged d e = false ↔ e.kind.str.length < 16 ∧ e.driver.str.length < 16)) ∧
      (NoOp dv devs ↔ Repeatable dv devs) := by
  refine ⟨fun e _ d _ hd => ?_, repeatable_of_noOp hvalid,
    noOp_of_repeatable hvalid hlive hopened⟩
  obtain ⟨-, -, hbus, hendpoint⟩ := recorded_identity (κ := κ) (ε := ε) e
  exact ⟨hd.bus.trans hbus, hd.endpoint.trans hendpoint, identityChanged_opened hd⟩

/-- The slots after a configuration of one battery in an empty table. -/
def runningOf (e : ConfigDevice) : Devices Xd.XdCtx Xd.XdEnv :=
  (mfDevicesApplyConfig (mfDevicesInit Xd.batteryOnly true) [e]).1

theorem live_of_anyDying {dv : Devices κ ε} (h : dv.anyDying = false) (d : Slot κ ε)
    (hd : Holds dv.slots d) : d.stop = false := by
  obtain ⟨i, hi⟩ := hd
  exact Devices.anySlot_eq_false.mp h i d hi

theorem opened_of_anySlot {dv : Devices κ ε} {e : ConfigDevice}
    (h : dv.anySlot (fun d => decide (Opened e d)) = true) : ∃ d, Holds dv.slots d ∧ Opened e d := by
  obtain ⟨i, d, hi, hd⟩ := Devices.anySlot_iff.mp h
  exact ⟨d, ⟨i, hi⟩, of_decide_eq_true hd⟩

theorem reapply_noOp_iff_pack : NoOp (runningOf packEntry) [packEntry] := by
  have hvalid : validateEntries (runningOf packEntry).registry [packEntry] = none := by decide +kernel
  have hopened : ∀ e ∈ [packEntry], e.enabled = true →
      ∃ d, Holds (runningOf packEntry).slots d ∧ Opened e d := by
    intro e he _
    obtain rfl := List.mem_singleton.mp he
    exact opened_of_anySlot (by decide +kernel)
  refine (reapply_noOp_iff hvalid (live_of_anyDying (by decide +kernel)) hopened).2.mpr ⟨?_, ?_, ?_⟩
  · simp only [← Option.isNone_iff_eq_none]
    decide +kernel
  · rintro d ⟨i, hi⟩
    have hall : ∀ i, ((runningOf packEntry).slots i).all
        (fun d => decide (Opened packEntry d)) = true := by
      decide +kernel
    have hd := hall i
    rw [hi] at hd
    exact ⟨packEntry, List.mem_singleton_self _, rfl, of_decide_eq_true hd,
      by decide, by decide, by decide⟩
  · intro e he _
    obtain rfl := List.mem_singleton.mp he
    exact .inl (by decide)

/-- A battery whose uuid is written in braces, as 38 characters. -/
def bracedEntry : ConfigDevice :=
  { packEntry with
    uuid := CBuf.copy 40 (CString.lit "\x7b01234567-89ab-cdef-0123-456789abcdef\x7d") }

/-- A slot keeps 36 bytes of a uuid. Applied again, the configuration is refused for
the name of the module it has started itself. -/
theorem braced_module_refused :
    validateEntries (runningOf bracedEntry).registry [bracedEntry] = none ∧
      (∀ d, Holds (runningOf bracedEntry).slots d → d.stop = false) ∧
      (∀ e ∈ [bracedEntry], e.enabled = true →
        ∃ d, Holds (runningOf bracedEntry).slots d ∧ Opened e d) ∧
      (mfDevicesApplyConfig (runningOf bracedEntry) [bracedEntry]).2 = .error .stillStopping ∧
      ¬NoOp (runningOf bracedEntry) [bracedEntry] := by
  refine ⟨by decide +kernel, live_of_anyDying (by decide +kernel), ?_, by decide +kernel, ?_⟩
  · intro e he _
    obtain rfl := List.mem_singleton.mp he
    exact opened_of_anySlot (by decide +kernel)
  · intro h
    have hresult := h.result
    revert hresult
    decide +kernel

end MoonFlare.Reapply
