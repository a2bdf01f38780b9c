import MoonFlare.ConfigRules
import MoonFlare.KeyedTable
import MoonFlare.SpecRoundTrip

/-!
# What the slot operations do

One lemma for each operation on the slot table and the queue, over the sets of
slots in use and of queued entries: what it adds, what it takes away, and that
it changes nothing else. A slot shows the module it runs; an entry shows the
module it asks for.
-/

namespace MoonFlare

open KeyedTable

variable {κ ε : Type}

/-- The module a slot runs or an entry asks for. -/
structure Shown where
  uuid : CString
  name : CString
  kind : CString
  driver : CString
  bus : CBuf 32
  endpoint : CBuf 160
  deriving DecidableEq

/-- The module a slot runs. -/
def Slot.shown (d : Slot κ ε) : Shown :=
  ⟨d.uuid.str, d.name.str, d.kind.str, d.driver.str, d.bus, d.endpoint⟩

/-- The module an entry asks for. -/
def ConfigDevice.shown (e : ConfigDevice) : Shown :=
  ⟨e.uuid.str, e.name.str, e.kind.str, e.driver.str, e.bus, mfConfigDeviceEndpoint e⟩

/-- The key of a slot. -/
def slotKey (d : Slot κ ε) : CString := d.uuid.str

/-- The key of an entry. -/
def entryKey (e : ConfigDevice) : CString := e.uuid.str

/-- Every plugin of the registry opens, whatever the spec. -/
def OpensSucceed (reg : Registry κ ε) : Prop :=
  ∀ o ∈ reg, ∀ openCtx, o.openCtx = some openCtx → ∀ spec, ∃ ctx, openCtx spec = .ok ctx

/-- An entry whose module can be started as it is written: the slot's buffers
hold its uuid, kind and driver whole. -/
structure Startable (reg : Registry κ ε) (e : ConfigDevice) : Prop where
  uuid : e.uuid.str.nonempty = true
  uuidFits : e.uuid.str.length < 37
  name : e.name.str.nonempty = true
  nameFits : e.name.str.length < 32
  kind : e.kind.str.nonempty = true
  kindFits : e.kind.str.length < 16
  driver : e.driver.str.nonempty = true
  driverFits : e.driver.str.length < 16
  known : KnownDriver reg e

/-- Refreshing a reading keeps what a slot runs. -/
theorem refreshReading_shown (historyOpen : Bool) (d : Slot κ ε) :
    (refreshReading historyOpen d).1.shown = d.shown ∧
      (refreshReading historyOpen d).1.stop = d.stop := by
  unfold refreshReading
  split
  · split
    · exact ⟨rfl, rfl⟩
    · split
      · exact ⟨rfl, rfl⟩
      · dsimp only
        split <;> exact ⟨rfl, rfl⟩
  · exact ⟨rfl, rfl⟩

/-- A stopping slot is freed. -/
theorem devicePt_stopping {d : Slot κ ε} (h : d.stop = true) (historyOpen : Bool) (e : ε) :
    (devicePt historyOpen e d).1 = none := by
  rw [devicePt, if_pos h]

/-- A live slot stays live and runs what it ran. -/
theorem devicePt_live {d : Slot κ ε} (h : d.stop = false) (historyOpen : Bool) (e : ε) :
    ∃ d', (devicePt historyOpen e d).1 = some d' ∧ d'.stop = false ∧ d'.shown = d.shown := by
  rw [devicePt, if_neg (by simp [h])]
  split
  · split
    · exact ⟨d, rfl, h, rfl⟩
    · rename_i ops ctx _ _ _ step _
      dsimp only
      split
      · exact ⟨_, rfl, h, rfl⟩
      · obtain ⟨hshown, hstop⟩ :=
          refreshReading_shown historyOpen { d with ctx := some (step e ctx).1 }
        exact ⟨_, rfl, hstop.trans h, hshown⟩
  · exact ⟨d, rfl, h, rfl⟩

theorem uuidInUse_iff {dv : Devices κ ε} {u : CString} (hu : u.nonempty = true) :
    dv.uuidInUse u = true ↔ ∃ d, Holds dv.slots d ∧ slotKey d = u := by
  simp only [Devices.uuidInUse, hu, Bool.true_and, Devices.anySlot_iff, decide_eq_true_eq, Holds,
    slotKey]
  constructor
  · rintro ⟨i, d, hi, hd⟩
    exact ⟨d, ⟨i, hi⟩, hd⟩
  · rintro ⟨d, ⟨i, hi⟩, hd⟩
    exact ⟨i, d, hi, hd⟩

theorem uuidInUse_eq_false {dv : Devices κ ε} {u : CString} (hu : u.nonempty = true) :
    dv.uuidInUse u = false ↔ ∀ d, Holds dv.slots d → slotKey d ≠ u := by
  rw [← Bool.not_eq_true, uuidInUse_iff hu]
  push Not
  rfl

theorem nameTaken_iff {dv : Devices κ ε} {name : CString} :
    dv.nameTaken name = true ↔ ∃ d, Holds dv.slots d ∧ d.name.str = name := by
  simp only [Devices.nameTaken, Devices.anySlot_iff, decide_eq_true_eq, Holds]
  constructor
  · rintro ⟨i, d, hi, hd⟩
    exact ⟨d, ⟨i, hi⟩, hd⟩
  · rintro ⟨d, ⟨i, hi⟩, hd⟩
    exact ⟨i, d, hi, hd⟩

theorem freeSlot_some {dv : Devices κ ε} {i : Fin mfDeviceSlots} (h : dv.freeSlot = some i) :
    dv.slots i = none := by
  simpa using List.find?_some h

/-- The slot of a startable entry shows the entry. -/
theorem newSlot_shown {reg : Registry κ ε} {e : ConfigDevice} (h : Startable reg e)
    (ops : Option (PluginOps κ ε)) :
    (newSlot ops e.name.str e.kind.str e.driver.str (mfConfigDeviceSerialize e)
      (CBuf.copy 37 e.uuid.str)).shown = e.shown := by
  obtain ⟨hbus, hendpoint⟩ := identityFromSpec_serialize e twoSeconds
  simp only [newSlot, Slot.shown, ConfigDevice.shown, hbus, hendpoint,
    CBuf.str_copy_of_lt h.uuidFits, CBuf.str_copy_of_lt h.nameFits, CBuf.str_copy_of_lt h.kindFits,
    CBuf.str_copy_of_lt h.driverFits]

/-- Opening succeeds when every plugin does, and keeps what the slot runs. -/
theorem openSlot_ok {reg : Registry κ ε} (hopen : OpensSucceed reg) {d : Slot κ ε}
    (hops : ∀ o, d.ops = some o → o ∈ reg) (historyOpen : Bool) (spec : CString) :
    ∃ d' samples, openSlot historyOpen spec d = .ok (d', samples) ∧ d'.shown = d.shown ∧
      d'.stop = d.stop := by
  unfold openSlot
  cases hbind : d.ops.bind (·.openCtx) with
  | none => exact ⟨d, [], rfl, rfl, rfl⟩
  | some openCtx =>
    obtain ⟨o, ho, hf⟩ := Option.bind_eq_some_iff.mp hbind
    obtain ⟨ctx, hctx⟩ := hopen o (hops o ho) openCtx hf spec
    simp only [hctx]
    refine ⟨_, _, rfl, ?_⟩
    exact refreshReading_shown historyOpen _

/-- The table after a module was added in a free slot. -/
def Devices.withSlot (dv : Devices κ ε) (i : Fin mfDeviceSlots) (d : Slot κ ε)
    (samples : List Sample) : Devices κ ε :=
  { dv.setSlot i (some d) with samples := dv.samples ++ samples }

/-- Adding a startable entry of a free uuid: its name is taken, the table is
full, or a free slot shows it from now on. -/
theorem addFromCfg_cases {dv : Devices κ ε} {e : ConfigDevice} (hopen : OpensSucceed dv.registry)
    (hs : Startable dv.registry e) (hfree : dv.uuidInUse e.uuid.str = false) :
    (dv.nameTaken e.name.str = true ∧ addFromCfg dv e = (dv, .error .nameInUse)) ∨
    addFromCfg dv e = ({ dv with limitHit := true }, .error .limit) ∨
    ∃ i d samples u, dv.nameTaken e.name.str = false ∧ dv.slots i = none ∧ d.stop = false ∧
      d.shown = e.shown ∧ addFromCfg dv e = (dv.withSlot i d samples, .ok u) := by
  have hreq : ¬(¬e.name.str.nonempty = true ∨ ¬e.kind.str.nonempty = true ∨
      ¬e.driver.str.nonempty = true) := by
    simp [hs.name, hs.kind, hs.driver]
  have hknown : ¬(dv.registry ≠ [] ∧
      (mfPluginsFind dv.registry e.kind.str e.driver.str).isNone = true) := by
    rintro ⟨hreg, hnone⟩
    rcases hs.known with hempty | hsome
    · exact hreg hempty
    · rw [Option.isNone_iff_eq_none] at hnone
      simp [hnone] at hsome
  cases hname : dv.nameTaken e.name.str with
  | true =>
    refine Or.inl ⟨rfl, ?_⟩
    rw [addFromCfg, mfDevicesAdd, if_neg hreq, if_neg (by have := hs.nameFits; omega), if_pos hname]
  | false =>
    refine Or.inr ?_
    rw [addFromCfg, mfDevicesAdd, if_neg hreq, if_neg (by have := hs.nameFits; omega),
      if_neg (by simp [hname]), if_neg (by simp [hfree]), if_neg hknown]
    cases hslot : dv.freeSlot with
    | none => exact Or.inl rfl
    | some i =>
      refine Or.inr ?_
      obtain ⟨d, samples, hok, hshown, hstop⟩ := openSlot_ok hopen
        (d := newSlot (mfPluginsFind dv.registry e.kind.str e.driver.str) e.name.str e.kind.str
          e.driver.str (mfConfigDeviceSerialize e) (CBuf.copy 37 e.uuid.str))
        (fun o ho => (mfPluginsFind_mem ho).1) dv.historyOpen (mfConfigDeviceSerialize e)
      refine ⟨i, d, samples, CBuf.copy 37 e.uuid.str, rfl, freeSlot_some hslot, hstop, ?_, ?_⟩
      · rw [hshown, newSlot_shown hs]
      · simp only [hs.uuid, if_true, hok]
        rfl

theorem pendingPlace_eq (pending : Fin mfDeviceSlots → Option ConfigDevice) (u : CString) :
    pendingPlace pending u = place entryKey pending u := rfl

/-- Cancelling takes the entries of a uuid off the queue. -/
theorem pendingCancel_eq {u : CString} (hu : u.nonempty = true)
    (pending : Fin mfDeviceSlots → Option ConfigDevice) :
    pendingCancel pending u = cancel entryKey pending u := by
  funext j
  simp only [pendingCancel, cancel, hu, true_and, entryKey, ne_eq]
  rfl

/-- Queueing puts an entry in the place of its uuid, unless the queue is
full. -/
theorem pendingQueue_cases {dv : Devices κ ε} (h : Distinct entryKey dv.pending)
    (e : ConfigDevice) :
    pendingQueue dv e = { dv with limitHit := true } ∨
    ∃ t, pendingQueue dv e = { dv with pending := t } ∧ Distinct entryKey t ∧
      ∀ p, Holds t p ↔ p = e ∨ Holds dv.pending p ∧ entryKey p ≠ entryKey e := by
  unfold pendingQueue
  cases hplace : pendingPlace dv.pending e.uuid.str with
  | none => exact Or.inl rfl
  | some j =>
    rw [pendingPlace_eq] at hplace
    exact Or.inr ⟨_, rfl, distinct_put h hplace, fun p => holds_put h hplace⟩

theorem pendingQueue_frame (dv : Devices κ ε) (e : ConfigDevice) :
    (pendingQueue dv e).slots = dv.slots ∧ (pendingQueue dv e).registry = dv.registry ∧
      (dv.limitHit = true → (pendingQueue dv e).limitHit = true) := by
  unfold pendingQueue
  split
  · exact ⟨rfl, rfl, id⟩
  · exact ⟨rfl, rfl, fun _ => rfl⟩

/-- The first loop leaves every slot its uuid. -/
theorem applySlot_key (devs : List ConfigDevice) (d : Slot κ ε) :
    slotKey (applySlot devs d) = slotKey d := by
  unfold applySlot
  split <;> rfl

/-- The entry a configuration has for a uuid is one of that uuid. -/
theorem wanted_some {devs : List ConfigDevice} {u : CString} {e : ConfigDevice}
    (h : wanted devs u = some e) : e ∈ devs ∧ entryKey e = u :=
  ⟨List.mem_of_find?_eq_some h, by simpa [entryKey] using List.find?_some h⟩

/-- A slot that is to be reopened is one of an enabled entry of its uuid. -/
theorem verdict_reopen {devs : List ConfigDevice} {d : Slot κ ε} {e : ConfigDevice}
    (h : verdict devs d = .reopen e) : e ∈ devs ∧ e.enabled = true ∧ entryKey e = slotKey d := by
  unfold verdict at h
  split at h
  · simp at h
  · rename_i want hwant
    split at h
    · simp at h
    · rename_i hen
      split at h
      · cases h
        exact ⟨(wanted_some hwant).1, by simpa using hen, (wanted_some hwant).2⟩
      · simp at h

/-- A slot that is patched has an enabled entry of its identity. -/
theorem verdict_patch {devs : List ConfigDevice} {d : Slot κ ε} {e : ConfigDevice}
    (h : verdict devs d = .patch e) :
    e ∈ devs ∧ e.enabled = true ∧ entryKey e = slotKey d ∧ identityChanged d e = false := by
  unfold verdict at h
  split at h
  · simp at h
  · rename_i want hwant
    split at h
    · simp at h
    · rename_i hen
      split at h
      · simp at h
      · rename_i hid
        cases h
        exact ⟨(wanted_some hwant).1, by simpa using hen, (wanted_some hwant).2, by simpa using hid⟩

/-- A patched slot shows its entry. -/
theorem patchSlot_shown {d : Slot κ ε} {e : ConfigDevice} (hkey : entryKey e = slotKey d)
    (hid : identityChanged d e = false) (hname : e.name.str.length < 32) :
    (patchSlot d e).shown = e.shown := by
  simp only [identityChanged, Bool.not_eq_false', Bool.and_eq_true, decide_eq_true_eq] at hid
  obtain ⟨⟨⟨hkind, hdriver⟩, hbus⟩, hend⟩ := hid
  simp only [Slot.shown, ConfigDevice.shown, patchSlot, CBuf.str_copy_of_lt hname, Shown.mk.injEq]
  exact ⟨hkey.symm, trivial, hkind, hdriver, CBuf.ext hbus, hend⟩

/-- What the first loop does to the queue for one slot: its uuid's entry goes
when the slot is retired, and is replaced when it is reopened. -/
theorem applyQueue_cases (devs : List ConfigDevice) {dv : Devices κ ε}
    (h : Distinct entryKey dv.pending) {d : Slot κ ε} (hkey : (slotKey d).nonempty = true) :
    (applyQueue devs dv d).limitHit = true ∨
    Distinct entryKey (applyQueue devs dv d).pending ∧
      ∀ p, Holds (applyQueue devs dv d).pending p ↔
        (Holds dv.pending p ∧ (slotKey d = entryKey p → ∃ w, verdict devs d = .patch w)) ∨
          verdict devs d = .reopen p := by
  unfold applyQueue
  cases hv : verdict devs d with
  | retire =>
    refine Or.inr ?_
    dsimp only
    rw [show d.uuid.str = slotKey d from rfl, pendingCancel_eq hkey]
    refine ⟨distinct_cancel h _, fun p => ?_⟩
    rw [holds_cancel]
    simp [eq_comm]
  | reopen want =>
    have hwant := (verdict_reopen hv).2.2
    rcases pendingQueue_cases h want with hq | ⟨t, hq, hdist, hholds⟩
    · exact Or.inl (by dsimp only; rw [hq])
    · refine Or.inr ?_
      dsimp only
      rw [hq]
      refine ⟨hdist, fun p => ?_⟩
      rw [hholds, hwant]
      simp only [reduceCtorEq, exists_false, imp_false, Verdict.reopen.injEq]
      constructor
      · rintro (rfl | ⟨hp, hne⟩)
        · exact Or.inr rfl
        · exact Or.inl ⟨hp, Ne.symm hne⟩
      · rintro (⟨hp, hne⟩ | rfl)
        · exact Or.inr ⟨hp, Ne.symm hne⟩
        · exact Or.inl rfl
  | patch want =>
    refine Or.inr ⟨h, fun p => ?_⟩
    simp

theorem applyQueue_frame (devs : List ConfigDevice) (dv : Devices κ ε) (d : Slot κ ε) :
    (applyQueue devs dv d).slots = dv.slots ∧ (applyQueue devs dv d).registry = dv.registry ∧
      (dv.limitHit = true → (applyQueue devs dv d).limitHit = true) := by
  unfold applyQueue
  split
  · exact ⟨rfl, rfl, id⟩
  · exact pendingQueue_frame dv _
  · exact ⟨rfl, rfl, id⟩

/-- A round of the first loop changes its own slot only. -/
theorem applyRound_frame (devs : List ConfigDevice) (dv : Devices κ ε) (i : Fin mfDeviceSlots) :
    (applyRound devs dv i).registry = dv.registry ∧
      (dv.limitHit = true → (applyRound devs dv i).limitHit = true) ∧
      (applyRound devs dv i).slots =
        fun j => if j = i then (dv.slots j).map (applySlot devs) else dv.slots j := by
  unfold applyRound
  cases hslot : dv.slots i with
  | none =>
    refine ⟨rfl, id, funext fun j => ?_⟩
    dsimp only
    split
    case isTrue hji => simp [hji, hslot]
    case isFalse => rfl
  | some d =>
    obtain ⟨hslots, hreg, hlimit⟩ := applyQueue_frame devs dv d
    refine ⟨hreg, hlimit, funext fun j => ?_⟩
    simp only [Devices.setSlot, hslots]
    split
    case isTrue hji => subst hji; simp [hslot]
    case isFalse hji => simp [Function.update_of_ne hji]

/-- The first loop over part of the table, on the slots. -/
theorem applyRounds_frame (devs : List ConfigDevice) {l : List (Fin mfDeviceSlots)} (hl : l.Nodup)
    (dv : Devices κ ε) :
    (l.foldl (applyRound devs) dv).registry = dv.registry ∧
      (dv.limitHit = true → (l.foldl (applyRound devs) dv).limitHit = true) ∧
      (l.foldl (applyRound devs) dv).slots =
        fun j => if j ∈ l then (dv.slots j).map (applySlot devs) else dv.slots j := by
  induction l generalizing dv with
  | nil => exact ⟨rfl, id, funext fun j => by simp⟩
  | cons i l ih =>
    obtain ⟨hi, hl⟩ := List.nodup_cons.mp hl
    obtain ⟨hreg, hlimit, hslots⟩ := applyRound_frame devs dv i
    obtain ⟨hreg', hlimit', hslots'⟩ := ih hl (applyRound devs dv i)
    rw [List.foldl_cons]
    refine ⟨hreg'.trans hreg, fun h => hlimit' (hlimit h), ?_⟩
    rw [hslots']
    funext j
    simp only [hslots, List.mem_cons]
    by_cases hji : j = i
    · subst hji
      simp [hi]
    · simp [hji]

/-- The first loop over part of the table, on the queue: the entries whose slot
is retired go, those whose slot is reopened come in. -/
theorem applyRounds_queue (devs : List ConfigDevice) {l : List (Fin mfDeviceSlots)} (hl : l.Nodup)
    {dv : Devices κ ε} (hslots : Distinct slotKey dv.slots)
    (hkeys : ∀ d, Holds dv.slots d → (slotKey d).nonempty = true)
    (hqueue : Distinct entryKey dv.pending) :
    (l.foldl (applyRound devs) dv).limitHit = true ∨
      Distinct entryKey (l.foldl (applyRound devs) dv).pending ∧
      ∀ p, Holds (l.foldl (applyRound devs) dv).pending p ↔
        (Holds dv.pending p ∧ ∀ i ∈ l, ∀ d, dv.slots i = some d → slotKey d = entryKey p →
          ∃ w, verdict devs d = .patch w) ∨
        ∃ i ∈ l, ∃ d, dv.slots i = some d ∧ verdict devs d = .reopen p := by
  induction l generalizing dv with
  | nil => exact Or.inr ⟨hqueue, fun p => by simp⟩
  | cons i l ih =>
    obtain ⟨hi, hl⟩ := List.nodup_cons.mp hl
    obtain ⟨-, -, hnext⟩ := applyRound_frame devs dv i
    have hsame (j : Fin mfDeviceSlots) (hj : j ∈ l) :
        (applyRound devs dv i).slots j = dv.slots j := by
      have hji : j ≠ i := by rintro rfl; exact hi hj
      simp [hnext, hji]
    have hkept (j : Fin mfDeviceSlots) (d : Slot κ ε) (hj : (applyRound devs dv i).slots j = some d) :
        ∃ d', dv.slots j = some d' ∧ slotKey d' = slotKey d := by
      rw [hnext] at hj
      dsimp only at hj
      split at hj
      · obtain ⟨d', hd', rfl⟩ := Option.map_eq_some_iff.mp hj
        exact ⟨d', hd', (applySlot_key devs d').symm⟩
      · exact ⟨d, hj, rfl⟩
    have hslots' : Distinct slotKey (applyRound devs dv i).slots := by
      intro j k a b ha hb hkey
      obtain ⟨a', ha', hka⟩ := hkept j a ha
      obtain ⟨b', hb', hkb⟩ := hkept k b hb
      exact hslots j k a' b' ha' hb' (by rw [hka, hkb, hkey])
    have hkeys' : ∀ d, Holds (applyRound devs dv i).slots d → (slotKey d).nonempty = true := by
      rintro d ⟨j, hj⟩
      obtain ⟨d', hd', hkey⟩ := hkept j d hj
      rw [← hkey]
      exact hkeys d' ⟨j, hd'⟩
    rw [List.foldl_cons]
    cases hslot : dv.slots i with
    | none =>
      have hround : applyRound devs dv i = dv := by rw [applyRound, hslot]
      rw [hround]
      simpa [hslot] using ih hl hslots hkeys hqueue
    | some d =>
      have hround : (applyRound devs dv i).limitHit = (applyQueue devs dv d).limitHit ∧
          (applyRound devs dv i).pending = (applyQueue devs dv d).pending := by
        rw [applyRound, hslot]
        exact ⟨rfl, rfl⟩
      rcases applyQueue_cases devs hqueue (hkeys d ⟨i, hslot⟩) with hfull | ⟨hdist, hholds⟩
      · exact Or.inl ((applyRounds_frame devs hl _).2.1 (hround.1.trans hfull))
      · rcases ih hl hslots' hkeys' (hround.2 ▸ hdist) with hfull | ⟨hdist', hholds'⟩
        · exact Or.inl hfull
        · refine Or.inr ⟨hdist', fun p => ?_⟩
          rw [hholds', hround.2, hholds]
          -- the slots still to come have other uuids than the one just handled
          have hother (j : Fin mfDeviceSlots) (hj : j ∈ l) (d' : Slot κ ε)
              (hd' : dv.slots j = some d') : slotKey d' ≠ slotKey d := by
            intro hkey
            obtain rfl := hslots j i d' d hd' hslot hkey
            exact hi hj
          constructor
          · rintro (⟨⟨hp, hd⟩ | hre, hall⟩ | ⟨j, hj, d', hd', hre⟩)
            · refine Or.inl ⟨hp, fun j hj d' hd' hkey => ?_⟩
              rcases List.mem_cons.mp hj with rfl | hj
              · obtain rfl := Option.some.inj (hd'.symm.trans hslot)
                exact hd hkey
              · exact hall j hj d' ((hsame j hj).trans hd') hkey
            · exact Or.inr ⟨i, List.mem_cons_self, d, hslot, hre⟩
            · exact Or.inr ⟨j, List.mem_cons_of_mem i hj, d', (hsame j hj).symm.trans hd', hre⟩
          · rintro (⟨hp, hall⟩ | ⟨j, hj, d', hd', hre⟩)
            · refine Or.inl ⟨Or.inl ⟨hp, hall i List.mem_cons_self d hslot⟩, fun j hj d' hd' hkey => ?_⟩
              exact hall j (List.mem_cons_of_mem i hj) d' ((hsame j hj).symm.trans hd') hkey
            · rcases List.mem_cons.mp hj with rfl | hj
              · obtain rfl := Option.some.inj (hd'.symm.trans hslot)
                refine Or.inl ⟨Or.inr hre, fun k hk d'' hd'' hkey => ?_⟩
                have hd''' := (hsame k hk).symm.trans hd''
                exact absurd (hkey.trans (verdict_reopen hre).2.2) (hother k hk d'' hd''')
              · exact Or.inr ⟨j, hj, d', (hsame j hj).trans hd', hre⟩

/-- The first loop of `mf_devices_apply_config`. -/
def sweep (devs : List ConfigDevice) (dv : Devices κ ε) : Devices κ ε :=
  (List.finRange mfDeviceSlots).foldl (applyRound devs) dv

theorem sweep_frame (devs : List ConfigDevice) (dv : Devices κ ε) :
    (sweep devs dv).registry = dv.registry ∧
      (dv.limitHit = true → (sweep devs dv).limitHit = true) ∧
      (sweep devs dv).slots = fun i => (dv.slots i).map (applySlot devs) := by
  have h := applyRounds_frame devs (List.nodup_finRange mfDeviceSlots) dv
  simpa [sweep] using h

/-- The queue after the first loop, as a set of entries. -/
theorem sweep_queue (devs : List ConfigDevice) {dv : Devices κ ε}
    (hslots : Distinct slotKey dv.slots)
    (hkeys : ∀ d, Holds dv.slots d → (slotKey d).nonempty = true)
    (hqueue : Distinct entryKey dv.pending) :
    (sweep devs dv).limitHit = true ∨ Distinct entryKey (sweep devs dv).pending ∧
      ∀ p, Holds (sweep devs dv).pending p ↔
        (Holds dv.pending p ∧ ∀ d, Holds dv.slots d → slotKey d = entryKey p →
          ∃ w, verdict devs d = .patch w) ∨
        ∃ d, Holds dv.slots d ∧ verdict devs d = .reopen p := by
  refine (applyRounds_queue devs (List.nodup_finRange mfDeviceSlots) hslots hkeys hqueue).imp_right ?_
  rintro ⟨hdist, hholds⟩
  refine ⟨hdist, fun p => (hholds p).trans ?_⟩
  simp only [List.mem_finRange, true_and, forall_const, Holds]
  constructor
  · rintro (⟨hp, hall⟩ | ⟨i, d, hi, hd⟩)
    · refine Or.inl ⟨hp, fun d hheld => ?_⟩
      obtain ⟨i, hi⟩ := hheld
      exact hall i d hi
    · exact Or.inr ⟨d, ⟨i, hi⟩, hd⟩
  · rintro (⟨hp, hall⟩ | ⟨d, ⟨i, hi⟩, hd⟩)
    · exact Or.inl ⟨hp, fun i d hi => hall d ⟨i, hi⟩⟩
    · exact Or.inr ⟨i, d, hi, hd⟩

end MoonFlare
