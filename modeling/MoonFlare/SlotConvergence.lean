import MoonFlare.Runs
import MoonFlare.SlotOperations
import MoonFlare.XdBattery

/-!
# Convergence of the configuration

Configurations are applied, modules deleted, slots run and the queue retried in
any order. The target is what the last accepted configuration asks for without
what was deleted since. Live slots always show entries of the target, and what
of the target is not live is queued; once no slot is stopping and the queue has
nothing left to do, the two agree.
-/

namespace MoonFlare.Convergence

open KeyedTable Runs

variable {κ ε : Type}

/-- What happens to the slot table. -/
inductive Act (ε : Type) where
  | apply (devs : List ConfigDevice)
  | delete (uuid : CString)
  /-- A round of the thread of slot `i`; it ends a slot that is stopping. -/
  | tick (i : Fin mfDeviceSlots) (e : ε)
  | pending

/-- The slot table and the entries it should come to run. -/
structure Sys (κ ε : Type) where
  dv : Devices κ ε
  target : List ConfigDevice

/-- One step. The target changes with every accepted configuration and every
delete that is answered 202. -/
def step (s : Sys κ ε) : Act ε → Sys κ ε
  | .apply devs =>
    match mfDevicesApplyConfig s.dv devs with
    | (dv, .error _) => ⟨dv, s.target⟩
    | (dv, .ok _) => ⟨dv, devs.filter (·.enabled)⟩
  | .delete uuid =>
    match mfDevicesDelete s.dv uuid with
    | (dv, status) =>
      ⟨dv, if status = 202 then s.target.filter fun e => decide (entryKey e ≠ uuid) else s.target⟩
  | .tick i e => ⟨s.dv.tick i e, s.target⟩
  | .pending => ⟨mfDevicesApplyPending s.dv, s.target⟩

/-- The daemon before its first configuration. -/
def start (registry : Registry κ ε) (historyOpen : Bool) : Sys κ ε :=
  ⟨mfDevicesInit registry historyOpen, []⟩

/-- A slot in use that is not stopping. -/
def Live (dv : Devices κ ε) (d : Slot κ ε) : Prop := Holds dv.slots d ∧ d.stop = false

/-- No slot is stopping, and retrying the queue changes nothing. -/
def Settled (dv : Devices κ ε) : Prop :=
  (∀ d, Holds dv.slots d → d.stop = false) ∧ mfDevicesApplyPending dv = dv

/-- Live slots show entries of the target, one slot for a uuid; when the table
has settled, every entry of the target is shown. -/
structure Converged (s : Sys κ ε) : Prop where
  oneSlot : Distinct slotKey s.dv.slots
  shown : ∀ d, Live s.dv d → ∃ e ∈ s.target, d.shown = e.shown
  settled : Settled s.dv → ∀ e ∈ s.target, ∃ d, Live s.dv d ∧ d.shown = e.shown

/-- A delete that is answered 404 changes nothing. -/
def DeleteHonest (s : Sys κ ε) (a : Act ε) : Prop :=
  ∀ uuid, a = .delete uuid → (mfDevicesDelete s.dv uuid).2 = 404 →
    (mfDevicesDelete s.dv uuid).1 = s.dv

/-- What a run is to keep: convergence after every step, honest deletes. -/
def Converges (s : Sys κ ε) (as : List (Act ε)) : Prop :=
  Along step (fun s a => Converged (step s a) ∧ DeleteHonest s a) s as

/-- The steps that keep the promise. An accepted configuration must not ask
again for what a stopping slot runs, must mention with an enabled entry every
queued module that has no slot any more, and must have uuids, kinds and drivers
that a slot can hold. A delete must not name a queued module that has no slot
any more. -/
def Orderly (s : Sys κ ε) : Act ε → Prop
  | .apply devs => validateApply s.dv devs = none →
    (∀ d, Holds s.dv.slots d → d.stop = true → ∀ e ∈ devs, e.enabled = true →
      entryKey e = slotKey d → identityChanged d e = true) ∧
    (∀ p, Holds s.dv.pending p → s.dv.uuidInUse p.uuid.str = false →
      ∃ e ∈ devs, e.enabled = true ∧ entryKey e = entryKey p) ∧
    ∀ e ∈ devs, e.enabled = true →
      e.uuid.str.length < 37 ∧ e.kind.str.length < 16 ∧ e.driver.str.length < 16
  | .delete uuid => s.dv.uuidInUse uuid = true ∨ ∀ p, Holds s.dv.pending p → entryKey p ≠ uuid
  | .tick _ _ => True
  | .pending => True

/-- No table has turned a module away. -/
def WithinLimits (s : Sys κ ε) (a : Act ε) : Prop := (step s a).dv.limitHit = false

/-- The invariant, with entries of the target still to be handled: each is
live, queued, or among those left and without a slot; what is queued is in the
target, or has a live slot, or will be replaced by an entry that is left. -/
structure Partway (dv : Devices κ ε) (target left : List ConfigDevice) : Prop where
  opens : OpensSucceed dv.registry
  startable : ∀ e ∈ target, Startable dv.registry e
  uuids : ∀ e ∈ target, ∀ e' ∈ target, entryKey e = entryKey e' → e = e'
  names : ∀ e ∈ target, ∀ e' ∈ target, e.name.str = e'.name.str → e = e'
  oneSlot : Distinct slotKey dv.slots
  slotUuid : ∀ d, Holds dv.slots d → (slotKey d).nonempty = true
  shown : ∀ d, Live dv d → ∃ e ∈ target, d.shown = e.shown
  oneQueued : Distinct entryKey dv.pending
  queuedUuid : ∀ p, Holds dv.pending p → (entryKey p).nonempty = true
  covered : ∀ e ∈ target, (∃ d, Live dv d ∧ slotKey d = entryKey e) ∨ Holds dv.pending e ∨
    e ∈ left ∧ dv.uuidInUse e.uuid.str = false
  queued : ∀ p, Holds dv.pending p → p ∈ target ∨ (∃ d, Live dv d ∧ slotKey d = entryKey p) ∨
    ∃ e ∈ left, e ∈ target ∧ entryKey e = entryKey p ∧ dv.uuidInUse e.uuid.str = false

/-- The invariant between steps. -/
def Inv (s : Sys κ ε) : Prop := Partway s.dv s.target []

theorem shown_key {d : Slot κ ε} {e : ConfigDevice} (h : d.shown = e.shown) :
    slotKey d = entryKey e := congrArg Shown.uuid h

/-- A live slot has its uuid in use. -/
theorem uuidInUse_of_live {dv : Devices κ ε} {d : Slot κ ε} {u : CString} (hd : Live dv d)
    (hkey : slotKey d = u) (hu : u.nonempty = true) : dv.uuidInUse u = true :=
  (uuidInUse_iff hu).mpr ⟨d, hd.1, hkey⟩

namespace Partway

variable {dv : Devices κ ε} {target left : List ConfigDevice} {e : ConfigDevice}

/-- An entry that is handled is no longer left. -/
theorem drop (h : Partway dv target (e :: left))
    (hdone : e ∈ target → dv.uuidInUse e.uuid.str = true ∨ Holds dv.pending e) :
    Partway dv target left :=
  { h with
    covered := fun e' he' => by
      rcases h.covered e' he' with hlive | hqueued | ⟨hleft, hfree⟩
      · exact Or.inl hlive
      · exact Or.inr (Or.inl hqueued)
      · rcases List.mem_cons.mp hleft with rfl | hleft
        · rcases hdone he' with huse | hqueued
          · simp [huse] at hfree
          · exact Or.inr (Or.inl hqueued)
        · exact Or.inr (Or.inr ⟨hleft, hfree⟩)
    queued := fun p hp => by
      rcases h.queued p hp with htarget | hlive | ⟨e', hleft, he', hkey, hfree⟩
      · exact Or.inl htarget
      · exact Or.inr (Or.inl hlive)
      · rcases List.mem_cons.mp hleft with rfl | hleft
        · rcases hdone he' with huse | hqueued
          · simp [huse] at hfree
          · exact Or.inl (h.oneQueued.eq_of_key hqueued hp hkey ▸ he')
        · exact Or.inr (Or.inr ⟨e', hleft, he', hkey, hfree⟩) }

/-- A slot that is filled with an entry of the target makes it live. -/
theorem withSlot (h : Partway dv target left) (he : e ∈ target)
    (hfree : dv.uuidInUse e.uuid.str = false) {i : Fin mfDeviceSlots} {d : Slot κ ε}
    (hi : dv.slots i = none) (hstop : d.stop = false) (hshown : d.shown = e.shown)
    (samples : List Sample) : Partway (dv.withSlot i d samples) target left := by
  have hkey := shown_key hshown
  have huuid : (entryKey e).nonempty = true := (h.startable e he).uuid
  have hslots (d' : Slot κ ε) :
      Holds (dv.withSlot i d samples).slots d' ↔ d' = d ∨ Holds dv.slots d' :=
    holds_update_of_empty hi
  have hlive (d' : Slot κ ε) (hd' : Live dv d') : Live (dv.withSlot i d samples) d' :=
    ⟨(hslots d').mpr (Or.inr hd'.1), hd'.2⟩
  have hnew : Live (dv.withSlot i d samples) d := ⟨(hslots d).mpr (Or.inl rfl), hstop⟩
  have hstill (e' : ConfigDevice) (he' : e' ∈ target) (hfree' : dv.uuidInUse e'.uuid.str = false) :
      e' = e ∨ (dv.withSlot i d samples).uuidInUse e'.uuid.str = false := by
    rcases eq_or_ne e' e with rfl | hne
    · exact Or.inl rfl
    · refine Or.inr ?_
      rw [← Bool.not_eq_true, uuidInUse_iff (h.startable e' he').uuid] at hfree' ⊢
      rintro ⟨d', hd', hkey'⟩
      rcases (hslots d').mp hd' with rfl | hd'
      · exact hne (h.uuids e' he' e he (hkey'.symm.trans hkey))
      · exact hfree' ⟨d', hd', hkey'⟩
  refine
    { h with
      oneSlot := distinct_update h.oneSlot fun j b hj hkey' => ?_
      slotUuid := fun d' hd' => ?_
      shown := fun d' hd' => ?_
      covered := fun e' he' => ?_
      queued := fun p hp => ?_ }
  · rw [← Bool.not_eq_true, uuidInUse_iff (h.startable e he).uuid] at hfree
    exact absurd ⟨b, ⟨j, hj⟩, hkey'.trans hkey⟩ hfree
  · rcases (hslots d').mp hd' with rfl | hd'
    · rw [hkey]
      exact huuid
    · exact h.slotUuid d' hd'
  · rcases (hslots d').mp hd'.1 with rfl | hold
    · exact ⟨e, he, hshown⟩
    · exact h.shown d' ⟨hold, hd'.2⟩
  · rcases h.covered e' he' with ⟨d', hd', hkey'⟩ | hqueued | ⟨hleft, hfree'⟩
    · exact Or.inl ⟨d', hlive d' hd', hkey'⟩
    · exact Or.inr (Or.inl hqueued)
    · rcases hstill e' he' hfree' with rfl | hfree'
      · exact Or.inl ⟨d, hnew, hkey⟩
      · exact Or.inr (Or.inr ⟨hleft, hfree'⟩)
  · rcases h.queued p hp with htarget | ⟨d', hd', hkey'⟩ | ⟨e', hleft, he', hkey', hfree'⟩
    · exact Or.inl htarget
    · exact Or.inr (Or.inl ⟨d', hlive d' hd', hkey'⟩)
    · rcases hstill e' he' hfree' with rfl | hfree'
      · exact Or.inr (Or.inl ⟨d, hnew, hkey.trans hkey'⟩)
      · exact Or.inr (Or.inr ⟨e', hleft, he', hkey', hfree'⟩)

/-- An entry of the target that is queued is queued. -/
theorem queue (h : Partway dv target left) (he : e ∈ target) :
    (pendingQueue dv e).limitHit = true ∨
      Partway (pendingQueue dv e) target left ∧ Holds (pendingQueue dv e).pending e := by
  rcases pendingQueue_cases h.oneQueued e with hq | ⟨t, hq, hdist, hholds⟩
  · exact Or.inl (by rw [hq])
  · refine Or.inr ?_
    rw [hq]
    refine ⟨{ h with oneQueued := hdist, queuedUuid := ?_, covered := ?_, queued := ?_ },
      (hholds e).mpr (Or.inl rfl)⟩
    · intro p hp
      rcases (hholds p).mp hp with rfl | ⟨hp, -⟩
      · exact (h.startable p he).uuid
      · exact h.queuedUuid p hp
    · intro e' he'
      rcases h.covered e' he' with hlive | hqueued | hleft
      · exact Or.inl hlive
      · refine Or.inr (Or.inl ((hholds e').mpr ?_))
        by_cases hkey : entryKey e' = entryKey e
        · exact Or.inl (h.uuids e' he' e he hkey)
        · exact Or.inr ⟨hqueued, hkey⟩
      · exact Or.inr (Or.inr hleft)
    · intro p hp
      rcases (hholds p).mp hp with rfl | ⟨hp, -⟩
      · exact Or.inl he
      · exact h.queued p hp

/-- A round of the second loop handles its entry. -/
theorem addRound (h : Partway dv target (e :: left)) (he : e ∈ target ↔ e.enabled = true) :
    (MoonFlare.addRound dv e).limitHit = true ∨ Partway (MoonFlare.addRound dv e) target left := by
  unfold MoonFlare.addRound
  cases hen : e.enabled with
  | false =>
    refine Or.inr ?_
    simp only [Bool.not_false, if_true]
    exact h.drop fun hmem => by simp [he.mp hmem] at hen
  | true =>
    have hmem := he.mpr hen
    cases huse : dv.uuidInUse e.uuid.str with
    | true =>
      refine Or.inr ?_
      simp only [Bool.not_true, Bool.false_eq_true, if_false, if_true]
      exact h.drop fun _ => Or.inl huse
    | false =>
      simp only [Bool.not_true, Bool.false_eq_true, if_false]
      rcases addFromCfg_cases h.opens (h.startable e hmem) huse with
        ⟨-, hadd⟩ | hadd | ⟨i, d, samples, u, -, hi, hstop, hshown, hadd⟩
      · rw [hadd]
        simp only [AddError.code, if_true]
        rcases h.queue hmem with hfull | ⟨hnext, hqueued⟩
        · exact Or.inl hfull
        · exact Or.inr (hnext.drop fun _ => Or.inr hqueued)
      · rw [hadd]
        exact Or.inl rfl
      · rw [hadd]
        refine Or.inr ((h.withSlot hmem huse hi hstop hshown samples).drop fun _ => Or.inl ?_)
        exact (uuidInUse_iff (h.startable e hmem).uuid).mpr
          ⟨d, (holds_update_of_empty hi).mpr (Or.inl rfl), shown_key hshown⟩

/-- An entry whose module is live can leave the queue. -/
theorem unqueue (h : Partway dv target []) {j : Fin mfDeviceSlots} {p : ConfigDevice}
    (hj : dv.pending j = some p) (hlive : ∃ d, Live dv d ∧ slotKey d = entryKey p) :
    Partway { dv with pending := Function.update dv.pending j none } target [] :=
  have hholds (q : ConfigDevice) := @holds_update_none _ _ _ entryKey dv.pending j p q h.oneQueued hj
  { h with
    oneQueued := distinct_update_none h.oneQueued j
    queuedUuid := fun q hq => h.queuedUuid q ((hholds q).mp hq).1
    covered := fun e he => by
      rcases h.covered e he with hlive' | hqueued | ⟨hleft, -⟩
      · exact Or.inl hlive'
      · by_cases hkey : entryKey e = entryKey p
        · exact Or.inl (hkey ▸ hlive)
        · exact Or.inr (Or.inl ((hholds e).mpr ⟨hqueued, hkey⟩))
      · simp at hleft
    queued := fun q hq => h.queued q ((hholds q).mp hq).1 }

/-- A round of `mf_devices_apply_pending` keeps the invariant. -/
theorem pendingRound (h : Partway dv target []) (j : Fin mfDeviceSlots) :
    (MoonFlare.pendingRound dv j).limitHit = true ∨
      Partway (MoonFlare.pendingRound dv j) target [] := by
  unfold MoonFlare.pendingRound
  cases hj : dv.pending j with
  | none => exact Or.inr h
  | some p =>
    dsimp only
    cases huse : dv.uuidInUse p.uuid.str with
    | true => exact Or.inr h
    | false =>
      have hmem : p ∈ target := by
        rcases h.queued p ⟨j, hj⟩ with hmem | ⟨d, hd, hkey⟩ | ⟨e, hleft, -⟩
        · exact hmem
        · have hin := uuidInUse_of_live hd hkey (h.queuedUuid p ⟨j, hj⟩)
          exact absurd (huse.symm.trans hin) (by simp)
        · simp at hleft
      simp only [Bool.false_eq_true, if_false]
      rcases addFromCfg_cases h.opens (h.startable p hmem) huse with
        ⟨-, hadd⟩ | hadd | ⟨i, d, samples, u, -, hi, hstop, hshown, hadd⟩
      · rw [hadd]
        exact Or.inr h
      · rw [hadd]
        exact Or.inl rfl
      · rw [hadd]
        refine Or.inr ((h.withSlot hmem huse hi hstop hshown samples).unqueue hj ⟨d, ⟨?_, hstop⟩, ?_⟩)
        · exact (holds_update_of_empty hi).mpr (Or.inl rfl)
        · exact shown_key hshown

end Partway

/-- A full table stays recorded while a module is added. -/
theorem mfDevicesAdd_limitHit {dv : Devices κ ε} (h : dv.limitHit = true)
    (name kind driver spec uuidIn : CString) (generated : CBuf 37) :
    (mfDevicesAdd dv name kind driver spec uuidIn generated).1.limitHit = true := by
  unfold mfDevicesAdd
  split
  · exact h
  split
  · exact h
  split
  · exact h
  split
  · exact h
  split
  · exact h
  split
  · rfl
  · dsimp only
    split <;> exact h

theorem addRound_limitHit {dv : Devices κ ε} (h : dv.limitHit = true) (e : ConfigDevice) :
    (addRound dv e).limitHit = true := by
  have hadd := mfDevicesAdd_limitHit h e.name.str e.kind.str e.driver.str
    (mfConfigDeviceSerialize e) e.uuid.str (CBuf.zero 37)
  unfold addRound
  split
  · exact h
  split
  · exact h
  split
  · rename_i dv' err hres
    rw [show mfDevicesAdd .. = _ from hres] at hadd
    split
    · exact (pendingQueue_frame dv' e).2.2 hadd
    · exact hadd
  · rename_i dv' u hres
    rw [show mfDevicesAdd .. = _ from hres] at hadd
    exact hadd

theorem pendingRound_limitHit {dv : Devices κ ε} (h : dv.limitHit = true) (j : Fin mfDeviceSlots) :
    (pendingRound dv j).limitHit = true := by
  unfold pendingRound
  split
  · exact h
  split
  · exact h
  · rename_i e _ _
    have hadd := mfDevicesAdd_limitHit h e.name.str e.kind.str e.driver.str
      (mfConfigDeviceSerialize e) e.uuid.str (CBuf.zero 37)
    split
    · rename_i dv' err hres
      rw [show mfDevicesAdd .. = _ from hres] at hadd
      split <;> exact hadd
    · rename_i dv' u hres
      rw [show mfDevicesAdd .. = _ from hres] at hadd
      exact hadd

/-- The second loop handles every entry that is left. -/
theorem addRounds {dv : Devices κ ε} {target left : List ConfigDevice} (h : Partway dv target left)
    (hleft : ∀ e ∈ left, e ∈ target ↔ e.enabled = true) :
    (left.foldl addRound dv).limitHit = true ∨ Partway (left.foldl addRound dv) target [] := by
  have hfull (l : List ConfigDevice) {dv : Devices κ ε} (hdv : dv.limitHit = true) :
      (l.foldl addRound dv).limitHit = true := by
    induction l generalizing dv with
    | nil => exact hdv
    | cons e l ih => exact ih (addRound_limitHit hdv e)
  induction left generalizing dv with
  | nil => exact Or.inr h
  | cons e left ih =>
    rcases h.addRound (hleft e List.mem_cons_self) with hdv | hnext
    · exact Or.inl (hfull left hdv)
    · exact ih hnext fun e' he' => hleft e' (List.mem_cons_of_mem e he')

/-- Retrying the queue keeps the invariant. -/
theorem applyPending_inv {dv : Devices κ ε} {target : List ConfigDevice}
    (h : Partway dv target []) :
    (mfDevicesApplyPending dv).limitHit = true ∨ Partway (mfDevicesApplyPending dv) target [] := by
  have hfull (l : List (Fin mfDeviceSlots)) {dv : Devices κ ε} (hdv : dv.limitHit = true) :
      (l.foldl pendingRound dv).limitHit = true := by
    induction l generalizing dv with
    | nil => exact hdv
    | cons j l ih => exact ih (pendingRound_limitHit hdv j)
  have hrounds (l : List (Fin mfDeviceSlots)) {dv : Devices κ ε} (hdv : Partway dv target []) :
      (l.foldl pendingRound dv).limitHit = true ∨ Partway (l.foldl pendingRound dv) target [] := by
    induction l generalizing dv with
    | nil => exact Or.inr hdv
    | cons j l ih =>
      rcases hdv.pendingRound j with hlimit | hnext
      · exact Or.inl (hfull l hlimit)
      · exact ih hnext
  exact hrounds _ h

/-- Two entries of a list whose entries are pairwise compatible are the same
or compatible. -/
theorem eq_or_compatible {devs : List ConfigDevice} (h : devs.Pairwise Compatible)
    {e e' : ConfigDevice} (he : e ∈ devs) (he' : e' ∈ devs) :
    e = e' ∨ Compatible e e' ∨ Compatible e' e := by
  induction devs with
  | nil => simp at he
  | cons d devs ih =>
    obtain ⟨hd, hdevs⟩ := List.pairwise_cons.mp h
    rcases List.mem_cons.mp he with rfl | hin
    · rcases List.mem_cons.mp he' with rfl | hin'
      · exact Or.inl rfl
      · exact Or.inr (Or.inl (hd e' hin'))
    · rcases List.mem_cons.mp he' with rfl | hin'
      · exact Or.inr (Or.inr (hd e hin))
      · exact ih hdevs hin hin'

theorem eq_of_entryKey {devs : List ConfigDevice} (h : devs.Pairwise Compatible)
    {e e' : ConfigDevice} (he : e ∈ devs) (he' : e' ∈ devs) (hkey : entryKey e = entryKey e') :
    e = e' := by
  rcases eq_or_compatible h he he' with heq | hc | hc
  · exact heq
  · exact absurd (CBuf.ext hkey) hc.uuid
  · exact absurd (CBuf.ext hkey.symm) hc.uuid

theorem eq_of_name {devs : List ConfigDevice} (h : devs.Pairwise Compatible)
    {e e' : ConfigDevice} (he : e ∈ devs) (he' : e' ∈ devs) (hne : e.name.str.nonempty = true)
    (hname : e.name.str = e'.name.str) : e = e' := by
  rcases eq_or_compatible h he he' with heq | hc | hc
  · exact heq
  · exact absurd (CBuf.ext hname) (hc.name hne)
  · exact absurd (CBuf.ext hname.symm) (hc.name (hname ▸ hne))

/-- The entry found for a uuid is the only one there is. -/
theorem wanted_eq {devs : List ConfigDevice} (h : devs.Pairwise Compatible) {e : ConfigDevice}
    (he : e ∈ devs) : wanted devs (entryKey e) = some e := by
  cases hw : wanted devs (entryKey e) with
  | none =>
    have hnone := List.find?_eq_none.mp hw e he
    simp [entryKey] at hnone
  | some e' =>
    obtain ⟨he', hkey⟩ := wanted_some hw
    rw [eq_of_entryKey h he' he hkey]

/-- The slot of an enabled entry is reopened or patched with it. -/
theorem verdict_of_enabled {devs : List ConfigDevice} (h : devs.Pairwise Compatible)
    {e : ConfigDevice} (he : e ∈ devs) (hen : e.enabled = true) {d : Slot κ ε}
    (hkey : slotKey d = entryKey e) :
    verdict devs d = if identityChanged d e then .reopen e else .patch e := by
  rw [verdict, show d.uuid.str = entryKey e from hkey, wanted_eq h he]
  simp [hen]

/-- The first loop turns the invariant for the old target into the one for the
new target, with every entry still to be handled. -/
theorem sweep_partway {s : Sys κ ε} (h : Inv s) {devs : List ConfigDevice}
    (hvalid : validateApply s.dv devs = none) (horderly : Orderly s (.apply devs)) :
    (sweep devs s.dv).limitHit = true ∨
      Partway (sweep devs s.dv) (devs.filter (·.enabled)) devs := by
  obtain ⟨hsame, hqueued, hfit⟩ := horderly hvalid
  obtain ⟨⟨hentries, hpairs⟩, -⟩ := validateApply_eq_none.mp hvalid
  obtain ⟨hreg, -, hslots⟩ := sweep_frame devs s.dv
  have hmem (e : ConfigDevice) : e ∈ devs.filter (·.enabled) ↔ e ∈ devs ∧ e.enabled = true := by
    simp
  have hlive (d : Slot κ ε) (hd : Holds s.dv.slots d) {w : ConfigDevice}
      (hv : verdict devs d = .patch w) : Live (sweep devs s.dv) (patchSlot d w) := by
    obtain ⟨hw, hen, hkey, hid⟩ := verdict_patch hv
    obtain ⟨i, hi⟩ := hd
    refine ⟨⟨i, by rw [hslots]; simp [hi, applySlot, hv]⟩, ?_⟩
    rw [← Bool.not_eq_true]
    intro hstop
    simp [hsame d ⟨i, hi⟩ hstop w hw hen hkey] at hid
  have hinUse (u : CString) (hu : u.nonempty = true) :
      (sweep devs s.dv).uuidInUse u = true ↔ ∃ d, Holds s.dv.slots d ∧ slotKey d = u := by
    rw [uuidInUse_iff hu, hslots]
    constructor
    · rintro ⟨d, ⟨i, hi⟩, hkey⟩
      obtain ⟨d', hd', rfl⟩ := Option.map_eq_some_iff.mp hi
      exact ⟨d', ⟨i, hd'⟩, (applySlot_key devs d').symm.trans hkey⟩
    · rintro ⟨d, ⟨i, hi⟩, hkey⟩
      exact ⟨applySlot devs d, ⟨i, by simp [hi]⟩, (applySlot_key devs d).trans hkey⟩
  rcases sweep_queue devs h.oneSlot h.slotUuid h.oneQueued with hfull | ⟨hdist, hholds⟩
  · exact Or.inl hfull
  refine Or.inr
    { opens := hreg ▸ h.opens
      startable := fun e he => ?_
      uuids := fun e he e' he' => eq_of_entryKey hpairs ((hmem e).mp he).1 ((hmem e').mp he').1
      names := fun e he e' he' hname => ?_
      oneSlot := hslots ▸ distinct_map h.oneSlot (applySlot_key devs)
      slotUuid := fun d hd => ?_
      shown := fun d hd => ?_
      oneQueued := hdist
      queuedUuid := fun p hp => ?_
      covered := fun e he => ?_
      queued := fun p hp => ?_ }
  · obtain ⟨he, hen⟩ := (hmem e).mp he
    have hvalid := hentries e he
    obtain ⟨hname, hkind, hdriver⟩ := hvalid.required hen
    obtain ⟨hfit1, hfit2, hfit3⟩ := hfit e he hen
    rw [hreg]
    exact ⟨hvalid.uuid, hfit1, hname, hvalid.nameFits, hkind, hfit2, hdriver, hfit3,
      hvalid.known hen⟩
  · obtain ⟨he, hen⟩ := (hmem e).mp he
    exact eq_of_name hpairs he ((hmem e').mp he').1 ((hentries e he).required hen).1 hname
  · obtain ⟨i, hi⟩ := hd
    rw [hslots] at hi
    obtain ⟨d', hd', rfl⟩ := Option.map_eq_some_iff.mp hi
    rw [applySlot_key]
    exact h.slotUuid d' ⟨i, hd'⟩
  · obtain ⟨⟨i, hi⟩, hstop⟩ := hd
    rw [hslots] at hi
    obtain ⟨d', hd', rfl⟩ := Option.map_eq_some_iff.mp hi
    cases hv : verdict devs d' with
    | retire => simp [applySlot, hv] at hstop
    | reopen w => simp [applySlot, hv] at hstop
    | patch w =>
      obtain ⟨hw, hen, hkey, hid⟩ := verdict_patch hv
      refine ⟨w, (hmem w).mpr ⟨hw, hen⟩, ?_⟩
      rw [applySlot, hv]
      exact patchSlot_shown hkey hid (hentries w hw).nameFits
  · rcases (hholds p).mp hp with ⟨hp, -⟩ | ⟨d, hd, hv⟩
    · exact h.queuedUuid p hp
    · rw [(verdict_reopen hv).2.2]
      exact h.slotUuid d hd
  · obtain ⟨he, hen⟩ := (hmem e).mp he
    by_cases huse : ∃ d, Holds s.dv.slots d ∧ slotKey d = entryKey e
    · obtain ⟨d, hd, hkey⟩ := huse
      have hv := verdict_of_enabled hpairs he hen hkey
      split at hv
      · exact Or.inr (Or.inl ((hholds e).mpr (Or.inr ⟨d, hd, hv⟩)))
      · exact Or.inl ⟨patchSlot d e, hlive d hd hv, hkey⟩
    · refine Or.inr (Or.inr ⟨he, ?_⟩)
      rw [← Bool.not_eq_true, hinUse _ (hentries e he).uuid]
      exact huse
  · rcases (hholds p).mp hp with ⟨hp, hall⟩ | ⟨d, hd, hv⟩
    · by_cases huse : ∃ d, Holds s.dv.slots d ∧ slotKey d = entryKey p
      · obtain ⟨d, hd, hkey⟩ := huse
        obtain ⟨w, hv⟩ := hall d hd hkey
        exact Or.inr (Or.inl ⟨patchSlot d w, hlive d hd hv, hkey⟩)
      · have hfree : s.dv.uuidInUse p.uuid.str = false :=
          (uuidInUse_eq_false (h.queuedUuid p hp)).mpr fun d hd hkey => huse ⟨d, hd, hkey⟩
        obtain ⟨e, he, hen, hkey⟩ := hqueued p hp hfree
        refine Or.inr (Or.inr ⟨e, he, (hmem e).mpr ⟨he, hen⟩, hkey, ?_⟩)
        rw [← Bool.not_eq_true, hinUse _ (hentries e he).uuid, show e.uuid.str = entryKey p from hkey]
        exact huse
    · obtain ⟨hp, hen, -⟩ := verdict_reopen hv
      exact Or.inl ((hmem p).mpr ⟨hp, hen⟩)

/-- Applying a configuration keeps the invariant. -/
theorem apply_inv {s : Sys κ ε} (h : Inv s) {devs : List ConfigDevice}
    (horderly : Orderly s (.apply devs)) (hlimit : WithinLimits s (.apply devs)) :
    Inv (step s (.apply devs)) := by
  unfold WithinLimits at hlimit
  cases hvalid : validateApply s.dv devs with
  | some err =>
    have hstep : step s (.apply devs) = s := by simp [step, mfDevicesApplyConfig, hvalid]
    rw [hstep]
    exact h
  | none =>
    have hstep : step s (.apply devs) =
        ⟨devs.foldl addRound (sweep devs s.dv), devs.filter (·.enabled)⟩ := by
      simp [step, mfDevicesApplyConfig, hvalid, applyAccepted, sweep]
    rw [hstep] at hlimit ⊢
    have hfull (l : List ConfigDevice) {dv : Devices κ ε} (hdv : dv.limitHit = true) :
        (l.foldl addRound dv).limitHit = true := by
      induction l generalizing dv with
      | nil => exact hdv
      | cons e l ih => exact ih (addRound_limitHit hdv e)
    rcases sweep_partway h hvalid horderly with hdv | hpart
    · simp [hfull devs hdv] at hlimit
    · rcases addRounds hpart fun e he => by simp [he] with hdv | hdone
      · simp [hdv] at hlimit
      · exact hdone

/-- The invariant depends on what the live slots show, not on what they
hold beside it. -/
theorem Partway.relive {dv dv' : Devices κ ε} {target : List ConfigDevice}
    (h : Partway dv target []) (hreg : dv'.registry = dv.registry)
    (hpending : dv'.pending = dv.pending) (hone : Distinct slotKey dv'.slots)
    (huuid : ∀ d, Holds dv'.slots d → (slotKey d).nonempty = true)
    (hback : ∀ d, Live dv' d → ∃ d', Live dv d' ∧ d'.shown = d.shown)
    (hforth : ∀ d, Live dv d → ∃ d', Live dv' d' ∧ d'.shown = d.shown) :
    Partway dv' target [] where
  opens := hreg ▸ h.opens
  startable := hreg ▸ h.startable
  uuids := h.uuids
  names := h.names
  oneSlot := hone
  slotUuid := huuid
  shown := fun d hd => by
    obtain ⟨d', hd', hshown⟩ := hback d hd
    obtain ⟨e, he, hshown'⟩ := h.shown d' hd'
    exact ⟨e, he, hshown.symm.trans hshown'⟩
  oneQueued := hpending ▸ h.oneQueued
  queuedUuid := hpending ▸ h.queuedUuid
  covered := fun e he => by
    rw [hpending]
    rcases h.covered e he with ⟨d, hd, hkey⟩ | hqueued | ⟨hleft, -⟩
    · obtain ⟨d', hd', hshown⟩ := hforth d hd
      exact Or.inl ⟨d', hd', (congrArg Shown.uuid hshown).trans hkey⟩
    · exact Or.inr (Or.inl hqueued)
    · simp at hleft
  queued := fun p hp => by
    rcases h.queued p (hpending ▸ hp) with hmem | ⟨d, hd, hkey⟩ | ⟨e, hleft, -⟩
    · exact Or.inl hmem
    · obtain ⟨d', hd', hshown⟩ := hforth d hd
      exact Or.inr (Or.inl ⟨d', hd', (congrArg Shown.uuid hshown).trans hkey⟩)
    · simp at hleft

/-- A round of a slot's thread keeps the invariant. -/
theorem tick_inv {s : Sys κ ε} (h : Inv s) (i : Fin mfDeviceSlots) (e : ε) :
    Inv (step s (.tick i e)) := by
  cases hi : s.dv.slots i with
  | none =>
    have hstep : step s (.tick i e) = s := by simp [step, Devices.tick, hi]
    rw [hstep]
    exact h
  | some d =>
    have hslots : (step s (.tick i e)).dv.slots =
        Function.update s.dv.slots i (devicePt s.dv.historyOpen e d).1 := by
      simp [step, Devices.tick, hi, Devices.setSlot]
    have hreg : (step s (.tick i e)).dv.registry = s.dv.registry := by
      simp [step, Devices.tick, hi, Devices.setSlot]
    have hpending : (step s (.tick i e)).dv.pending = s.dv.pending := by
      simp [step, Devices.tick, hi, Devices.setSlot]
    cases hstop : d.stop with
    | true =>
      rw [devicePt_stopping hstop] at hslots
      have hholds (c : Slot κ ε) : Holds (step s (.tick i e)).dv.slots c ↔
          Holds s.dv.slots c ∧ slotKey c ≠ slotKey d := by
        rw [hslots]
        exact holds_update_none h.oneSlot hi
      refine Partway.relive h hreg hpending (hslots ▸ distinct_update_none h.oneSlot i)
        (fun c hc => h.slotUuid c ((hholds c).mp hc).1)
        (fun c hc => ⟨c, ⟨((hholds c).mp hc.1).1, hc.2⟩, rfl⟩) fun c hc => ?_
      refine ⟨c, ⟨(hholds c).mpr ⟨hc.1, fun hkey => ?_⟩, hc.2⟩, rfl⟩
      have hcd := h.oneSlot.eq_of_key hc.1 ⟨i, hi⟩ hkey
      exact absurd (hc.2.symm.trans (hcd ▸ hstop)) (by simp)
    | false =>
      obtain ⟨d', hd', hstop', hshown⟩ := devicePt_live hstop s.dv.historyOpen e
      rw [hd'] at hslots
      have hkey : slotKey d' = slotKey d := congrArg Shown.uuid hshown
      have hholds (c : Slot κ ε) : Holds (step s (.tick i e)).dv.slots c ↔
          c = d' ∨ Holds s.dv.slots c ∧ slotKey c ≠ slotKey d := by
        rw [hslots]
        exact holds_replace h.oneSlot hi
      refine Partway.relive h hreg hpending
        (hslots ▸ distinct_update h.oneSlot fun j b hj hb => h.oneSlot j i b d hj hi (hb.trans hkey))
        (fun c hc => ?_) (fun c hc => ?_) fun c hc => ?_
      · rcases (hholds c).mp hc with rfl | ⟨hc, -⟩
        · rw [hkey]
          exact h.slotUuid d ⟨i, hi⟩
        · exact h.slotUuid c hc
      · rcases (hholds c).mp hc.1 with rfl | ⟨hold, -⟩
        · exact ⟨d, ⟨⟨i, hi⟩, hstop⟩, hshown.symm⟩
        · exact ⟨c, ⟨hold, hc.2⟩, rfl⟩
      · by_cases hcd : slotKey c = slotKey d
        · obtain rfl := h.oneSlot.eq_of_key hc.1 ⟨i, hi⟩ hcd
          exact ⟨d', ⟨(hholds d').mpr (Or.inl rfl), hstop'⟩, hshown⟩
        · exact ⟨c, ⟨(hholds c).mpr (Or.inr ⟨hc.1, hcd⟩), hc.2⟩, rfl⟩

/-- What a delete does: nothing under status 404, when it names no queued
module without a slot; else its uuid leaves the queue and its slot stops. -/
theorem delete_cases {dv : Devices κ ε} {uuid : CString}
    (horderly : dv.uuidInUse uuid = true ∨ ∀ p, Holds dv.pending p → entryKey p ≠ uuid) :
    mfDevicesDelete dv uuid = (dv, 404) ∨
    uuid.nonempty = true ∧ ∃ i d, dv.slots i = some d ∧ slotKey d = uuid ∧
      mfDevicesDelete dv uuid =
        ({ dv with
            pending := cancel entryKey dv.pending uuid
            slots := Function.update dv.slots i (some { d with stop := true }) }, 202) := by
  unfold mfDevicesDelete
  cases hne : uuid.nonempty with
  | false => exact Or.inl (by simp)
  | true =>
    simp only [not_true_eq_false, if_false]
    cases hfind : Devices.findSlot { dv with pending := pendingCancel dv.pending uuid }
        fun d => d.uuid.str = uuid with
    | none =>
      refine Or.inl ?_
      have hnone := Devices.anySlot_eq_false.mp (Devices.findSlot_eq_none.mp hfind)
      have hfree : dv.uuidInUse uuid = false :=
        (uuidInUse_eq_false hne).mpr fun d ⟨i, hi⟩ hkey => by
          simpa [show d.uuid.str = uuid from hkey] using hnone i d hi
      rcases horderly with huse | habsent
      · simp [huse] at hfree
      · rw [pendingCancel_eq hne, cancel_of_absent habsent]
    | some i =>
      obtain ⟨d, hd, hkey⟩ := Devices.findSlot_some hfind
      have hi : dv.slots i = some d := hd
      refine Or.inr ⟨trivial, i, d, hi, by simpa [slotKey] using hkey, ?_⟩
      rw [pendingCancel_eq hne]
      simp [Devices.setSlot, hi]

/-- Deleting keeps the invariant. -/
theorem delete_inv {s : Sys κ ε} (h : Inv s) {uuid : CString}
    (horderly : Orderly s (.delete uuid)) : Inv (step s (.delete uuid)) := by
  rcases delete_cases horderly with hdel | ⟨hne, i, d, hi, hkey, hdel⟩
  · have hstep : step s (.delete uuid) = s := by simp [step, hdel]
    rw [hstep]
    exact h
  · have hstep : step s (.delete uuid) =
        ⟨{ s.dv with
            pending := cancel entryKey s.dv.pending uuid
            slots := Function.update s.dv.slots i (some { d with stop := true }) },
          s.target.filter fun e => decide (entryKey e ≠ uuid)⟩ := by
      simp [step, hdel]
    rw [hstep]
    have hholds (c : Slot κ ε) :
        Holds (Function.update s.dv.slots i (some { d with stop := true })) c ↔
          c = { d with stop := true } ∨ Holds s.dv.slots c ∧ slotKey c ≠ uuid := by
      rw [← hkey]
      exact holds_replace h.oneSlot hi
    have hlive (c : Slot κ ε) (hc : Holds
        (Function.update s.dv.slots i (some { d with stop := true })) c) (hstop : c.stop = false) :
        Live s.dv c ∧ slotKey c ≠ uuid := by
      rcases (hholds c).mp hc with rfl | ⟨hold, hne⟩
      · simp at hstop
      · exact ⟨⟨hold, hstop⟩, hne⟩
    have hmem (e : ConfigDevice) : e ∈ s.target.filter (fun e => decide (entryKey e ≠ uuid)) ↔
        e ∈ s.target ∧ entryKey e ≠ uuid := by
      simp
    exact
      { opens := h.opens
        startable := fun e he => h.startable e ((hmem e).mp he).1
        uuids := fun e he e' he' => h.uuids e ((hmem e).mp he).1 e' ((hmem e').mp he').1
        names := fun e he e' he' => h.names e ((hmem e).mp he).1 e' ((hmem e').mp he').1
        oneSlot := distinct_update h.oneSlot fun j b hj hb => h.oneSlot j i b d hj hi hb
        slotUuid := fun c hc => by
          rcases (hholds c).mp hc with rfl | ⟨hc, -⟩
          · exact h.slotUuid d ⟨i, hi⟩
          · exact h.slotUuid c hc
        shown := fun c hc => by
          obtain ⟨hc', hne'⟩ := hlive c hc.1 hc.2
          obtain ⟨e, he, hshown⟩ := h.shown c hc'
          exact ⟨e, (hmem e).mpr ⟨he, shown_key hshown ▸ hne'⟩, hshown⟩
        oneQueued := distinct_cancel h.oneQueued uuid
        queuedUuid := fun p hp => h.queuedUuid p (holds_cancel.mp hp).1
        covered := fun e he => by
          obtain ⟨he, hne'⟩ := (hmem e).mp he
          rcases h.covered e he with ⟨c, hc, hkey'⟩ | hqueued | ⟨hleft, -⟩
          · exact Or.inl ⟨c, ⟨(hholds c).mpr (Or.inr ⟨hc.1, hkey' ▸ hne'⟩), hc.2⟩, hkey'⟩
          · exact Or.inr (Or.inl (holds_cancel.mpr ⟨hqueued, hne'⟩))
          · simp at hleft
        queued := fun p hp => by
          obtain ⟨hp, hne'⟩ := holds_cancel.mp hp
          rcases h.queued p hp with hp' | ⟨c, hc, hkey'⟩ | ⟨e, hleft, -⟩
          · exact Or.inl ((hmem p).mpr ⟨hp', hne'⟩)
          · exact Or.inr (Or.inl ⟨c, ⟨(hholds c).mpr (Or.inr ⟨hc.1, hkey' ▸ hne'⟩), hc.2⟩, hkey'⟩)
          · simp at hleft }

/-- Every orderly step within the limits keeps the invariant. -/
theorem step_inv {s : Sys κ ε} (h : Inv s) (a : Act ε) (horderly : Orderly s a)
    (hlimit : WithinLimits s a) : Inv (step s a) := by
  cases a with
  | apply devs => exact apply_inv h horderly hlimit
  | delete uuid => exact delete_inv h horderly
  | tick i e => exact tick_inv h i e
  | pending =>
    rcases applyPending_inv h with hdv | hnext
    · exact absurd (hlimit.symm.trans hdv) (by simp)
    · exact hnext

/-- Later in a retry of the queue: no slot in use has changed, and nothing has
joined the queue. -/
structure Later (dv dv' : Devices κ ε) : Prop where
  registry : dv'.registry = dv.registry
  slots : ∀ d, Holds dv.slots d → Holds dv'.slots d
  queue : ∀ j p, dv'.pending j = some p → dv.pending j = some p

theorem Later.refl (dv : Devices κ ε) : Later dv dv := ⟨rfl, fun _ h => h, fun _ _ h => h⟩

theorem Later.trans {dv dv' dv'' : Devices κ ε} (h : Later dv dv') (h' : Later dv' dv'') :
    Later dv dv'' :=
  ⟨h'.registry.trans h.registry, fun d hd => h'.slots d (h.slots d hd),
    fun j p hp => h.queue j p (h'.queue j p hp)⟩

theorem mfDevicesAdd_later (dv : Devices κ ε) (name kind driver spec uuidIn : CString)
    (generated : CBuf 37) : Later dv (mfDevicesAdd dv name kind driver spec uuidIn generated).1 := by
  unfold mfDevicesAdd
  split
  · exact Later.refl dv
  split
  · exact Later.refl dv
  split
  · exact Later.refl dv
  split
  · exact Later.refl dv
  split
  · exact Later.refl dv
  split
  · exact ⟨rfl, fun _ h => h, fun _ _ h => h⟩
  · rename_i i hslot
    dsimp only
    split
    · exact Later.refl dv
    · refine ⟨rfl, fun d hd => ?_, fun _ _ h => h⟩
      exact (holds_update_of_empty (freeSlot_some hslot)).mpr (Or.inr hd)

theorem pendingRound_later (dv : Devices κ ε) (j : Fin mfDeviceSlots) :
    Later dv (pendingRound dv j) := by
  have hclear {dv' : Devices κ ε} (h : Later dv dv') :
      Later dv { dv' with pending := Function.update dv'.pending j none } :=
    ⟨h.registry, h.slots, fun k p hk => by
      by_cases hkj : k = j
      · subst hkj
        simp at hk
      · dsimp only at hk
        exact h.queue k p (by rwa [Function.update_of_ne hkj] at hk)⟩
  unfold pendingRound
  split
  · exact Later.refl dv
  split
  · exact Later.refl dv
  · rename_i e _ _
    have hadd := mfDevicesAdd_later dv e.name.str e.kind.str e.driver.str
      (mfConfigDeviceSerialize e) e.uuid.str (CBuf.zero 37)
    split
    · rename_i dv' err hres
      rw [show mfDevicesAdd .. = _ from hres] at hadd
      split
      · exact hadd
      · exact hclear hadd
    · rename_i dv' u hres
      rw [show mfDevicesAdd .. = _ from hres] at hadd
      exact hclear hadd

theorem pendingRounds_later (l : List (Fin mfDeviceSlots)) (dv : Devices κ ε) :
    Later dv (l.foldl pendingRound dv) := by
  induction l generalizing dv with
  | nil => exact Later.refl dv
  | cons j l ih => exact (pendingRound_later dv j).trans (ih _)

/-- A queued entry of the target that a settled table does not open has a slot. -/
theorem inUse_of_settled {dv : Devices κ ε} {target : List ConfigDevice}
    (h : Partway dv target []) (hsettled : Settled dv) {e : ConfigDevice} (he : e ∈ target)
    (hqueued : Holds dv.pending e) : dv.uuidInUse e.uuid.str = true := by
  obtain ⟨hlive, hstays⟩ := hsettled
  obtain ⟨j, hj⟩ := hqueued
  have hstart := h.startable e he
  obtain ⟨l, l', hsplit⟩ := List.append_of_mem (List.mem_finRange j)
  -- the table in the round of the entry's place, and after it
  have hbefore := pendingRounds_later l dv
  have hend : l'.foldl pendingRound (pendingRound (l.foldl pendingRound dv) j) = dv := by
    have hfold : (List.finRange mfDeviceSlots).foldl pendingRound dv = dv := hstays
    rwa [hsplit, List.foldl_append, List.foldl_cons] at hfold
  have hafter := pendingRounds_later l' (pendingRound (l.foldl pendingRound dv) j)
  rw [hend] at hafter
  have hround := pendingRound_later (l.foldl pendingRound dv) j
  have hkept := hafter.queue j e hj
  have hthere := hround.queue j e hkept
  have hback (d : Slot κ ε) (hd : Holds (l.foldl pendingRound dv).slots d) : Holds dv.slots d :=
    hafter.slots d (hround.slots d hd)
  clear hend hafter hround
  generalize l.foldl pendingRound dv = mid at hbefore hkept hthere hback
  cases huse : mid.uuidInUse e.uuid.str with
  | true =>
    obtain ⟨d, hd, hkey⟩ := (uuidInUse_iff hstart.uuid).mp huse
    exact (uuidInUse_iff hstart.uuid).mpr ⟨d, hback d hd, hkey⟩
  | false =>
    have hgone (i : Fin mfDeviceSlots → Option ConfigDevice) :
        Function.update i j none j ≠ some e := by simp
    unfold pendingRound at hkept
    rw [hthere] at hkept
    simp only [huse, Bool.false_eq_true, if_false] at hkept
    rcases addFromCfg_cases (hbefore.registry ▸ h.opens) (hbefore.registry ▸ hstart) huse with
      ⟨hname, -⟩ | hadd | ⟨i, d, samples, u, -, -, -, -, hadd⟩
    · obtain ⟨d, hd, hdname⟩ := nameTaken_iff.mp hname
      have hdv := hback d hd
      obtain ⟨e', he', hshown⟩ := h.shown d ⟨hdv, hlive d hdv⟩
      have hsame : e' = e :=
        h.names e' he' e he ((congrArg Shown.name hshown).symm.trans hdname)
      exact (uuidInUse_iff hstart.uuid).mpr ⟨d, hdv, hsame ▸ shown_key hshown⟩
    · rw [hadd] at hkept
      exact absurd hkept (hgone _)
    · rw [hadd] at hkept
      exact absurd hkept (hgone _)

/-- Under the invariant the table has converged. -/
theorem converged_of_inv {s : Sys κ ε} (h : Inv s) : Converged s where
  oneSlot := h.oneSlot
  shown := h.shown
  settled := fun hsettled e he => by
    have huse : ∃ d, Holds s.dv.slots d ∧ slotKey d = entryKey e := by
      rcases h.covered e he with ⟨d, hd, hkey⟩ | hqueued | ⟨hleft, -⟩
      · exact ⟨d, hd.1, hkey⟩
      · exact (uuidInUse_iff (h.startable e he).uuid).mp (inUse_of_settled h hsettled he hqueued)
      · simp at hleft
    obtain ⟨d, hd, hkey⟩ := huse
    have hlive : Live s.dv d := ⟨hd, hsettled.1 d hd⟩
    obtain ⟨e', he', hshown⟩ := h.shown d hlive
    obtain rfl := h.uuids e' he' e he ((shown_key hshown).symm.trans hkey)
    exact ⟨d, hlive, hshown⟩

/-- A 404 leaves the table as it was, when no queued module without a slot is
named. -/
theorem deleteHonest_of_orderly {s : Sys κ ε} {a : Act ε} (horderly : Orderly s a) :
    DeleteHonest s a := by
  rintro uuid rfl h404
  rcases delete_cases horderly with hdel | ⟨-, i, d, -, -, hdel⟩
  · rw [hdel]
  · rw [hdel] at h404
    simp at h404

theorem inv_start {registry : Registry κ ε} (hopen : OpensSucceed registry) (historyOpen : Bool) :
    Inv (start registry historyOpen) where
  opens := hopen
  startable := by simp [start]
  uuids := by simp [start]
  names := by simp [start]
  oneSlot := fun i j a b hi => by simp [start, mfDevicesInit] at hi
  slotUuid := fun d ⟨i, hi⟩ => by simp [start, mfDevicesInit] at hi
  shown := fun d ⟨⟨i, hi⟩, _⟩ => by simp [start, mfDevicesInit] at hi
  oneQueued := fun i j a b hi => by simp [start, mfDevicesInit] at hi
  queuedUuid := fun p ⟨i, hi⟩ => by simp [start, mfDevicesInit] at hi
  covered := by simp [start]
  queued := fun p ⟨i, hi⟩ => by simp [start, mfDevicesInit] at hi

/-- A run from any state of the invariant. -/
theorem converges_of_inv {s : Sys κ ε} (h : Inv s) {as : List (Act ε)}
    (hrun : Along step (fun s a => Orderly s a ∧ WithinLimits s a) s as) : Converges s as := by
  induction as generalizing s with
  | nil => exact trivial
  | cons a as ih =>
    obtain ⟨⟨horderly, hlimit⟩, hrest⟩ := hrun
    have hnext := step_inv h a horderly hlimit
    exact ⟨⟨converged_of_inv hnext, deleteHonest_of_orderly horderly⟩, ih hnext hrest⟩

/-- In every run of orderly steps within the limits, whatever their order, the
table converges to the target after every step, and a delete answered 404
changes nothing. -/
theorem converges_of_orderly {registry : Registry κ ε} (hopen : OpensSucceed registry)
    (historyOpen : Bool) {as : List (Act ε)}
    (hrun : Along step (fun s a => Orderly s a ∧ WithinLimits s a) (start registry historyOpen) as) :
    Converges (start registry historyOpen) as :=
  converges_of_inv (inv_start hopen historyOpen) hrun

theorem batteryOnly_opens : OpensSucceed Xd.batteryOnly := by
  intro o ho openCtx hopenCtx spec
  obtain rfl := List.mem_singleton.mp ho
  exact ⟨_, congrFun (Option.some.inj hopenCtx).symm spec⟩

/-- An entry for a battery. -/
def packEntry : ConfigDevice :=
  { ConfigDevice.zero with
    uuid := CBuf.copy 40 (CString.lit "u1")
    name := CBuf.copy 64 (CString.lit "Pack")
    kind := CBuf.copy 32 (CString.lit "battery")
    driver := CBuf.copy 32 (CString.lit "xd")
    enabled := true }

/-- A configuration that slots can hold is orderly when no slot is stopping and nothing
is queued. -/
theorem orderly_apply {s : Sys κ ε} {devs : List ConfigDevice}
    (hslots : ∀ i, (s.dv.slots i).all (fun d => !d.stop) = true)
    (hqueue : ∀ j, (s.dv.pending j).isNone = true)
    (hfit : ∀ e ∈ devs, e.enabled = true →
      e.uuid.str.length < 37 ∧ e.kind.str.length < 16 ∧ e.driver.str.length < 16) :
    Orderly s (.apply devs) := by
  refine fun _ => ⟨?_, ?_, hfit⟩
  · rintro d ⟨i, hi⟩ hstop
    have hruns := hslots i
    rw [hi] at hruns
    simp [hstop] at hruns
  · rintro p ⟨j, hj⟩
    have hnone := hqueue j
    rw [hj] at hnone
    cases hnone

/-- The battery is moved to another bus: its slot stops, the entry waits for its place,
and gets it once the thread has ended. Then the battery is deleted. -/
def movedAndDeleted : List (Act Xd.XdEnv) :=
  [.apply [packEntry], .apply [{ packEntry with bus := CBuf.copy 32 (CString.lit "usb1") }],
    .tick ⟨0, by decide⟩ ⟨0, true, CString.empty, .needRead⟩, .pending, .delete (CString.lit "u1")]

theorem converges_of_orderly_pack : Converges (start Xd.batteryOnly true) movedAndDeleted := by
  refine converges_of_orderly batteryOnly_opens true ⟨⟨?_, ?_⟩, ⟨?_, ?_⟩, ⟨trivial, ?_⟩,
    ⟨trivial, ?_⟩, ⟨?_, ?_⟩, trivial⟩
  · exact orderly_apply (by decide +kernel) (by decide +kernel) (by decide)
  · unfold WithinLimits
    decide +kernel
  · exact orderly_apply (by decide +kernel) (by decide +kernel) (by decide)
  · unfold WithinLimits
    decide +kernel
  · unfold WithinLimits
    decide +kernel
  · unfold WithinLimits
    decide +kernel
  · exact .inl (by decide +kernel)
  · unfold WithinLimits
    decide +kernel

/-- Retrying an empty queue changes nothing. -/
theorem applyPending_of_empty {dv : Devices κ ε} (h : ∀ j, dv.pending j = none) :
    mfDevicesApplyPending dv = dv := by
  have hround (j : Fin mfDeviceSlots) : pendingRound dv j = dv := by rw [pendingRound, h]
  have hrounds (l : List (Fin mfDeviceSlots)) : l.foldl pendingRound dv = dv := by
    induction l with
    | nil => rfl
    | cons j l ih => rw [List.foldl_cons, hround, ih]
  exact hrounds _

/-- A module is configured, removed, and configured again before its slot has
stopped. -/
def removedAndReadded : List (Act Xd.XdEnv) :=
  [.apply [packEntry], .apply [], .apply [packEntry],
    .tick ⟨0, by decide⟩ ⟨0, true, CString.empty, .needRead⟩]

/-- Configured again while its old slot is stopping, a module is not running
once everything has settled. -/
theorem readded_module_lost :
    ¬Converges (start Xd.batteryOnly true) (removedAndReadded ++ [.pending]) := by
  intro h
  have hlast := ((along_append _ _ removedAndReadded [.pending]).mp h).2.1.1
  have hslots : ∀ i, (step (run step (start Xd.batteryOnly true) removedAndReadded)
      .pending).dv.slots i = none := by
    simp only [← Option.isNone_iff_eq_none]
    decide +kernel
  have hpending : ∀ j, (step (run step (start Xd.batteryOnly true) removedAndReadded)
      .pending).dv.pending j = none := by
    simp only [← Option.isNone_iff_eq_none]
    decide +kernel
  have htarget : packEntry ∈ (step (run step (start Xd.batteryOnly true) removedAndReadded)
      .pending).target := by
    decide +kernel
  obtain ⟨d, ⟨⟨i, hi⟩, -⟩, -⟩ := hlast.settled
    ⟨fun d ⟨i, hi⟩ => absurd ((hslots i).symm.trans hi) (by simp), applyPending_of_empty hpending⟩
    packEntry htarget
  exact absurd ((hslots i).symm.trans hi) (by simp)

end MoonFlare.Convergence
