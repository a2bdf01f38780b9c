import MoonFlare.ClassicCharger
import MoonFlare.DeviceSlots
import MoonFlare.Runs
import MoonFlare.XdBattery

/-!
# What the online flag says

A module is watched from its opening through any number of rounds of its slot's
thread. Two marks are kept beside the slot: whether some step has decoded a
reply, and whether the last communication failure is still without a decoded
reply after it. The slot refreshes its reading after every step that is not an
error, and once when it is opened.
-/

namespace MoonFlare.Online

open Runs

variable {κ ε : Type}

/-- A plugin whose readings never fail, with or without data. -/
structure AlwaysReads (ops : PluginOps κ ε) : Prop where
  steps : ops.step ≠ none
  reads : ∃ getReading, ops.getReading = some getReading ∧ ∀ c, getReading c ≠ none

theorem xd_alwaysReads (pollIntervalS now : ℚ) (opened : Bool) (openError : CString) :
    AlwaysReads (Xd.xdOps pollIntervalS now opened openError) where
  steps := by simp [Xd.xdOps]
  reads := ⟨Xd.xdGetReading, rfl, fun c => by
    unfold Xd.xdGetReading
    split <;> simp⟩

theorem classic_alwaysReads (spec : Classic.ClassicSpec) (opening : Classic.ClassicEnv) :
    AlwaysReads (Classic.classicOps spec opening) where
  steps := by simp [Classic.classicOps]
  reads := ⟨Classic.classicGetReading, rfl, fun c => by
    unfold Classic.classicGetReading
    split <;> simp⟩

/-- A slot in use with what its thread has seen and handed on. -/
structure Watched (κ ε : Type) where
  slot : Slot κ ε
  /-- The samples handed to the history. -/
  samples : List Sample
  /-- A step has decoded a reply. -/
  decoded : Bool
  /-- A step has failed, and none has decoded a reply since. -/
  failing : Bool

/-- What the plugin's step returns in the next round. -/
def stepResult (d : Slot κ ε) (e : ε) : MfStep :=
  match d.ops.bind (·.step), d.ctx with
  | some step, some ctx => (step e ctx).2
  | _, _ => .idle

/-- The failure mark after a step. -/
def failingAfter (failing : Bool) : MfStep → Bool
  | .error => true
  | .updated => false
  | .idle => failing

/-- One round of the slot's thread. -/
def watch (historyOpen : Bool) (w : Watched κ ε) (e : ε) : Watched κ ε :=
  match devicePt historyOpen e w.slot with
  | (none, _) => w
  | (some d, samples) =>
    { slot := d
      samples := w.samples ++ samples
      decoded := w.decoded || decide (stepResult w.slot e = .updated)
      failing := failingAfter w.failing (stepResult w.slot e) }

/-- A module as `mf_devices_add` opens it. -/
def opened (historyOpen : Bool) (ops : PluginOps κ ε) (name kind driver spec : CString)
    (uuid : CBuf 37) : Except AddError (Watched κ ε) :=
  (openSlot historyOpen spec (newSlot (some ops) name kind driver spec uuid)).map
    fun (d, samples) => ⟨d, samples, false, false⟩

/-- The flag is off while a failure stands, and before anything is decoded. -/
def Truthful (w : Watched κ ε) : Prop :=
  (w.failing = true → w.slot.online = false) ∧ (w.decoded = false → w.slot.online = false)

/-- A round that ends with a failure standing publishes nothing. -/
def Silent (w w' : Watched κ ε) : Prop :=
  w'.failing = true → w'.slot.seq = w.slot.seq ∧ w'.samples = w.samples

/-- The flag is truthful from the opening on, and failures are silent. -/
def ReportsTruth (historyOpen : Bool) (w : Watched κ ε) (es : List ε) : Prop :=
  Truthful w ∧ Along (watch historyOpen)
    (fun w e => Truthful (watch historyOpen w e) ∧ Silent w (watch historyOpen w e)) w es

/-- While a failure stands the flag is off and nothing is published. -/
def FailuresHeld (historyOpen : Bool) (w : Watched κ ε) (es : List ε) : Prop :=
  Along (watch historyOpen) (fun w e =>
    ((watch historyOpen w e).failing = true → (watch historyOpen w e).slot.online = false) ∧
      Silent w (watch historyOpen w e)) w es

/-- No step is idle while a failure stands. -/
def NeverIdleWhileFailing (historyOpen : Bool) (w : Watched κ ε) (es : List ε) : Prop :=
  Along (watch historyOpen) (fun w e => w.failing = true → stepResult w.slot e ≠ .idle) w es

/-- A slot that is driven: not stopping, its plugin open and always
readable. -/
structure Driven (d : Slot κ ε) : Prop where
  running : d.stop = false
  plugin : ∃ ops, d.ops = some ops ∧ AlwaysReads ops
  isOpen : ∃ ctx, d.ctx = some ctx

/-- A reading that does not fail puts the slot online and counts one more. -/
theorem refreshReading_reads {historyOpen : Bool} {d : Slot κ ε} (hd : Driven d) :
    Driven (refreshReading historyOpen d).1 ∧
      (refreshReading historyOpen d).1.online = true ∧
      (refreshReading historyOpen d).1.seq = d.seq + 1 := by
  obtain ⟨hrun, ⟨ops, hops, hreads⟩, ctx, hctx⟩ := hd
  obtain ⟨getReading, hget, hsome⟩ := hreads.reads
  obtain ⟨reading, hreading⟩ := Option.ne_none_iff_exists'.mp (hsome ctx)
  simp only [refreshReading, hops, hctx, hget, hreading]
  split
  · exact ⟨⟨hrun, ⟨ops, rfl, hreads⟩, ctx, rfl⟩, rfl, rfl⟩
  · exact ⟨⟨hrun, ⟨ops, rfl, hreads⟩, ctx, rfl⟩, rfl, rfl⟩

/-- What a round does to a driven slot: an error puts it offline and publishes
nothing, any other result puts it online with one more reading. -/
theorem watch_driven {historyOpen : Bool} {w : Watched κ ε} (hd : Driven w.slot) (e : ε) :
    Driven (watch historyOpen w e).slot ∧
      (watch historyOpen w e).failing = failingAfter w.failing (stepResult w.slot e) ∧
      (stepResult w.slot e = .error ∧ (watch historyOpen w e).slot.online = false ∧
          (watch historyOpen w e).slot.seq = w.slot.seq ∧
          (watch historyOpen w e).samples = w.samples ∨
        stepResult w.slot e ≠ .error ∧ (watch historyOpen w e).slot.online = true ∧
          (watch historyOpen w e).slot.seq = w.slot.seq + 1) := by
  obtain ⟨hrun, ⟨ops, hops, hreads⟩, ctx, hctx⟩ := hd
  obtain ⟨step, hstep⟩ := Option.ne_none_iff_exists'.mp hreads.steps
  have hresult : stepResult w.slot e = (step e ctx).2 := by
    simp only [stepResult, hops, hctx, Option.bind_some, hstep]
  by_cases herr : (step e ctx).2 = .error
  · have hfails : ∃ lastError, devicePt historyOpen e w.slot = (some { w.slot with
        ctx := some (step e ctx).1, online := false, lastError := lastError }, []) := by
      simp only [devicePt, hrun, Bool.false_eq_true, if_false, hops, hctx, hstep, herr, if_true]
      exact ⟨_, rfl⟩
    obtain ⟨_, hpt⟩ := hfails
    simp only [watch, hpt, hresult, herr, List.append_nil]
    exact ⟨⟨hrun, ⟨ops, hops, hreads⟩, _, rfl⟩, trivial, Or.inl ⟨trivial, trivial, trivial, trivial⟩⟩
  · have hmid : Driven { w.slot with ctx := some (step e ctx).1 } :=
      ⟨hrun, ⟨ops, hops, hreads⟩, _, rfl⟩
    obtain ⟨hdriven, honline, hseq⟩ := @refreshReading_reads _ _ historyOpen _ hmid
    have hpt : devicePt historyOpen e w.slot =
        (some (refreshReading historyOpen { w.slot with ctx := some (step e ctx).1 }).1,
          (refreshReading historyOpen { w.slot with ctx := some (step e ctx).1 }).2) := by
      simp only [devicePt, hrun, Bool.false_eq_true, if_false, hops, hctx, hstep, herr]
    simp only [watch, hpt, hresult]
    exact ⟨hdriven, trivial, Or.inr ⟨herr, honline, hseq⟩⟩

/-- Opening a module whose readings never fail leaves it driven and online,
with nothing decoded. -/
theorem opened_online {historyOpen : Bool} {ops : PluginOps κ ε} {openCtx : CString → Except CString κ}
    (hops : AlwaysReads ops) (hopen : ops.openCtx = some openCtx)
    {name kind driver spec : CString} {uuid : CBuf 37} {w : Watched κ ε}
    (h : opened historyOpen ops name kind driver spec uuid = .ok w) :
    Driven w.slot ∧ w.slot.online = true ∧ w.decoded = false ∧ w.failing = false := by
  simp only [opened, openSlot, newSlot, Option.bind_some, hopen] at h
  cases hctx : openCtx spec with
  | error text => simp [hctx, Except.map] at h
  | ok ctx =>
    simp only [hctx, Except.map, Except.ok.injEq] at h
    subst h
    refine ⟨(refreshReading_reads ?_).1, (refreshReading_reads ?_).2.1, rfl, rfl⟩
    · exact ⟨rfl, ⟨ops, rfl, hops⟩, ctx, rfl⟩
    · exact ⟨rfl, ⟨ops, rfl, hops⟩, ctx, rfl⟩

/-- Failures are held in a run exactly when no step is idle while one
stands. -/
theorem failuresHeld_iff {historyOpen : Bool} {w : Watched κ ε} (hd : Driven w.slot)
    (es : List ε) : FailuresHeld historyOpen w es ↔ NeverIdleWhileFailing historyOpen w es := by
  refine @along_congr _ _ _ (fun w => Driven w.slot) _ _ (fun _ => True)
    (fun w e hd _ _ => (watch_driven hd e).1) (fun w e hd _ => ?_) _ hd _ fun _ _ => trivial
  obtain ⟨-, hfail, hcase⟩ := @watch_driven _ _ historyOpen _ hd e
  have hseq : w.slot.seq + 1 ≠ w.slot.seq := by simp
  cases hres : stepResult w.slot e with
  | idle => simp_all [Silent, failingAfter]
  | updated => simp_all [Silent, failingAfter]
  | error => simp_all [Silent, failingAfter]

/-- A module whose readings never fail reports itself online before anything
is decoded, whatever happens afterwards. -/
theorem not_reportsTruth {historyOpen : Bool} {w : Watched κ ε} (honline : w.slot.online = true)
    (hdecoded : w.decoded = false) (es : List ε) : ¬ReportsTruth historyOpen w es := by
  rintro ⟨⟨-, hoff⟩, -⟩
  simp [hoff hdecoded] at honline

/-- What holds of a module from its opening on, in every run: it is not
truthful, and failures are held exactly when no step is idle while one
stands. -/
def NeverTruthful (historyOpen : Bool) (ops : PluginOps κ ε) (name kind driver spec : CString)
    (uuid : CBuf 37) : Prop :=
  ∃ w, opened historyOpen ops name kind driver spec uuid = .ok w ∧ ∀ es,
    ¬ReportsTruth historyOpen w es ∧
      (FailuresHeld historyOpen w es ↔ NeverIdleWhileFailing historyOpen w es)

/-- A module that always opens and whose readings never fail is never
truthful. -/
theorem neverTruthful_of_alwaysReads {ops : PluginOps κ ε} (hops : AlwaysReads ops) {ctx : κ}
    (hopen : ops.openCtx = some fun _ => .ok ctx) (historyOpen : Bool)
    (name kind driver spec : CString) (uuid : CBuf 37) :
    NeverTruthful historyOpen ops name kind driver spec uuid := by
  have hok : ∃ w, opened historyOpen ops name kind driver spec uuid = .ok w := by
    simp only [opened, openSlot, newSlot, Option.bind_some, hopen, Except.map]
    exact ⟨_, rfl⟩
  obtain ⟨w, hw⟩ := hok
  obtain ⟨hdriven, honline, hdecoded, -⟩ := opened_online hops hopen hw
  exact ⟨w, hw, fun es => ⟨not_reportsTruth honline hdecoded es, failuresHeld_iff hdriven es⟩⟩

/-- Neither the battery nor the charger is ever truthful: each is online from
its opening, and comes back online with the first idle step after a
failure. -/
theorem online_before_any_reply (historyOpen : Bool) (name kind driver spec : CString)
    (uuid : CBuf 37) :
    (∀ (pollIntervalS now : ℚ) (isOpen : Bool) (openError : CString),
      NeverTruthful historyOpen (Xd.xdOps pollIntervalS now isOpen openError) name kind driver spec
        uuid) ∧
    ∀ (modbus : Classic.ClassicSpec) (opening : Classic.ClassicEnv),
      NeverTruthful historyOpen (Classic.classicOps modbus opening) name kind driver spec uuid :=
  ⟨fun p n o t =>
      neverTruthful_of_alwaysReads (xd_alwaysReads p n o t) rfl historyOpen name kind driver spec uuid,
    fun m o =>
      neverTruthful_of_alwaysReads (classic_alwaysReads m o) rfl historyOpen name kind driver spec
        uuid⟩

/-- A battery that never answers: the line times out, then a step waits. -/
def silentBattery : List Xd.XdEnv :=
  [⟨1, true, CString.empty, .failed (CString.lit "timeout")⟩,
    ⟨2, true, CString.empty, .needTime⟩]

/-- After the timeout and the waiting step the battery is online, one reading
further and without a single reply. -/
theorem silent_battery_online :
    ∃ w, opened true (Xd.xdOps 2 0 true CString.empty) (CString.lit "pack")
        (CString.lit "battery") (CString.lit "xd") (CString.lit "\x7b\x7d")
        (CBuf.copy 37 (CString.lit "u1")) = .ok w ∧
      (run (watch true) w silentBattery).slot.online = true ∧
      (run (watch true) w silentBattery).slot.seq = 2 ∧
      (run (watch true) w silentBattery).failing = true ∧
      (run (watch true) w silentBattery).decoded = false ∧
      ¬ReportsTruth true w silentBattery := by
  refine ⟨_, rfl, by decide +kernel, by decide +kernel, by decide +kernel, by decide +kernel, ?_⟩
  rintro ⟨⟨-, hoff⟩, -⟩
  exact absurd (hoff rfl) (by decide +kernel)

end MoonFlare.Online
