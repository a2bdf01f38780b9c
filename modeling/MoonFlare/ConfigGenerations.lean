import MoonFlare.RestHandlers
import MoonFlare.Runs
import MoonFlare.XdBattery

/-!
# Generations of the configuration

Clients read the live configuration with its generation and send it back under
that generation. The state of the model carries, for each client and generation
it has read, whether another client's request has changed the configuration
since, and whether the configuration has been replaced as a whole since. Only
the latter counts a generation.
-/

namespace MoonFlare

variable {κ ε : Type}

@[simp] theorem setError_status (status : ℕ) (msg : CString) :
    (setError status msg).status = status := rfl

@[simp] theorem setJson_status (status : ℕ) (root : CJson) (location : CString) :
    (setJson status root location).status = status := rfl

@[simp] theorem setEtagGen_status (resp : Response) (gen : UInt64) :
    (setEtagGen resp gen).status = resp.status := rfl

@[simp] theorem handleConfigGet_status (s : Daemon κ ε) : (handleConfigGet s).status = 200 := rfl

@[simp] theorem pendingReply_status (gen : UInt64) : (pendingReply gen).status = 202 := rfl

@[simp] theorem cfgRemoveUuid_configGen (cfg : DaemonConfig) (uuid : CString) :
    (cfgRemoveUuid cfg uuid).configGen = cfg.configGen := by
  unfold cfgRemoveUuid
  split <;> rfl

@[simp] theorem cfgUpsertFromJson_configGen (cfg : DaemonConfig) (uuid : CString) (root : CJson) :
    (cfgUpsertFromJson cfg uuid root).configGen = cfg.configGen := by
  unfold cfgUpsertFromJson
  split
  · rfl
  · split
    · rfl
    · split <;> rfl

@[simp] theorem cfgPatchSettings_configGen (dv : Devices κ ε) (cfg : DaemonConfig) (uuid : CString)
    (body : CJson) : (cfgPatchSettings dv cfg uuid body).configGen = cfg.configGen := by
  unfold cfgPatchSettings
  split <;> rfl

/-- Adding a module does not count a generation. -/
theorem handleDevicesCreate_configGen (env : RestEnv) (s : Daemon κ ε) (body : Bytes) :
    (handleDevicesCreate env s body).1.cfg.configGen = s.cfg.configGen := by
  unfold handleDevicesCreate
  split
  · rfl
  · split
    · dsimp only
      split
      · rfl
      · exact cfgUpsertFromJson_configGen _ _ _
    · rfl

/-- Deleting a module does not count a generation. -/
theorem handleDeviceDelete_configGen (s : Daemon κ ε) (id : CString) :
    (handleDeviceDelete s id).1.cfg.configGen = s.cfg.configGen := by
  unfold handleDeviceDelete
  split
  · exact cfgRemoveUuid_configGen _ _
  · rfl

/-- Changing a module's settings does not count a generation. -/
theorem handleSettingsPut_configGen (env : RestEnv) (s : Daemon κ ε) (id : CString)
    (body : Bytes) : (handleSettingsPut env s id body).1.cfg.configGen = s.cfg.configGen := by
  unfold handleSettingsPut
  dsimp only
  split
  · rfl
  · dsimp only
    split
    · exact cfgPatchSettings_configGen _ _ _ _
    · rfl

/-- An answer that takes a configuration. -/
def Response.accepts (resp : Response) : Prop := resp.status = 200 ∨ resp.status = 202

instance (resp : Response) : Decidable resp.accepts := inferInstanceAs (Decidable (_ ∨ _))

/-- Adopting a configuration either refuses it, with an error that is not a
conflict, or counts one generation. -/
theorem adoptConfig_cases (env : RestEnv) (s : Daemon κ ε) (next : DaemonConfig) :
    ((adoptConfig env s next).1.cfg = s.cfg ∧ ¬(adoptConfig env s next).2.accepts ∧
        (adoptConfig env s next).2.status ≠ 409) ∨
      ((adoptConfig env s next).1.cfg = { next with configGen := s.cfg.configGen + 1 } ∧
        (adoptConfig env s next).2.accepts) := by
  unfold adoptConfig
  split
  · exact Or.inl ⟨rfl, by simp [Response.accepts], by simp⟩
  · split
    · exact Or.inl ⟨rfl, by simp [Response.accepts], by simp⟩
    · split
      · exact Or.inl ⟨rfl, by simp [Response.accepts], by simp⟩
      · refine Or.inr ⟨rfl, ?_⟩
        dsimp only
        split
        · exact Or.inr rfl
        · exact Or.inl rfl

namespace Generations

open CJson Runs

/-- The document a request with a body carries. -/
def document (body : Bytes) : Option CJson := if body = [] then none else parseWithLength body

/-- A generation plainly written in a header: digits in quotes or without. -/
def plainHeader (ifMatch : CString) : Option UInt64 :=
  let (ds, rest) := Decimal.spanDigits (ifMatch.bytes.dropWhile fun b => b = 32 ∨ b = 34)
  if ds ≠ [] ∧ rest.all (· = 34) ∧ Decimal.ofDigits ds < 2 ^ 64 then
    some (UInt64.ofNat (Decimal.ofDigits ds))
  else none

/-- A number that is a generation. -/
def plainNumber : Double → Option UInt64
  | .fin d =>
    if d.val.den = 1 ∧ 0 ≤ d.val.num ∧ d.val.num < 2 ^ 64 then some (UInt64.ofNat d.val.num.toNat)
    else none
  | _ => none

/-- The generation a `PUT /config` carries, as it is written there. -/
def writtenGen (ifMatch : CString) (root : CJson) : Option UInt64 :=
  match (getCase? (some root) "config_gen").bind number? with
  | some v => plainNumber v
  | none => plainHeader ifMatch

/-- The generation that a request with a document carries. -/
def carried (ifMatch : CString) (body : Bytes) : Option UInt64 :=
  (document body).bind (writtenGen ifMatch)

theorem doubleToU64_of_plainNumber {v : Double} {g : UInt64} (h : plainNumber v = some g) :
    doubleToU64 v = g := by
  match v with
  | .nan => simp [plainNumber] at h
  | .inf neg => simp [plainNumber] at h
  | .fin d =>
    simp only [plainNumber] at h
    split at h
    case isFalse => simp at h
    case isTrue hplain =>
      obtain ⟨hden, h0, hlt⟩ := hplain
      have htdiv : Int.tdiv d.val.num d.val.den = d.val.num := by
        rw [hden, Nat.cast_one, Int.tdiv_one]
      rw [← Option.some.inj h]
      simp only [doubleToU64, htdiv]
      rw [if_pos ⟨by omega, hlt⟩, Int.emod_eq_of_lt h0 hlt]

/-- The first of a run of digits is no space and no sign. -/
theorem digit_head {b : Bytes} (h : (Decimal.spanDigits b).1 ≠ []) :
    Decimal.scanSign (b.dropWhile Double.isSpace) = (false, b) := by
  match b with
  | [] => simp [Decimal.spanDigits] at h
  | c :: rest =>
    have hdigit : Decimal.digitOf c ≠ none := by
      intro hnone
      simp [Decimal.spanDigits, hnone] at h
    have hrange : 48 ≤ c.toNat ∧ c.toNat ≤ 57 := by
      unfold Decimal.digitOf at hdigit
      by_contra hout
      exact hdigit (dif_neg hout)
    have hspace : Double.isSpace c = false := by
      simp only [Double.isSpace, Bool.or_eq_false_iff, beq_eq_false_iff_ne, Bool.and_eq_false_iff,
        decide_eq_false_iff_not, UInt8.le_iff_toNat_le, ne_eq, ← UInt8.toNat_inj, UInt8.reduceToNat]
      omega
    rw [List.dropWhile_cons_of_neg (by simp [hspace])]
    unfold Decimal.scanSign
    split
    case h_1 heq =>
      simp only [List.cons.injEq] at heq
      rw [heq.1] at hrange
      exact absurd hrange (by decide)
    case h_2 heq =>
      simp only [List.cons.injEq] at heq
      rw [heq.1] at hrange
      exact absurd hrange (by decide)
    case h_3 => rfl

theorem headerGen_of_plainHeader {ifMatch : CString} {g : UInt64}
    (h : plainHeader ifMatch = some g) : headerGen ifMatch = g := by
  unfold plainHeader at h
  dsimp only at h
  split at h
  case isFalse => simp at h
  case isTrue hplain =>
    obtain ⟨hne, -, hlt⟩ := hplain
    rw [← Option.some.inj h]
    unfold headerGen Decimal.strtoull
    dsimp only
    rw [digit_head hne]
    dsimp only
    split
    case h_1 hnil => exact absurd hnil hne
    case h_2 d ds hcons =>
      rw [hcons] at hlt ⊢
      rw [if_neg (by omega)]
      rfl

/-- The daemon reads a plainly written generation as it is written. -/
theorem requestGen_of_writtenGen {ifMatch : CString} {root : CJson} {g : UInt64}
    (h : writtenGen ifMatch root = some g) : requestGen ifMatch (some root) = some g := by
  unfold writtenGen at h
  unfold requestGen
  split
  case h_1 v hv =>
    rw [hv] at h
    rw [doubleToU64_of_plainNumber h]
  case h_2 hv =>
    rw [hv] at h
    have hne : ifMatch.nonempty = true := by
      rw [CString.nonempty_iff]
      rintro rfl
      simp [plainHeader, Decimal.spanDigits] at h
    rw [if_pos hne, headerGen_of_plainHeader h]

/-- What happens to the daemon: a client's request, a round of a slot's thread
or of the queue. -/
inductive Event (ε C : Type) where
  | request (client : C) (env : RestEnv) (req : Request)
  | tick (i : Fin mfDeviceSlots) (e : ε)
  | applyPending

/-- The daemon, and what each client knows of its configuration. -/
structure World (κ ε C : Type) where
  daemon : Daemon κ ε
  /-- The client has read this generation. -/
  read : C → UInt64 → Prop
  /-- Since then another client's request has changed the configuration. -/
  stale : C → UInt64 → Prop
  /-- Since then a `PUT /config` or a `config/load` has been accepted. -/
  replaced : C → UInt64 → Prop

variable {C : Type}

/-- The requests that replace the configuration as a whole. -/
def replaces : Request → Bool
  | .configPut _ _ => true
  | .configLoad => true
  | _ => false

/-- A request: a reply with a generation is a read of that generation, and
starts its marks anew. -/
def request (w : World κ ε C) (c : C) (env : RestEnv) (req : Request) : World κ ε C :=
  let (s', resp) := mfRestDispatch env w.daemon req
  let reads := fun a g => resp.etag.str.nonempty = true ∧ a = c ∧ g = s'.cfg.configGen
  { daemon := s'
    read := fun a g => w.read a g ∨ reads a g
    stale := fun a g => ¬reads a g ∧ (w.stale a g ∨ a ≠ c ∧ s'.cfg ≠ w.daemon.cfg)
    replaced := fun a g => ¬reads a g ∧ (w.replaced a g ∨ replaces req = true ∧ resp.accepts) }

/-- One event. -/
def step (w : World κ ε C) : Event ε C → World κ ε C
  | .request c env req => request w c env req
  | .tick i e => { w with daemon := { w.daemon with dv := w.daemon.dv.tick i e } }
  | .applyPending =>
    { w with daemon := { w.daemon with dv := mfDevicesApplyPending w.daemon.dv } }

/-- A daemon nobody has read yet. -/
def start (s : Daemon κ ε) : World κ ε C :=
  ⟨s, fun _ _ => False, fun _ _ => False, fun _ _ => False⟩

/-- What the generation promises at a `PUT /config`: it is accepted only under
the live generation, and after another client's change it is a conflict that
leaves the daemon as it is. -/
def NoLostUpdate (w : World κ ε C) : Event ε C → Prop
  | .request c env (.configPut ifMatch body) =>
    ((handleConfigPut env w.daemon ifMatch body).2.accepts →
        carried ifMatch body = some w.daemon.cfg.configGen) ∧
      ∀ g, carried ifMatch body = some g → w.read c g → w.stale c g →
        (handleConfigPut env w.daemon ifMatch body).2.status = 409 ∧
          (handleConfigPut env w.daemon ifMatch body).1 = w.daemon
  | _ => True

/-- The condition at a `PUT /config`: whatever another client has changed since
the generation was read, the configuration has been replaced since too. -/
def ChangesReplaced (w : World κ ε C) : Event ε C → Prop
  | .request c _ (.configPut ifMatch body) =>
    ∀ g, carried ifMatch body = some g → w.read c g → w.stale c g → w.replaced c g
  | _ => True

/-- A `PUT /config` writes its generation plainly, if it gives one. -/
def PlainlyWritten : Event ε C → Prop
  | .request _ _ (.configPut ifMatch body) =>
    ∀ root, document body = some root →
      (requestGen ifMatch (some root)).isSome → (writtenGen ifMatch root).isSome
  | _ => True

/-- The counter has room for another generation. -/
def GenerationsLeft (w : World κ ε C) (_ : Event ε C) : Prop :=
  w.daemon.cfg.configGen.toNat + 1 < 2 ^ 64

/-- What a client has read lies behind the live generation, and is the live one
exactly while the configuration has not been replaced since. -/
def Inv (w : World κ ε C) : Prop :=
  ∀ c g, w.read c g → g ≤ w.daemon.cfg.configGen ∧ (w.replaced c g ↔ g ≠ w.daemon.cfg.configGen)

/-- The generation advances by one with each replacement, and with nothing
else. -/
theorem dispatch_configGen (env : RestEnv) (s : Daemon κ ε) (req : Request) :
    (mfRestDispatch env s req).1.cfg.configGen =
      if replaces req = true ∧ (mfRestDispatch env s req).2.accepts then s.cfg.configGen + 1
      else s.cfg.configGen := by
  have hadopt (next : DaemonConfig) : (adoptConfig env s next).1.cfg.configGen =
      if (adoptConfig env s next).2.accepts then s.cfg.configGen + 1 else s.cfg.configGen := by
    rcases adoptConfig_cases env s next with ⟨hcfg, hno, -⟩ | ⟨hcfg, hyes⟩
    · rw [if_neg hno, hcfg]
    · rw [if_pos hyes, hcfg]
  cases req with
  | configGet => rfl
  | configPut ifMatch body =>
    simp only [replaces, true_and, mfRestDispatch]
    unfold handleConfigPut
    split
    · rfl
    · split
      · exact hadopt _
      · rfl
  | configLoad =>
    simp only [replaces, true_and, mfRestDispatch]
    unfold handleConfigLoad
    split
    · rfl
    · exact hadopt _
  | devicesPost body => exact handleDevicesCreate_configGen env s body
  | deviceDelete id => exact handleDeviceDelete_configGen s (idbuf id)
  | settingsGet id => rfl
  | settingsPut id body => exact handleSettingsPut_configGen env s (idbuf id) body

theorem request_inv {w : World κ ε C} (h : Inv w) {c : C} {env : RestEnv} {req : Request}
    (hleft : w.daemon.cfg.configGen.toNat + 1 < 2 ^ 64) : Inv (request w c env req) := by
  intro a g hread
  have hgen := dispatch_configGen env w.daemon req
  simp only [request] at hread ⊢
  by_cases hnow : (mfRestDispatch env w.daemon req).2.etag.str.nonempty = true ∧ a = c ∧
      g = (mfRestDispatch env w.daemon req).1.cfg.configGen
  · simp [hnow.2.2, hnow.1, hnow.2.1]
  · obtain ⟨hle, hiff⟩ := h a g (hread.resolve_right hnow)
    simp only [hnow, not_false_eq_true, true_and]
    rw [hgen]
    split
    case isTrue hrep =>
      have hsucc : (w.daemon.cfg.configGen + 1).toNat = w.daemon.cfg.configGen.toNat + 1 := by
        rw [UInt64.toNat_add, UInt64.toNat_one, Nat.mod_eq_of_lt hleft]
      rw [UInt64.le_iff_toNat_le] at hle ⊢
      refine ⟨by omega, iff_of_true (Or.inr hrep) fun heq => ?_⟩
      have := congrArg UInt64.toNat heq
      omega
    case isFalse hno => exact ⟨hle, by simp only [hno, or_false, hiff]⟩

theorem step_inv {w : World κ ε C} (h : Inv w) (e : Event ε C)
    (hleft : GenerationsLeft w e) : Inv (step w e) := by
  cases e with
  | request c env req => exact request_inv h hleft
  | tick i e => exact h
  | applyPending => exact h

/-- A generation that does not match is a conflict, and leaves the daemon as it
is. -/
theorem handleConfigPut_mismatch {env : RestEnv} {s : Daemon κ ε} {ifMatch : CString}
    {body : Bytes} {g : UInt64} (hcarried : carried ifMatch body = some g)
    (hne : g ≠ s.cfg.configGen) :
    (handleConfigPut env s ifMatch body).2.status = 409 ∧
      (handleConfigPut env s ifMatch body).1 = s := by
  obtain ⟨root, hroot, hwritten⟩ := Option.bind_eq_some_iff.mp hcarried
  rw [document] at hroot
  unfold handleConfigPut
  rw [hroot]
  have hno : genMatches ifMatch (some root) s.cfg.configGen = false := by
    simp [genMatches, requestGen_of_writtenGen hwritten, hne]
  simp [hno]

/-- The live generation is never a conflict. -/
theorem handleConfigPut_match {env : RestEnv} {s : Daemon κ ε} {ifMatch : CString} {body : Bytes}
    (hcarried : carried ifMatch body = some s.cfg.configGen) :
    (handleConfigPut env s ifMatch body).2.status ≠ 409 := by
  obtain ⟨root, hroot, hwritten⟩ := Option.bind_eq_some_iff.mp hcarried
  rw [document] at hroot
  unfold handleConfigPut
  rw [hroot]
  have hyes : genMatches ifMatch (some root) s.cfg.configGen = true := by
    simp [genMatches, requestGen_of_writtenGen hwritten]
  simp only [hyes, if_true]
  rcases adoptConfig_cases env s (nextConfig s root) with ⟨-, -, hne⟩ | ⟨-, hyes⟩
  · exact hne
  · rcases hyes with h | h <;> rw [h] <;> decide

/-- An accepted configuration came under the live generation. -/
theorem carried_of_accepts {env : RestEnv} {s : Daemon κ ε} {ifMatch : CString} {body : Bytes}
    (hplain : ∀ root, document body = some root →
      (requestGen ifMatch (some root)).isSome → (writtenGen ifMatch root).isSome)
    (hacc : (handleConfigPut env s ifMatch body).2.accepts) :
    carried ifMatch body = some s.cfg.configGen := by
  cases hroot : document body with
  | none =>
    rw [document] at hroot
    unfold handleConfigPut at hacc
    rw [hroot] at hacc
    exact absurd hacc (by simp [Response.accepts])
  | some root =>
    have hdoc := hroot
    rw [document] at hdoc
    unfold handleConfigPut at hacc
    rw [hdoc] at hacc
    dsimp only at hacc
    split at hacc
    case isFalse => exact absurd hacc (by simp [Response.accepts])
    case isTrue hmatch =>
      have hgen : requestGen ifMatch (some root) = some s.cfg.configGen := by
        simpa [genMatches] using hmatch
      obtain ⟨g, hg⟩ := Option.isSome_iff_exists.mp (hplain root hroot (by rw [hgen]; rfl))
      have heq := (requestGen_of_writtenGen hg).symm.trans hgen
      rw [carried, hroot, Option.bind_some, hg, heq]

/-- At each request the promise holds exactly under the condition. -/
theorem noLostUpdate_iff {w : World κ ε C} (h : Inv w) {e : Event ε C} (hplain : PlainlyWritten e) :
    NoLostUpdate w e ↔ ChangesReplaced w e := by
  match e with
  | .request c env (.configPut ifMatch body) =>
    constructor
    · rintro ⟨-, hconflict⟩ g hcarried hread hstale
      rw [(h c g hread).2]
      rintro rfl
      exact handleConfigPut_match hcarried (hconflict _ hcarried hread hstale).1
    · intro hreplaced
      refine ⟨carried_of_accepts hplain, fun g hcarried hread hstale => ?_⟩
      exact handleConfigPut_mismatch hcarried
        ((h c g hread).2.mp (hreplaced g hcarried hread hstale))
  | .request _ _ .configGet => exact Iff.rfl
  | .request _ _ .configLoad => exact Iff.rfl
  | .request _ _ (.devicesPost _) => exact Iff.rfl
  | .request _ _ (.deviceDelete _) => exact Iff.rfl
  | .request _ _ (.settingsGet _) => exact Iff.rfl
  | .request _ _ (.settingsPut _ _) => exact Iff.rfl
  | .tick _ _ => exact Iff.rfl
  | .applyPending => exact Iff.rfl

/-- In every run in which generations are plainly written and do not run out,
no update is lost exactly when every change of another client since a read has
come with a replacement of the configuration. -/
theorem no_lost_update_iff (s : Daemon κ ε) {es : List (Event ε C)}
    (hplain : ∀ e ∈ es, PlainlyWritten e) (hleft : Along step GenerationsLeft (start s) es) :
    Along step NoLostUpdate (start s) es ↔ Along step ChangesReplaced (start s) es := by
  have hstep (w : World κ ε C) (e : Event ε C) (h : Inv w) (_ : PlainlyWritten e)
      (hok : GenerationsLeft w e ∧ ChangesReplaced w e) : Inv (step w e) := step_inv h e hok.1
  have hiff (w : World κ ε C) (e : Event ε C) (h : Inv w) (hp : PlainlyWritten e) :
      GenerationsLeft w e ∧ NoLostUpdate w e ↔ GenerationsLeft w e ∧ ChangesReplaced w e :=
    and_congr_right' (noLostUpdate_iff h hp)
  have hboth := along_congr hstep hiff (s := start s) (fun c g hread => hread.elim) hplain
  simpa only [along_and, hleft, true_and] using hboth

/-- A daemon with the battery plugin and no modules. -/
def batteryDaemon : Daemon Xd.XdCtx Xd.XdEnv :=
  ⟨mfDevicesInit Xd.batteryOnly true, mfConfigDefaults⟩

/-- The surroundings of a request that go well. -/
def calmEnv : RestEnv :=
  ⟨CBuf.copy 37 (CString.lit "6e62b1f2-5b0e-4f6e-9d3c-0f2d8c1a7b10"), Double.zero, true, none⟩

/-- Two clients read the configuration and one puts its copy back. -/
def readReadPut : List (Event Xd.XdEnv Bool) :=
  [.request true calmEnv .configGet, .request false calmEnv .configGet,
    .request false calmEnv (.configPut (CString.lit "\"1\"") (ascii "\x7b\x7d")),
    .request true calmEnv (.configPut (CString.lit "\"1\"") (ascii "\x7b\x7d"))]

theorem no_lost_update_iff_readReadPut :
    Along step NoLostUpdate (start batteryDaemon) readReadPut ↔
      Along step ChangesReplaced (start batteryDaemon) readReadPut := by
  have hput : PlainlyWritten (ε := Xd.XdEnv) (C := Bool)
      (.request true calmEnv (.configPut (CString.lit "\"1\"") (ascii "\x7b\x7d"))) := by
    intro root hroot _
    have hdoc : document (ascii "\x7b\x7d") = some (.object []) := by decide +kernel
    rw [hdoc] at hroot
    rw [← Option.some.inj hroot]
    decide +kernel
  refine no_lost_update_iff batteryDaemon ?_ ?_
  · intro e he
    simp only [readReadPut, List.mem_cons, List.not_mem_nil, or_false] at he
    rcases he with rfl | rfl | rfl | rfl
    · trivial
    · trivial
    · exact hput
    · exact hput
  · refine ⟨?_, ?_, ?_, ?_, trivial⟩ <;> unfold GenerationsLeft <;> decide +kernel

/-- One client reads the configuration, another adds a module, and the first
puts back the configuration it has read. -/
def readPostPut : List (Event Xd.XdEnv Bool) :=
  [.request true calmEnv .configGet,
    .request false calmEnv (.devicesPost (ascii
      "\x7b\"name\":\"Pack\",\"kind\":\"battery\",\"driver\":\"xd\"\x7d"))]

/-- The configuration the first client has read. -/
def putEmpty : Request := .configPut (CString.lit "\"1\"") (ascii "\x7b\"devices\":[]\x7d")

/-- A module added between a read and a write under the generation read is
lost: the write is accepted. -/
theorem posted_module_lost :
    ¬Along step NoLostUpdate (start batteryDaemon)
      (readPostPut ++ [.request true calmEnv putEmpty]) := by
  intro h
  have hlast := ((along_append _ _ readPostPut _).mp h).2.1.2 1 (by decide +kernel)
  have hread : (run step (start batteryDaemon) readPostPut).read true 1 :=
    Or.inl (Or.inr ⟨by decide +kernel, rfl, by decide +kernel⟩)
  have hstale : (run step (start batteryDaemon) readPostPut).stale true 1 :=
    ⟨fun hreads => absurd hreads.2.1 (by decide), Or.inr ⟨by decide, by decide +kernel⟩⟩
  exact absurd (hlast hread hstale).1 (by decide +kernel)

end Generations

end MoonFlare
