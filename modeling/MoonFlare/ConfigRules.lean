import MoonFlare.DeviceSlots

/-!
# What an accepted configuration satisfies

The checks of `validate_apply` as conditions on entries: what each entry must
satisfy by itself, what no two entries may share, and what no slot may hold
against the configuration.
-/

namespace MoonFlare

variable {κ ε : Type}

@[simp] theorem failIf_eq_none {c : Prop} [Decidable c] {e : ConfigError} :
    failIf c e = none ↔ ¬c := by
  unfold failIf
  split <;> simp_all

/-- An entry's plugin is registered, or none is. -/
def KnownDriver (reg : Registry κ ε) (d : ConfigDevice) : Prop :=
  reg = [] ∨ (mfPluginsFind reg d.kind.str d.driver.str).isSome = true

/-- What an entry must satisfy by itself. -/
structure EntryValid (reg : Registry κ ε) (d : ConfigDevice) : Prop where
  uuid : d.uuid.str.nonempty = true
  required : d.enabled = true →
    d.name.str.nonempty = true ∧ d.kind.str.nonempty = true ∧ d.driver.str.nonempty = true
  nameFits : d.name.str.length < 32
  known : d.enabled = true → KnownDriver reg d
  poll : Double.zero.lt d.pollIntervalS = true →
    d.pollIntervalS.lt (mfPollIntervalMin d.driver.str) = false
  capture : Double.zero.lt d.captureIntervalS = true → d.captureIntervalS.lt Double.one = false

/-- What two entries must not share. -/
structure Compatible (d e : ConfigDevice) : Prop where
  uuid : d.uuid ≠ e.uuid
  name : d.name.str.nonempty = true → d.name ≠ e.name
  endpoint : (mfConfigDeviceEndpoint d).str.nonempty = true →
    mfConfigDeviceEndpoint d ≠ mfConfigDeviceEndpoint e

theorem checkEntry_eq_none {reg : Registry κ ε} {d : ConfigDevice} :
    checkFields d = none ∧ checkValues reg d = none ↔ EntryValid reg d := by
  simp only [checkFields, checkValues, Option.or_eq_none_iff, failIf_eq_none]
  constructor
  · rintro ⟨⟨huuid, hreq, hname⟩, hknown, hpoll, hcapture⟩
    refine ⟨not_not.mp huuid, fun hen => ?_, ?_, fun hen => ?_, fun h => ?_, fun h => ?_⟩
    · simp only [hen, true_and, not_or, not_not] at hreq
      exact hreq
    · by_cases hne : d.name.str.nonempty = true
      · simpa [hne] using hname
      · have hempty : d.name.str = CString.empty := by simpa using hne
        simp [hempty]
    · simp only [hen, true_and, not_and] at hknown
      by_cases hreg : reg = []
      · exact Or.inl hreg
      · exact Or.inr (Option.isSome_iff_ne_none.mpr (by simpa using hknown hreg))
    · simpa [h] using hpoll
    · simpa [h] using hcapture
  · intro h
    refine ⟨⟨not_not_intro h.uuid, ?_, ?_⟩, ?_, ?_, ?_⟩
    · rintro ⟨hen, hmissing⟩
      obtain ⟨h1, h2, h3⟩ := h.required hen
      simp [h1, h2, h3] at hmissing
    · rintro ⟨-, hlong⟩
      exact absurd h.nameFits (by omega)
    · rintro ⟨hen, hreg, hnone⟩
      rcases h.known hen with hempty | hsome
      · exact hreg hempty
      · rw [Option.isNone_iff_eq_none] at hnone
        simp [hnone] at hsome
    · rintro ⟨hpos, hlow⟩
      simp [h.poll hpos] at hlow
    · rintro ⟨hpos, hlow⟩
      simp [h.capture hpos] at hlow

theorem checkPair_eq_none {d e : ConfigDevice} : checkPair d e = none ↔ Compatible d e := by
  simp only [checkPair, Option.or_eq_none_iff, failIf_eq_none]
  constructor
  · rintro ⟨huuid, hname, hend⟩
    refine ⟨huuid, fun h heq => hname ⟨h, heq⟩, fun h heq => hend ⟨h, heq ▸ h, heq⟩⟩
  · intro h
    exact ⟨h.uuid, fun ⟨h1, h2⟩ => h.name h1 h2, fun ⟨h1, _, h3⟩ => h.endpoint h1 h3⟩

/-- The first loop of `validate_apply` accepts exactly the lists of valid,
pairwise compatible entries. -/
theorem validateEntries_eq_none {reg : Registry κ ε} {devs : List ConfigDevice} :
    validateEntries reg devs = none ↔
      (∀ d ∈ devs, EntryValid reg d) ∧ devs.Pairwise Compatible := by
  induction devs with
  | nil => simp [validateEntries]
  | cons d devs ih =>
    simp only [validateEntries, Option.or_eq_none_iff, List.findSome?_eq_none_iff, ih,
      List.forall_mem_cons, List.pairwise_cons, checkPair_eq_none, ← checkEntry_eq_none]
    tauto

/-- `validate_apply` accepts the lists whose entries pass and that no slot of
another module stands in the way of. -/
theorem validateApply_eq_none {dv : Devices κ ε} {devs : List ConfigDevice} :
    validateApply dv devs = none ↔
      ((∀ d ∈ devs, EntryValid dv.registry d) ∧ devs.Pairwise Compatible) ∧
        ∀ d ∈ devs, d.enabled = true → dv.anySlot (blocks devs d) = false := by
  rw [validateApply, Option.or_eq_none_iff, validateEntries_eq_none, failIf_eq_none]
  simp

end MoonFlare
