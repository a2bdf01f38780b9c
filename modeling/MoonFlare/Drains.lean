import Mathlib

/-!
# Draining a step function

A loop that takes one step after another until none is possible. A measure
that every step lowers bounds the number of steps, so that the loop needs no
more than the measure of the state it starts from. Which states count as alike
is a parameter.
-/

namespace MoonFlare.Drains

variable {σ β : Type*} {step : σ → Option σ} {μ : σ → ℕ}

/-- At most so many steps. -/
def drainFor (step : σ → Option σ) : ℕ → σ → σ
  | 0, s => s
  | n + 1, s =>
    match step s with
    | none => s
    | some s' => drainFor step n s'

/-- Steps until none is possible, when each lowers the measure. -/
def drain (step : σ → Option σ) (μ : σ → ℕ) (s : σ) : σ := drainFor step (μ s) s

/-- Every step lowers the measure. -/
def Decreases (step : σ → Option σ) (μ : σ → ℕ) : Prop := ∀ s s', step s = some s' → μ s' < μ s

theorem drainFor_of_none {s : σ} (h : step s = none) (n : ℕ) : drainFor step n s = s := by
  cases n with
  | zero => rfl
  | succ n => rw [drainFor, h]

/-- Any number of steps above the measure does. -/
theorem drainFor_of_le (hμ : Decreases step μ) {n m : ℕ} {s : σ} (hn : μ s ≤ n) (hm : μ s ≤ m) :
    drainFor step n s = drainFor step m s := by
  induction n generalizing m s with
  | zero =>
    have hnone : step s = none := by
      cases h : step s with
      | none => rfl
      | some s' => exact absurd (hμ s s' h) (by omega)
    rw [drainFor_of_none hnone, drainFor_of_none hnone]
  | succ n ih =>
    cases h : step s with
    | none => rw [drainFor_of_none h, drainFor_of_none h]
    | some s' =>
      have hlt := hμ s s' h
      cases m with
      | zero => omega
      | succ m =>
        rw [drainFor, drainFor, h]
        exact ih (by omega) (by omega)

theorem drain_of_none {s : σ} (h : step s = none) : drain step μ s = s := drainFor_of_none h (μ s)

/-- The loop goes on from the state after the first step. -/
theorem drain_of_some (hμ : Decreases step μ) {s s' : σ} (h : step s = some s') :
    drain step μ s = drain step μ s' := by
  have hlt := hμ s s' h
  have hone : drainFor step (μ s) s = drainFor step (μ s - 1) s' := by
    obtain ⟨n, hn⟩ : ∃ n, μ s = n + 1 := ⟨μ s - 1, by omega⟩
    rw [hn, drainFor, h, Nat.add_sub_cancel]
  exact hone.trans (drainFor_of_le hμ (by omega) (le_refl (μ s')))

/-- What every step preserves, the loop preserves. -/
theorem drain_preserves {P : σ → Prop} (hstep : ∀ s s', P s → step s = some s' → P s') {s : σ}
    (hs : P s) : P (drain step μ s) := by
  have hfor (n : ℕ) (s : σ) (hs : P s) : P (drainFor step n s) := by
    induction n generalizing s with
    | zero => exact hs
    | succ n ih =>
      rw [drainFor]
      cases h : step s with
      | none => exact hs
      | some s' => exact ih s' (hstep s s' hs h)
  exact hfor (μ s) s hs

/-- After the loop no step is possible. -/
theorem step_drain (hμ : Decreases step μ) (s : σ) : step (drain step μ s) = none := by
  induction hn : μ s using Nat.strong_induction_on generalizing s with
  | _ n ih =>
    cases h : step s with
    | none => rw [drain_of_none h, h]
    | some s' =>
      rw [drain_of_some hμ h]
      exact ih (μ s') (hn ▸ hμ s s' h) s' rfl

/-- A loop with more in its states runs the same steps. -/
theorem drain_map {τ : Type*} {step' : τ → Option τ} (hμ : Decreases step μ) {proj : τ → σ}
    (hproj : ∀ t, (step' t).map proj = step (proj t)) (t : τ) :
    proj (drain step' (fun t => μ (proj t)) t) = drain step μ (proj t) := by
  have hμ' : Decreases step' fun t => μ (proj t) := fun t t' h =>
    hμ (proj t) (proj t') (by rw [← hproj t, h, Option.map_some])
  induction hn : μ (proj t) using Nat.strong_induction_on generalizing t with
  | _ n ih =>
    have hstep := hproj t
    cases h : step' t with
    | none =>
      rw [h, Option.map_none] at hstep
      rw [drain_of_none h, drain_of_none hstep.symm]
    | some t' =>
      rw [h, Option.map_some] at hstep
      rw [drain_of_some hμ' h, drain_of_some hμ hstep.symm]
      exact ih (μ (proj t')) (hn ▸ hμ' t t' h) t' rfl

section Alike

variable {R : σ → σ → Prop}

/-- Related states drain to related states, when their steps are related. -/
theorem drain_congr (hμ : Decreases step μ)
    (hstep : ∀ s t, R s t → Option.Rel R (step s) (step t)) {s t : σ} (h : R s t) :
    R (drain step μ s) (drain step μ t) := by
  induction hn : μ s using Nat.strong_induction_on generalizing s t with
  | _ n ih =>
    have hsteps := hstep s t h
    cases hs : step s with
    | none =>
      cases ht : step t with
      | none =>
        rw [drain_of_none hs, drain_of_none ht]
        exact h
      | some t' =>
        rw [hs, ht] at hsteps
        cases hsteps
    | some s' =>
      cases ht : step t with
      | none =>
        rw [hs, ht] at hsteps
        cases hsteps
      | some t' =>
        rw [hs, ht] at hsteps
        rw [drain_of_some hμ hs, drain_of_some hμ ht]
        cases hsteps with
        | some hnext => exact ih (μ s') (hn ▸ hμ s s' hs) hnext rfl

/-- When it makes no difference whether a step is taken before something is
added or after, it makes none whether the loop is run before. -/
theorem drain_add (hμ : Decreases step μ) (hR : Equivalence R) {add : σ → β → σ} (y : β)
    (hadd : ∀ s s', step s = some s' →
      R (drain step μ (add s' y)) (drain step μ (add s y))) (s : σ) :
    R (drain step μ (add (drain step μ s) y)) (drain step μ (add s y)) := by
  induction hn : μ s using Nat.strong_induction_on generalizing s with
  | _ n ih =>
    cases h : step s with
    | none =>
      rw [drain_of_none h]
      exact hR.refl _
    | some s' =>
      rw [drain_of_some hμ h]
      exact hR.trans (ih (μ s') (hn ▸ hμ s s' h) s' rfl) (hadd s s' h)

end Alike

end MoonFlare.Drains
