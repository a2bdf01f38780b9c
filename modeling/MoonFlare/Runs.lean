import Mathlib

/-!
# Runs of a step function

A system is a step function on its states; an action carries everything its
surroundings decide in that step. A run is a list of actions. Conditions on
the steps of a run are stated at the state before each step, and the rules
below turn what one step preserves into what a whole run preserves.
-/

namespace MoonFlare.Runs

variable {σ α : Type*} {step : σ → α → σ}

/-- The state after a list of actions. -/
def run (step : σ → α → σ) : σ → List α → σ
  | s, [] => s
  | s, a :: as => run step (step s a) as

/-- Every step of the run meets a condition on its state and action. -/
def Along (step : σ → α → σ) (ok : σ → α → Prop) : σ → List α → Prop
  | _, [] => True
  | s, a :: as => ok s a ∧ Along step ok (step s a) as

/-- Every state entered by the run has a property. -/
def Always (step : σ → α → σ) (P : σ → Prop) (s : σ) (as : List α) : Prop :=
  Along step (fun s a => P (step s a)) s as

@[simp] theorem run_nil (s : σ) : run step s [] = s := rfl

@[simp] theorem run_cons (s : σ) (a : α) (as : List α) :
    run step s (a :: as) = run step (step s a) as := rfl

@[simp] theorem along_nil (ok : σ → α → Prop) (s : σ) : Along step ok s [] := trivial

@[simp] theorem along_cons (ok : σ → α → Prop) (s : σ) (a : α) (as : List α) :
    Along step ok s (a :: as) ↔ ok s a ∧ Along step ok (step s a) as := Iff.rfl

theorem run_append (s : σ) (as bs : List α) :
    run step s (as ++ bs) = run step (run step s as) bs := by
  induction as generalizing s with
  | nil => rfl
  | cons a as ih => exact ih (step s a)

/-- A run meets a condition when both its parts do. -/
theorem along_append (ok : σ → α → Prop) (s : σ) (as bs : List α) :
    Along step ok s (as ++ bs) ↔ Along step ok s as ∧ Along step ok (run step s as) bs := by
  induction as generalizing s with
  | nil => simp
  | cons a as ih => simp [ih, and_assoc]

/-- A run meets two conditions when it meets each of them. -/
theorem along_and (p q : σ → α → Prop) (s : σ) (as : List α) :
    Along step (fun s a => p s a ∧ q s a) s as ↔ Along step p s as ∧ Along step q s as := by
  induction as generalizing s with
  | nil => simp
  | cons a as ih =>
    rw [along_cons, along_cons, along_cons, ih]
    exact and_and_and_comm

/-- A condition on the actions alone is met along a run of actions that meet it. -/
theorem along_of_mem {ok : α → Prop} (s : σ) {as : List α} (h : ∀ a ∈ as, ok a) :
    Along step (fun _ a => ok a) s as := by
  induction as generalizing s with
  | nil => trivial
  | cons a as ih =>
    exact ⟨h a List.mem_cons_self, ih (step s a) fun b hb => h b (List.mem_cons_of_mem a hb)⟩

/-- The invariant rule: what a step that meets the condition preserves holds
at the end of a run whose steps all meet it. -/
theorem invariant_run {Inv : σ → Prop} {ok : σ → α → Prop}
    (hstep : ∀ s a, Inv s → ok s a → Inv (step s a)) {s : σ} (hs : Inv s) {as : List α}
    (hok : Along step ok s as) : Inv (run step s as) := by
  induction as generalizing s with
  | nil => exact hs
  | cons a as ih => exact ih (hstep s a hs hok.1) hok.2

/-- Under the invariant, a condition on the steps follows from another. -/
theorem along_imp {Inv : σ → Prop} {ok ok' : σ → α → Prop}
    (hstep : ∀ s a, Inv s → ok s a → Inv (step s a)) (himp : ∀ s a, Inv s → ok s a → ok' s a) {s : σ}
    (hs : Inv s) {as : List α} (hok : Along step ok s as) : Along step ok' s as := by
  induction as generalizing s with
  | nil => trivial
  | cons a as ih => exact ⟨himp s a hs hok.1, ih (hstep s a hs hok.1) hok.2⟩

/-- Under the invariant, a property of the states entered follows from the
condition on the steps. -/
theorem always_of_along {Inv : σ → Prop} {ok : σ → α → Prop} {P : σ → Prop}
    (hstep : ∀ s a, Inv s → ok s a → Inv (step s a)) (hP : ∀ s, Inv s → P s) {s : σ}
    (hs : Inv s) {as : List α} (hok : Along step ok s as) : Always step P s as :=
  along_imp hstep (fun s a h hok => hP _ (hstep s a h hok)) hs hok

/-- Where any two steps commute, the order of a run's actions does not matter. -/
theorem run_perm (hcomm : ∀ s a b, step (step s a) b = step (step s b) a) {as bs : List α}
    (hp : as.Perm bs) (s : σ) : run step s as = run step s bs := by
  induction hp generalizing s with
  | nil => rfl
  | cons a _ ih => exact ih (step s a)
  | swap a b l => rw [run_cons, run_cons, run_cons, run_cons, hcomm s b a]
  | trans _ _ ih₁ ih₂ => exact (ih₁ s).trans (ih₂ s)

/-- A counter that each step advances by one when its action passes a test
counts the actions of the run that pass it. -/
theorem run_countP {f : σ → ℕ} {p : α → Bool}
    (hstep : ∀ s a, f (step s a) = f s + if p a = true then 1 else 0) (s : σ) (as : List α) :
    f (run step s as) = f s + as.countP p := by
  induction as generalizing s with
  | nil => rfl
  | cons a as ih =>
    rw [run_cons, ih, hstep, List.countP_cons]
    omega

/-- Two conditions that agree under an invariant agree along every run of
admitted actions. -/
theorem along_congr {Inv : σ → Prop} {ok ok' : σ → α → Prop} {admitted : α → Prop}
    (hstep : ∀ s a, Inv s → admitted a → ok s a → Inv (step s a))
    (hiff : ∀ s a, Inv s → admitted a → (ok' s a ↔ ok s a)) {s : σ} (hs : Inv s) {as : List α}
    (has : ∀ a ∈ as, admitted a) : Along step ok' s as ↔ Along step ok s as := by
  induction as generalizing s with
  | nil => exact Iff.rfl
  | cons a as ih =>
    have ha := has a List.mem_cons_self
    have htail : ∀ b ∈ as, admitted b := fun b hb => has b (List.mem_cons_of_mem a hb)
    have hhead := hiff s a hs ha
    constructor
    · rintro ⟨h, hrest⟩
      have hok := hhead.mp h
      exact ⟨hok, (ih (hstep s a hs ha hok) htail).mp hrest⟩
    · rintro ⟨hok, hrest⟩
      exact ⟨hhead.mpr hok, (ih (hstep s a hs ha hok) htail).mpr hrest⟩

end MoonFlare.Runs
