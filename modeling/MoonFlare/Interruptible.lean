import Mathlib

/-!
# Programs that can be stopped

A program works on a state and makes calls. The surroundings decide how each call
ends, also that the process ends in front of it; the state is then what the calls
before it left. A triple says what holds behind a program that starts with a
condition, when it runs to its end and where it is stopped, and there is one rule for
each way a program is put together.
-/

namespace MoonFlare

/-- How a call ends. -/
inductive Fate where
  | ok
  | fail
  /-- It fails and takes back the transaction it is in. -/
  | rolledBack
  deriving DecidableEq

/-- How the call of each number ends; nothing when the process ends in front of it. -/
abbrev Fates (κ : Type) := ℕ → κ → Option Fate

/-- A program over a state: from the number of calls made so far to its result, when
it was not stopped. -/
def Prog (κ σ α : Type) := Fates κ → σ × ℕ → Option α × (σ × ℕ)

namespace Prog

variable {κ σ α β : Type}

/-- A program that does nothing. -/
def done (a : α) : Prog κ σ α := fun _ s => (some a, s)

/-- One program behind another. -/
def andThen (p : Prog κ σ α) (f : α → Prog κ σ β) : Prog κ σ β := fun fates s =>
  match p fates s with
  | (some a, s) => f a fates s
  | (none, s) => (none, s)

instance : Monad (Prog κ σ) where
  pure := done
  bind := andThen

/-- A call. -/
def ask (c : κ) : Prog κ σ Fate := fun fates s => (fates s.2 c, s.1, s.2 + 1)

/-- The state is changed. -/
def update (f : σ → σ) : Prog κ σ Unit := fun _ s => (some (), f s.1, s.2)

/-- The state is read. -/
def read : Prog κ σ σ := fun _ s => (some s.1, s)

/-- From `P` the program ends with `Q`, or is stopped with `S`. -/
def Holds (fates : Fates κ) (P : σ → Prop) (p : Prog κ σ α) (Q : α → σ → Prop)
    (S : σ → Prop) : Prop :=
  ∀ s, P s.1 → (∀ a, (p fates s).1 = some a → Q a (p fates s).2.1) ∧
    ((p fates s).1 = none → S (p fates s).2.1)

variable {fates : Fates κ} {P P' : σ → Prop} {Q Q' : α → σ → Prop} {S : σ → Prop}

theorem holds_pure {a : α} (h : ∀ s, P s → Q a s) : Holds fates P (pure a) Q S := by
  intro s hP
  refine ⟨fun b hb => ?_, fun hnone => (by cases hnone)⟩
  obtain rfl := Option.some.inj hb
  exact h s.1 hP

theorem holds_bind {p : Prog κ σ α} {f : α → Prog κ σ β} {R : α → σ → Prop}
    {Q : β → σ → Prop} (hp : Holds fates P p R S) (hf : ∀ a, Holds fates (R a) (f a) Q S) :
    Holds fates P (p >>= f) Q S := by
  intro s hP
  obtain ⟨hdone, hstop⟩ := hp s hP
  have hrun : (p >>= f) fates s = match p fates s with
    | (some a, s) => f a fates s
    | (none, s) => (none, s) := rfl
  rcases hp' : p fates s with ⟨_ | a, s'⟩
  · rw [hp'] at hrun hstop
    rw [hrun]
    exact ⟨fun a ha => (by cases ha), fun _ => hstop rfl⟩
  · rw [hp'] at hrun hdone
    rw [hrun]
    exact hf a s' (hdone a rfl)

/-- A stronger condition in front, weaker ones behind and where it is stopped. -/
theorem Holds.weaken {S' : σ → Prop} {p : Prog κ σ α} (h : Holds fates P p Q S)
    (hP : ∀ s, P' s → P s) (hQ : ∀ a s, Q a s → Q' a s) (hS : ∀ s, S s → S' s) :
    Holds fates P' p Q' S' := by
  intro s hs
  obtain ⟨hdone, hstop⟩ := h s (hP s.1 hs)
  exact ⟨fun a ha => hQ a _ (hdone a ha), fun hnone => hS _ (hstop hnone)⟩

/-- What holds of the state in front can be used in the proof. -/
theorem holds_of_state {p : Prog κ σ α}
    (h : ∀ s, P s → Holds fates (fun s' => s' = s) p Q S) : Holds fates P p Q S :=
  fun s hP => h s.1 hP s rfl

theorem holds_ask_bind {c : κ} {f : Fate → Prog κ σ α} (hstop : ∀ s, P s → S s)
    (hf : ∀ n fate, fates n c = some fate → Holds fates P (f fate) Q S) :
    Holds fates P (ask c >>= f) Q S := by
  intro s hP
  have hrun : (ask c >>= f) fates s = match fates s.2 c with
    | some fate => f fate fates (s.1, s.2 + 1)
    | none => (none, s.1, s.2 + 1) := by
    simp only [bind, andThen, ask]
    cases fates s.2 c <;> rfl
  rw [hrun]
  cases hfate : fates s.2 c with
  | none => exact ⟨fun a ha => (by cases ha), fun _ => hstop s.1 hP⟩
  | some fate => exact hf s.2 fate hfate (s.1, s.2 + 1) hP

theorem holds_update {f : σ → σ} {Q : Unit → σ → Prop} (h : ∀ s, P s → Q () (f s)) :
    Holds fates P (update f) Q S := by
  intro s hP
  exact ⟨fun _ _ => h s.1 hP, fun hnone => (by cases hnone)⟩

theorem holds_read_bind {f : σ → Prog κ σ α}
    (hf : ∀ s, P s → Holds fates (fun s' => s' = s) (f s) Q S) :
    Holds fates P (read >>= f) Q S := by
  intro s hP
  exact hf s.1 hP s rfl

/-- A value that was read, when the condition is kept. -/
theorem holds_read_keep {f : σ → Prog κ σ α} (hf : ∀ s, P s → Holds fates P (f s) Q S) :
    Holds fates P (read >>= f) Q S := by
  refine holds_read_bind fun s hP => ?_
  refine (hf s hP).weaken (fun s' heq => ?_) (fun _ _ hQ => hQ) fun _ hS => hS
  rw [heq]
  exact hP

theorem holds_ite {c : Prop} [Decidable c] {p q : Prog κ σ α} (hp : c → Holds fates P p Q S)
    (hq : ¬c → Holds fates P q Q S) : Holds fates P (if c then p else q) Q S := by
  split
  · next hc => exact hp hc
  · next hc => exact hq hc

end Prog

end MoonFlare
