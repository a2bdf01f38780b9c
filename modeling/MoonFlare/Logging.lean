import Mathlib

/-!
# Computations with a log

A computation that keeps a log only adds to it. Its triple says what every new
entry satisfies and what the result satisfies; the rules follow the structure of
the computation.
-/

namespace MoonFlare.Logging

universe u

variable {ε α β : Type u}

/-- From every log, the computation adds entries with `P` and returns a result with `Q`. -/
def Adds (P : ε → Prop) (Q : α → Prop) (x : StateM (List ε) α) : Prop :=
  ∀ log, ∃ new, (x log).2 = log ++ new ∧ (∀ e ∈ new, P e) ∧ Q (x log).1

variable {P : ε → Prop} {Q : α → Prop} {R : β → Prop} {x : StateM (List ε) α}

theorem Adds.pure {a : α} (h : Q a) : Adds P Q (Pure.pure a : StateM (List ε) α) := fun log =>
  ⟨[], (List.append_nil log).symm, fun _ he => absurd he List.not_mem_nil, h⟩

/-- One entry. -/
theorem Adds.entry {f : List ε → α × List ε} {e : ε} (hlog : ∀ log, (f log).2 = log ++ [e])
    (he : P e) (hresult : ∀ log, Q (f log).1) : Adds P Q (f : StateM (List ε) α) := fun log =>
  ⟨[e], hlog log, fun _ hmem => List.mem_singleton.mp hmem ▸ he, hresult log⟩

/-- The entries of two computations stand one behind the other. -/
theorem Adds.bind {f : α → StateM (List ε) β} (hx : Adds P Q x)
    (hf : ∀ a, Q a → Adds P R (f a)) : Adds P R (x >>= f) := by
  intro log
  obtain ⟨new, hnew, hentries, hresult⟩ := hx log
  obtain ⟨more, hmore, hentries', hresult'⟩ := hf _ hresult (x log).2
  refine ⟨new ++ more, ?_, fun e he => (List.mem_append.mp he).elim (hentries e) (hentries' e),
    hresult'⟩
  change (f (x log).1 (x log).2).2 = _
  rw [hmore, hnew, List.append_assoc]

theorem Adds.map {f : α → β} (hx : Adds P (fun a => R (f a)) x) : Adds P R (f <$> x) := hx

theorem Adds.mono {Q' : α → Prop} (hx : Adds P Q x) (h : ∀ a, Q a → Q' a) : Adds P Q' x := by
  intro log
  obtain ⟨new, hnew, hentries, hresult⟩ := hx log
  exact ⟨new, hnew, hentries, h _ hresult⟩

theorem Adds.ite {c : Prop} [Decidable c] {y : StateM (List ε) α} (hx : c → Adds P Q x)
    (hy : ¬c → Adds P Q y) : Adds P Q (if c then x else y) := by
  split_ifs with h
  · exact hx h
  · exact hy h

/-- From an empty log, the entries are the log. -/
theorem Adds.run (hx : Adds P Q x) : (∀ e ∈ (x []).2, P e) ∧ Q (x []).1 := by
  obtain ⟨new, hnew, hentries, hresult⟩ := hx []
  rw [hnew]
  exact ⟨hentries, hresult⟩

end MoonFlare.Logging
