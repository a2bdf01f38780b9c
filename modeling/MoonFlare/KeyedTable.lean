import Mathlib

/-!
# Tables keyed by their entries

A fixed number of places, each empty or with an entry in it. Entries carry a
key; the operations find places by key, and keep at most one place for a key.
What a table holds is described as a set of entries, so that the order of the
places plays no part.
-/

namespace MoonFlare.KeyedTable

variable {n : ℕ} {α K : Type*}

/-- An entry is in one of the places. -/
def Holds (t : Fin n → Option α) (a : α) : Prop := ∃ j, t j = some a

/-- No two places hold entries of the same key. -/
def Distinct (key : α → K) (t : Fin n → Option α) : Prop :=
  ∀ i j a b, t i = some a → t j = some b → key a = key b → i = j

variable {key : α → K} {t : Fin n → Option α}

/-- Two entries of one key are the same entry. -/
theorem Distinct.eq_of_key {a b : α} (h : Distinct key t) (ha : Holds t a) (hb : Holds t b)
    (hkey : key a = key b) : a = b := by
  obtain ⟨i, hi⟩ := ha
  obtain ⟨j, hj⟩ := hb
  obtain rfl := h i j a b hi hj hkey
  exact Option.some.inj (hi.symm.trans hj)

/-- Filling an empty place adds one entry. -/
theorem holds_update_of_empty {i : Fin n} {a b : α} (hi : t i = none) :
    Holds (Function.update t i (some a)) b ↔ b = a ∨ Holds t b := by
  constructor
  · rintro ⟨j, hj⟩
    by_cases hji : j = i
    · subst hji
      rw [Function.update_self] at hj
      exact Or.inl (Option.some.inj hj).symm
    · rw [Function.update_of_ne hji] at hj
      exact Or.inr ⟨j, hj⟩
  · rintro (rfl | ⟨j, hj⟩)
    · exact ⟨i, Function.update_self ..⟩
    · refine ⟨j, ?_⟩
      rw [Function.update_of_ne (by rintro rfl; simp [hi] at hj)]
      exact hj

/-- Filling a place keeps the keys distinct when no other place has the
entry's key. -/
theorem distinct_update {i : Fin n} {a : α} (h : Distinct key t)
    (hnew : ∀ j b, t j = some b → key b = key a → j = i) :
    Distinct key (Function.update t i (some a)) := by
  have hother (j : Fin n) (b : α) (hj : Function.update t i (some a) j = some b) :
      j = i ∧ b = a ∨ j ≠ i ∧ t j = some b := by
    by_cases hji : j = i
    · subst hji
      rw [Function.update_self] at hj
      exact Or.inl ⟨rfl, (Option.some.inj hj).symm⟩
    · rw [Function.update_of_ne hji] at hj
      exact Or.inr ⟨hji, hj⟩
  intro j k b c hj hk hkey
  rcases hother j b hj with ⟨rfl, rfl⟩ | ⟨-, hj'⟩
  · rcases hother k c hk with ⟨rfl, -⟩ | ⟨-, hk'⟩
    · rfl
    · exact (hnew k c hk' hkey.symm).symm
  · rcases hother k c hk with ⟨rfl, rfl⟩ | ⟨-, hk'⟩
    · exact hnew j b hj' hkey
    · exact h j k b c hj' hk' hkey

/-- Emptying a place takes its entry away. -/
theorem holds_update_none {i : Fin n} {a b : α} (h : Distinct key t) (hi : t i = some a) :
    Holds (Function.update t i none) b ↔ Holds t b ∧ key b ≠ key a := by
  constructor
  · rintro ⟨j, hj⟩
    by_cases hji : j = i
    · subst hji
      simp at hj
    · rw [Function.update_of_ne hji] at hj
      exact ⟨⟨j, hj⟩, fun hkey => hji (h j i b a hj hi hkey)⟩
  · rintro ⟨⟨j, hj⟩, hkey⟩
    refine ⟨j, ?_⟩
    rw [Function.update_of_ne (by rintro rfl; exact hkey (by rw [Option.some.inj (hj.symm.trans hi)]))]
    exact hj

/-- Replacing an entry by one of the same key. -/
theorem holds_replace {i : Fin n} {a b c : α} (h : Distinct key t) (hi : t i = some a) :
    Holds (Function.update t i (some b)) c ↔ c = b ∨ Holds t c ∧ key c ≠ key a := by
  have hempty : Function.update t i none i = none := Function.update_self ..
  rw [← holds_update_none h hi, ← holds_update_of_empty hempty, Function.update_idem]

theorem distinct_update_none (h : Distinct key t) (i : Fin n) :
    Distinct key (Function.update t i none) := by
  intro j k a b hj hk hkey
  have hji : j ≠ i := by rintro rfl; simp at hj
  have hki : k ≠ i := by rintro rfl; simp at hk
  rw [Function.update_of_ne hji] at hj
  rw [Function.update_of_ne hki] at hk
  exact h j k a b hj hk hkey

/-- Changing entries without their keys keeps the keys distinct. -/
theorem distinct_map {f : α → α} (h : Distinct key t) (hf : ∀ a, key (f a) = key a) :
    Distinct key fun i => (t i).map f := by
  intro i j a b hi hj hkey
  obtain ⟨a', ha', rfl⟩ := Option.map_eq_some_iff.mp hi
  obtain ⟨b', hb', rfl⟩ := Option.map_eq_some_iff.mp hj
  exact h i j a' b' ha' hb' (by rw [← hf a', ← hf b', hkey])

section Places

variable [DecidableEq K]

/-- Empty the places of a key. -/
def cancel (key : α → K) (t : Fin n → Option α) (k : K) : Fin n → Option α :=
  fun j => (t j).filter fun a => decide (key a ≠ k)

/-- The place of a key, else the first empty one. -/
def place (key : α → K) (t : Fin n → Option α) (k : K) : Option (Fin n) :=
  ((List.finRange n).find? fun j => (t j).any fun a => key a = k).or
    ((List.finRange n).find? fun j => (t j).isNone)

theorem holds_cancel {k : K} {a : α} : Holds (cancel key t k) a ↔ Holds t a ∧ key a ≠ k := by
  simp only [Holds, cancel, Option.filter_eq_some_iff, decide_eq_true_eq, exists_and_right]

theorem distinct_cancel (h : Distinct key t) (k : K) : Distinct key (cancel key t k) := by
  intro i j a b hi hj hkey
  exact h i j a b (Option.filter_eq_some_iff.mp hi).1 (Option.filter_eq_some_iff.mp hj).1 hkey

/-- Cancelling a key that is not there changes nothing. -/
theorem cancel_of_absent {k : K} (h : ∀ a, Holds t a → key a ≠ k) : cancel key t k = t := by
  funext j
  cases hj : t j with
  | none => simp [cancel, hj]
  | some a => simp [cancel, hj, Option.filter_some, h a ⟨j, hj⟩]

/-- The place found for a key holds an entry of the key, or is empty and no
place holds one. -/
theorem place_some {k : K} {i : Fin n} (h : place key t k = some i) :
    (∃ a, t i = some a ∧ key a = k) ∨ t i = none ∧ ∀ a, Holds t a → key a ≠ k := by
  unfold place at h
  cases hfind : (List.finRange n).find? fun j => (t j).any fun a => key a = k with
  | some j =>
    rw [hfind, Option.some_or, Option.some.injEq] at h
    subst h
    have hany := List.find?_some hfind
    simpa [Option.any_eq_true] using Or.inl hany
  | none =>
    rw [hfind, Option.none_or] at h
    have hempty := List.find?_some h
    refine Or.inr ⟨by simpa using hempty, ?_⟩
    rintro a ⟨j, hj⟩ hkey
    have hnone := List.find?_eq_none.mp hfind j (List.mem_finRange j)
    simp [hj, hkey] at hnone

/-- Putting an entry in the place found for its key replaces the one that was
there. -/
theorem holds_put {a b : α} {i : Fin n} (h : Distinct key t) (hi : place key t (key a) = some i) :
    Holds (Function.update t i (some a)) b ↔ b = a ∨ Holds t b ∧ key b ≠ key a := by
  rcases place_some hi with ⟨c, hc, hkey⟩ | ⟨hempty, habsent⟩
  · rw [holds_replace h hc, hkey]
  · rw [holds_update_of_empty hempty]
    constructor
    · rintro (rfl | hb)
      · exact Or.inl rfl
      · exact Or.inr ⟨hb, habsent b hb⟩
    · rintro (rfl | ⟨hb, -⟩)
      · exact Or.inl rfl
      · exact Or.inr hb

theorem distinct_put {a : α} {i : Fin n} (h : Distinct key t)
    (hi : place key t (key a) = some i) : Distinct key (Function.update t i (some a)) := by
  refine distinct_update h fun j b hj hkey => ?_
  rcases place_some hi with ⟨c, hc, hkey'⟩ | ⟨-, habsent⟩
  · exact h j i b c hj hc (hkey.trans hkey'.symm)
  · exact absurd hkey (habsent b ⟨j, hj⟩)

end Places

end MoonFlare.KeyedTable
