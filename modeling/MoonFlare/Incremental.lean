import Mathlib

/-!
# Incremental scanners

A scanner reads from the front of a text that may go on: it ends with what it
read and the text behind it, it needs more text, or it rejects the text. A
stable scanner does not go back on a decision when more text comes, so it can
be tried again after every piece of a stream, and what it decides first is
what it decides on the whole. Scanners in a row are stable when each is.
-/

namespace MoonFlare.Incremental

universe u v

/-- Why a scanner stops without a value: the text ends too early, or is rejected. -/
inductive Stop where
  | short
  | bad
  deriving DecidableEq

/-- A scanner of elements of `τ` that reads a value. -/
def Scanner (τ : Type u) (α : Type v) := List τ → Except Stop (α × List τ)

namespace Scanner

variable {τ : Type u} {α β : Type v}

/-- One scanner behind another. -/
def bind (p : Scanner τ α) (f : α → Scanner τ β) : Scanner τ β := fun b =>
  match p b with
  | .error e => .error e
  | .ok (a, r) => f a r

instance : Monad (Scanner τ) where
  pure a := fun b => .ok (a, b)
  bind := bind

/-- Stop. -/
def halt (e : Stop) : Scanner τ α := fun _ => .error e

/-- The next element, which is not passed over. -/
def look : Scanner τ τ
  | [] => .error .short
  | c :: cs => .ok (c, c :: cs)

/-- Pass over the next element. -/
def next : Scanner τ τ
  | [] => .error .short
  | c :: cs => .ok (c, cs)

/-- The elements in front of the first that stops, which all have to be legal. -/
def tokens (stop legal : τ → Bool) : Scanner τ (List τ)
  | [] => .error .short
  | c :: cs =>
    if stop c then .ok ([], c :: cs)
    else if legal c then
      match tokens stop legal cs with
      | .error e => .error e
      | .ok (t, r) => .ok (c :: t, r)
    else .error .bad

variable {p : Scanner τ α} {f : α → Scanner τ β} {b r : List τ} {a : α} {c : β}

@[simp] theorem pure_apply (a : α) (b : List τ) : (pure a : Scanner τ α) b = .ok (a, b) := rfl

@[simp] theorem halt_apply (e : Stop) (b : List τ) : (halt e : Scanner τ α) b = .error e := rfl

theorem bind_apply (p : Scanner τ α) (f : α → Scanner τ β) (b : List τ) :
    (p >>= f) b = match p b with
      | .error e => .error e
      | .ok (a, r) => f a r := rfl

/-- A scanner behind one that reads. -/
theorem bind_of_ok (h : p b = .ok (a, r)) : (p >>= f) b = f a r := by
  rw [bind_apply, h]

theorem bind_of_error {e : Stop} (h : p b = .error e) : (p >>= f) b = .error e := by
  rw [bind_apply, h]

/-- Two scanners in a row read when both do. -/
theorem bind_eq_ok : (p >>= f) b = .ok (c, r) ↔
    ∃ a m, p b = .ok (a, m) ∧ f a m = .ok (c, r) := by
  constructor
  · intro h
    rw [bind_apply] at h
    split at h
    · exact absurd h (by simp)
    · next a m hp => exact ⟨a, m, hp, h⟩
  · rintro ⟨a, m, hp, hf⟩
    rw [bind_of_ok hp, hf]

/-- Two scanners in a row reject when one of them does. -/
theorem bind_eq_bad : (p >>= f) b = .error .bad ↔
    p b = .error .bad ∨ ∃ a m, p b = .ok (a, m) ∧ f a m = .error .bad := by
  constructor
  · intro h
    rw [bind_apply] at h
    split at h
    · next e hp =>
      obtain rfl : e = .bad := Except.error.inj h
      exact Or.inl hp
    · next a m hp => exact Or.inr ⟨a, m, hp, h⟩
  · rintro (hp | ⟨a, m, hp, hf⟩)
    · exact bind_of_error hp
    · rw [bind_of_ok hp, hf]

theorem look_eq_ok {d : τ} : look b = .ok (d, r) ↔ ∃ cs, b = d :: cs ∧ r = b := by
  cases b with
  | nil => simp [look]
  | cons x xs => simp [look, eq_comm]

theorem next_eq_ok {d : τ} : next b = .ok (d, r) ↔ b = d :: r := by
  cases b with
  | nil => simp [next]
  | cons x xs => simp [next, eq_comm]

/-! ## Tokens -/

section Tokens

variable {stop legal : τ → Bool} {t : List τ}

/-- A token in front of an element that stops is read whole. -/
theorem tokens_append (ht : ∀ x ∈ t, stop x = false ∧ legal x = true) {d : τ}
    (hd : stop d = true) (cs : List τ) :
    tokens stop legal (t ++ d :: cs) = .ok (t, d :: cs) := by
  induction t with
  | nil => simp [tokens, hd]
  | cons x t ih =>
    obtain ⟨hstop, hlegal⟩ := ht x List.mem_cons_self
    simp [tokens, hstop, hlegal, ih fun y hy => ht y (List.mem_cons_of_mem x hy)]

/-- What is read is in front of an element that stops, and legal. -/
theorem tokens_eq_ok : tokens stop legal b = .ok (t, r) ↔
    b = t ++ r ∧ (∀ x ∈ t, stop x = false ∧ legal x = true) ∧
      ∃ d cs, r = d :: cs ∧ stop d = true := by
  constructor
  · intro h
    induction b generalizing t with
    | nil => exact absurd h (by simp [tokens])
    | cons x b ih =>
      rw [tokens] at h
      split at h
      · next hx =>
        obtain ⟨rfl, rfl⟩ := Prod.mk.inj (Except.ok.inj h)
        exact ⟨rfl, by simp, x, b, rfl, hx⟩
      · next hx =>
        split at h
        · next hlegal =>
          split at h
          · exact absurd h (by simp)
          · next t' r' hb =>
            obtain ⟨rfl, rfl⟩ := Prod.mk.inj (Except.ok.inj h)
            obtain ⟨rfl, ht, hr⟩ := ih hb
            refine ⟨rfl, ?_, hr⟩
            intro y hy
            rcases List.mem_cons.mp hy with rfl | hy
            · exact ⟨Bool.eq_false_iff.mpr hx, hlegal⟩
            · exact ht y hy
        · exact absurd h (by simp)
  · rintro ⟨rfl, ht, d, cs, rfl, hd⟩
    exact tokens_append ht hd cs

end Tokens

/-! ## Stable scanners -/

/-- What the scanner reads or rejects it reads or rejects of every longer text too. -/
structure Stable (p : Scanner τ α) : Prop where
  read : ∀ {b a r}, p b = .ok (a, r) → ∀ t, p (b ++ t) = .ok (a, r ++ t)
  bad : ∀ {b}, p b = .error .bad → ∀ t, p (b ++ t) = .error .bad

theorem stable_pure (a : α) : Stable (pure a : Scanner τ α) where
  read h t := by
    obtain ⟨rfl, rfl⟩ := Prod.mk.inj (Except.ok.inj h)
    rfl
  bad h := by simp at h

theorem stable_halt (e : Stop) : Stable (halt e : Scanner τ α) where
  read h := by simp at h
  bad h _ := h

theorem stable_look : Stable (look (τ := τ)) where
  read h t := by
    obtain ⟨cs, rfl, rfl⟩ := look_eq_ok.mp h
    rfl
  bad {b} h := by cases b <;> simp [look] at h

theorem stable_next : Stable (next (τ := τ)) where
  read h t := by
    obtain rfl := next_eq_ok.mp h
    rfl
  bad {b} h := by cases b <;> simp [next] at h

theorem stable_tokens (stop legal : τ → Bool) : Stable (tokens stop legal) where
  read h t := by
    obtain ⟨rfl, ht, d, cs, rfl, hd⟩ := tokens_eq_ok.mp h
    rw [List.append_assoc]
    exact tokens_append ht hd (cs ++ t)
  bad {b} h t := by
    induction b with
    | nil => simp [tokens] at h
    | cons x b ih =>
      rw [List.cons_append, tokens]
      rw [tokens] at h
      split_ifs at h ⊢ with hstop hlegal
      · split at h
        · next e hb =>
          obtain rfl := Except.error.inj h
          rw [ih hb]
        · simp at h
      · rfl

theorem Stable.bind (hp : Stable p) (hf : ∀ a, Stable (f a)) : Stable (p >>= f) where
  read h t := by
    obtain ⟨a, m, ha, hm⟩ := bind_eq_ok.mp h
    exact bind_eq_ok.mpr ⟨a, m ++ t, hp.read ha t, (hf a).read hm t⟩
  bad h t := by
    rcases bind_eq_bad.mp h with ha | ⟨a, m, ha, hm⟩
    · exact bind_eq_bad.mpr (Or.inl (hp.bad ha t))
    · exact bind_eq_bad.mpr (Or.inr ⟨a, m ++ t, hp.read ha t, (hf a).bad hm t⟩)

theorem Stable.ite {P : Prop} [Decidable P] {q : Scanner τ α} (hp : Stable p) (hq : Stable q) :
    Stable (if P then p else q) := by
  split
  · exact hp
  · exact hq

/-- A text from which only the front was read is too short up to there. -/
theorem Stable.short_of_read (hp : Stable p) {s : List τ} (h : p (b ++ s) = .ok (a, r))
    (hlen : r.length < s.length) : p b = .error .short := by
  rcases hb : p b with e | ⟨a', r'⟩
  · cases e with
    | short => rfl
    | bad => exact absurd (h.symm.trans (hp.bad hb s)) (by simp)
  · obtain ⟨-, rfl⟩ := Prod.mk.inj (Except.ok.inj (h.symm.trans (hp.read hb s)))
    rw [List.length_append] at hlen
    omega

end Scanner

end MoonFlare.Incremental
