import Mathlib

/-!
# Programs that read a buffer by index

A parser that looks at single places of a buffer, each chosen by what it has seen before,
is a tree of reads. It can be run on memory that answers at every index, as a C program
runs, and on a list whose length is checked at every read. The two agree exactly when each
index read on the way is inside the list.
-/

namespace MoonFlare

/-- A program that reads places of a buffer of `β`s. -/
inductive Reads (β α : Type) where
  | done (a : α)
  | read (i : ℕ) (next : β → Reads β α)

namespace Reads

variable {β α γ ι : Type} {mem : ℕ → β}

/-- One program behind another. -/
def bind : Reads β α → (α → Reads β γ) → Reads β γ
  | done a, f => f a
  | read i next, f => read i fun x => (next x).bind f

instance : Monad (Reads β) where
  pure := done
  bind := bind

/-- The value at an index. -/
def peek (i : ℕ) : Reads β β := read i done

/-- A program for each entry of a list, one behind another. -/
def each (f : ι → Reads β α) : List ι → Reads β (List α)
  | [] => done []
  | x :: xs => do
    let a ← f x
    let as ← each f xs
    pure (a :: as)

/-- Run on memory. -/
def eval (mem : ℕ → β) : Reads β α → α
  | done a => a
  | read i next => (next (mem i)).eval mem

/-- The indices read on the way. -/
def indices (mem : ℕ → β) : Reads β α → List ℕ
  | done _ => []
  | read i next => i :: (next (mem i)).indices mem

/-- Run on a list, up to the first index outside it. -/
def check (b : List β) : Reads β α → Except ℕ α
  | done a => .ok a
  | read i next => if h : i < b.length then (next b[i]).check b else .error i

/-- Every index read is below a bound. -/
def Inside (mem : ℕ → β) (n : ℕ) (p : Reads β α) : Prop := ∀ i ∈ p.indices mem, i < n

@[simp] theorem eval_pure (a : α) : (pure a : Reads β α).eval mem = a := rfl

@[simp] theorem eval_done (a : α) : (done a : Reads β α).eval mem = a := rfl

@[simp] theorem eval_peek (i : ℕ) : (peek i : Reads β β).eval mem = mem i := rfl

@[simp] theorem eval_bind (p : Reads β α) (f : α → Reads β γ) :
    (p >>= f).eval mem = (f (p.eval mem)).eval mem := by
  change (p.bind f).eval mem = _
  induction p with
  | done a => rfl
  | read i next ih => exact ih (mem i)

@[simp] theorem eval_each (f : ι → Reads β α) (xs : List ι) :
    (each f xs).eval mem = xs.map fun x => (f x).eval mem := by
  induction xs with
  | nil => rfl
  | cons x xs ih => simp [each, ih]

@[simp] theorem inside_done (n : ℕ) (a : α) : Inside mem n (done a : Reads β α) :=
  fun _ hi => by cases hi

@[simp] theorem inside_pure (n : ℕ) (a : α) : Inside mem n (pure a : Reads β α) :=
  fun _ hi => by cases hi

@[simp] theorem inside_peek (n i : ℕ) : Inside mem n (peek i : Reads β β) ↔ i < n := by
  simp [Inside, peek, indices]

@[simp] theorem inside_bind (n : ℕ) (p : Reads β α) (f : α → Reads β γ) :
    Inside mem n (p >>= f) ↔ Inside mem n p ∧ Inside mem n (f (p.eval mem)) := by
  change Inside mem n (p.bind f) ↔ _
  induction p with
  | done a => simp [bind]
  | read i next ih =>
    have hnext := ih (mem i)
    simp only [Inside, bind, indices, eval, List.forall_mem_cons] at hnext ⊢
    rw [hnext, and_assoc]

@[simp] theorem inside_each (n : ℕ) (f : ι → Reads β α) (xs : List ι) :
    Inside mem n (each f xs) ↔ ∀ x ∈ xs, Inside mem n (f x) := by
  induction xs with
  | nil => simp [each]
  | cons x xs ih => simp [each, ih]

/-- A checked run comes through exactly when every read is inside, and then its result is
that of the run on memory. -/
theorem check_eq_ok_iff {b : List β} (hmem : ∀ (i : ℕ) (h : i < b.length), mem i = b[i])
    (p : Reads β α) (a : α) :
    p.check b = .ok a ↔ Inside mem b.length p ∧ p.eval mem = a := by
  induction p with
  | done c => simp [check]
  | read i next ih =>
    rw [check]
    split
    · next h =>
      rw [ih, ← hmem i h]
      simp [Inside, indices, eval, hmem i h, h]
    · next h =>
      have hout : ¬Inside mem b.length (read i next) := fun hin =>
        h (hin i List.mem_cons_self)
      simp [hout]

end Reads

end MoonFlare
