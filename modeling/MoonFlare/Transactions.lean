import Mathlib

/-!
# Files under transactions

A file whose contents are changed by statements. Outside a transaction a statement is
durable at once; inside one it is seen at once and durable when the transaction
commits. What was not committed is gone when the transaction is rolled back or the
process ends.
-/

namespace MoonFlare

/-- The durable contents of a file, and what an open transaction has made of them. -/
structure TxnFile (σ : Type*) where
  durable : σ
  working : Option σ

namespace TxnFile

variable {σ τ : Type*}

/-- A file with no transaction. -/
def closed (s : σ) : TxnFile σ := ⟨s, none⟩

/-- What a reader of the same connection sees. -/
def view (f : TxnFile σ) : σ := f.working.getD f.durable

/-- `BEGIN`, which an open transaction refuses. -/
def begin (f : TxnFile σ) : TxnFile σ := ⟨f.durable, some f.view⟩

/-- A statement that changes the contents. -/
def write (f : TxnFile σ) (change : σ → σ) : TxnFile σ :=
  match f.working with
  | some s => ⟨f.durable, some (change s)⟩
  | none => ⟨change f.durable, none⟩

/-- `COMMIT`. -/
def commit (f : TxnFile σ) : TxnFile σ := closed f.view

/-- `ROLLBACK`, and what the end of the process comes to. -/
def rollback (f : TxnFile σ) : TxnFile σ := closed f.durable

@[simp] theorem view_closed (s : σ) : (closed s).view = s := rfl

@[simp] theorem view_begin (f : TxnFile σ) : f.begin.view = f.view := rfl

@[simp] theorem durable_begin (f : TxnFile σ) : f.begin.durable = f.durable := rfl

@[simp] theorem view_write (f : TxnFile σ) (change : σ → σ) :
    (f.write change).view = change f.view := by
  rcases f with ⟨durable, _ | s⟩ <;> rfl

@[simp] theorem view_commit (f : TxnFile σ) : f.commit.view = f.view := rfl

@[simp] theorem durable_commit (f : TxnFile σ) : f.commit.durable = f.view := rfl

@[simp] theorem view_rollback (f : TxnFile σ) : f.rollback.view = f.durable := rfl

@[simp] theorem durable_rollback (f : TxnFile σ) : f.rollback.durable = f.durable := rfl

/-- Without a transaction what is seen is durable. -/
theorem view_of_closed {f : TxnFile σ} (h : f.working = none) : f.view = f.durable := by
  rw [view, h, Option.getD_none]

/-- Inside a transaction a statement changes nothing durable. -/
theorem durable_write {f : TxnFile σ} {s : σ} (h : f.working = some s) (change : σ → σ) :
    (f.write change).durable = f.durable := by
  rw [write, h]

/-- A statement opens no transaction. -/
theorem working_write {f : TxnFile σ} (h : f.working = none) (change : σ → σ) :
    (f.write change).working = none := by
  rw [write, h]

end TxnFile

end MoonFlare
