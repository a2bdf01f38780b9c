import Mathlib

/-!
# Ring buffers

A queue in an array of fixed size. The elements lie from the head on and wrap
around at the end of the array; the slots behind them keep what was left there.
The operations are those of the array, and the rules below say what they do to the
queue, as long as it has room.
-/

namespace MoonFlare

/-- An array with the position of the first element of the queue and its length. -/
structure RingBuffer (α : Type*) (cap : ℕ) where
  slots : Fin cap → α
  head : Fin cap
  count : ℕ

namespace RingBuffer

variable {α : Type*} {cap : ℕ}

/-- The slot a number of places behind the head. -/
def place (r : RingBuffer α cap) (k : ℕ) : Fin cap :=
  ⟨(r.head + k) % cap, Nat.mod_lt _ r.head.pos⟩

/-- The queue, oldest first. -/
def contents (r : RingBuffer α cap) : List α := (List.range r.count).map fun k => r.slots (r.place k)

/-- The oldest element. -/
def front (r : RingBuffer α cap) : α := r.slots r.head

/-- The first element leaves. -/
def popFront (r : RingBuffer α cap) : RingBuffer α cap :=
  { r with head := r.place 1, count := r.count - 1 }

/-- An element is written behind the last. -/
def pushBack (r : RingBuffer α cap) (x : α) : RingBuffer α cap :=
  { r with slots := Function.update r.slots (r.place r.count) x, count := r.count + 1 }

/-- The queue is emptied; the slots stay as they are. -/
def clear (r : RingBuffer α cap) (start : Fin cap) : RingBuffer α cap :=
  { r with head := start, count := 0 }

@[simp] theorem count_popFront (r : RingBuffer α cap) : r.popFront.count = r.count - 1 := rfl

@[simp] theorem count_pushBack (r : RingBuffer α cap) (x : α) :
    (r.pushBack x).count = r.count + 1 := rfl

@[simp] theorem length_contents (r : RingBuffer α cap) : r.contents.length = r.count := by
  simp [contents]

theorem contents_of_count_zero {r : RingBuffer α cap} (h : r.count = 0) : r.contents = [] := by
  simp [contents, h]

@[simp] theorem contents_clear (r : RingBuffer α cap) (start : Fin cap) :
    (r.clear start).contents = [] := contents_of_count_zero rfl

theorem place_zero (r : RingBuffer α cap) : r.place 0 = r.head :=
  Fin.ext (Nat.mod_eq_of_lt r.head.isLt)

/-- A place behind the second element is one further behind the first. -/
theorem place_popFront (r : RingBuffer α cap) (k : ℕ) : r.popFront.place k = r.place (k + 1) := by
  refine Fin.ext ?_
  simp only [place, popFront, Nat.mod_add_mod]
  congr 1
  omega

/-- Two places less than a round apart are different slots. -/
theorem place_ne (r : RingBuffer α cap) {j k : ℕ} (hjk : j < k) (hk : k < cap) :
    r.place j ≠ r.place k := by
  intro heq
  have hmod : (r.head + j) % cap = (r.head + k) % cap := congrArg Fin.val heq
  have hcong : j ≡ k [MOD cap] := Nat.ModEq.add_left_cancel' r.head hmod
  have hsame : j = k := Nat.ModEq.eq_of_lt_of_lt hcong (hjk.trans hk) hk
  omega

/-- The queue is its oldest element and what is left when it leaves. -/
theorem contents_eq_cons {r : RingBuffer α cap} (h : 0 < r.count) :
    r.contents = r.front :: r.popFront.contents := by
  have hcount : r.count = (r.count - 1) + 1 := by omega
  have htail : r.popFront.contents =
      (List.range (r.count - 1)).map fun k => r.slots (r.place (k + 1)) := by
    simp only [contents, place_popFront]
    rfl
  rw [htail, contents, hcount, List.range_succ_eq_map, List.map_cons, List.map_map, place_zero]
  rfl

/-- The queue behind a written element, when it had room. -/
theorem contents_pushBack {r : RingBuffer α cap} (h : r.count < cap) (x : α) :
    (r.pushBack x).contents = r.contents ++ [x] := by
  have hplace : ∀ k, (r.pushBack x).place k = r.place k := fun _ => rfl
  have hold : ∀ k ∈ List.range r.count,
      (r.pushBack x).slots (r.place k) = r.slots (r.place k) := by
    intro k hk
    exact Function.update_of_ne (r.place_ne (List.mem_range.mp hk) h) _ _
  simp only [contents, count_pushBack, List.range_succ, List.map_append, hplace]
  rw [List.map_congr_left hold]
  simp [pushBack]

end RingBuffer

end MoonFlare
