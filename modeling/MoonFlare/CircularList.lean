import Mathlib

/-!
# Lists in a circle of cells

A list is kept in the cells themselves: each cell holds the next one, the
newest holds the oldest, and the head is the newest. A cell is put in behind
the head, and taken out through the cell in front of it. One lemma for each
operation says what it makes of the list, and that every cell outside the
circle keeps its link.
-/

namespace MoonFlare.Circular

variable {τ : Type*}

/-- The link of each cell, if it has one. -/
abbrev Links (τ : Type*) := τ → Option τ

/-- Each cell holds the next one, and the last holds the first. -/
def Linked (next : Links τ) (xs : List τ) : Prop :=
  ∀ l ∈ xs.getLast?, (l :: xs).IsChain fun a b => next a = some b

/-- The cells of a circle, oldest first, and its head. -/
structure Circle (next : Links τ) (head : Option τ) (xs : List τ) : Prop where
  nodup : xs.Nodup
  newest : head = xs.getLast?
  linked : Linked next xs

variable {next next' : Links τ} {head : Option τ} {xs ys seen rest : List τ} {a b n t prev : τ}

theorem linked_nil (next : Links τ) : Linked next [] := fun _ h => nomatch h

theorem circle_nil (next : Links τ) : Circle next none [] :=
  ⟨List.nodup_nil, rfl, linked_nil next⟩

theorem linked_concat : Linked next (xs ++ [a]) ↔
    (a :: (xs ++ [a])).IsChain fun a b => next a = some b := by
  simp [Linked]

/-- The circle can be read from any of its cells on. -/
theorem Linked.rotate (h : Linked next (xs ++ ys)) : Linked next (ys ++ xs) := by
  rcases List.eq_nil_or_concat xs with rfl | ⟨xs, a, rfl⟩
  · simpa using h
  rcases List.eq_nil_or_concat ys with rfl | ⟨ys, b, rfl⟩
  · simpa using h
  rw [List.concat_eq_append, List.concat_eq_append] at h ⊢
  rw [← List.append_assoc, linked_concat] at h ⊢
  -- the chain from `b` over `a` back to `b` is cut at `a`
  rw [List.append_assoc xs, List.singleton_append, List.append_assoc, List.cons_append,
    ← List.cons_append, List.isChain_split] at h
  rw [List.append_assoc ys, List.singleton_append, List.append_assoc, List.cons_append,
    ← List.cons_append, List.isChain_split]
  exact ⟨h.2, h.1⟩

/-- What a chain needs is the links of all its cells but the last. -/
theorem isChain_congr {R S : τ → τ → Prop} (h : ∀ x ∈ xs, ∀ y, R x y → S x y)
    (hchain : (xs ++ [a]).IsChain R) : (xs ++ [a]).IsChain S := by
  induction xs with
  | nil => exact List.isChain_singleton a
  | cons x xs ih =>
    have htail := fun hrest => ih (fun y hy => h y (List.mem_cons_of_mem x hy)) hrest
    cases xs with
    | nil => simpa using h x List.mem_cons_self a (by simpa using hchain)
    | cons y ys =>
      simp only [List.cons_append, List.isChain_cons_cons] at hchain htail ⊢
      exact ⟨h x List.mem_cons_self y hchain.1, htail hchain.2⟩

/-- Only the links of the circle's own cells matter to it. -/
theorem Circle.congr (h : Circle next head xs) (hsame : ∀ x ∈ xs, next' x = next x) :
    Circle next' head xs := by
  refine ⟨h.nodup, h.newest, ?_⟩
  rcases List.eq_nil_or_concat xs with rfl | ⟨ys, l, rfl⟩
  · exact linked_nil next'
  · rw [List.concat_eq_append] at h hsame ⊢
    have hlinked := linked_concat.mp h.linked
    rw [linked_concat, ← List.cons_append]
    refine isChain_congr (fun x hx y hy => ?_) hlinked
    have hmem : x ∈ ys ++ [l] := by
      rcases List.mem_cons.mp hx with rfl | hx
      · exact List.mem_append_right _ (List.mem_singleton_self x)
      · exact List.mem_append_left _ hx
    exact (hsame x hmem).trans hy

theorem Circle.head_eq_none (h : Circle next head xs) : head = none ↔ xs = [] := by
  rw [h.newest, List.getLast?_eq_none_iff]

/-- A circle that is not empty, from its newest cell on. -/
theorem Circle.concat (h : Circle next (some a) xs) : ∃ ys, xs = ys ++ [a] := by
  have hlast := h.newest.symm
  rw [List.getLast?_eq_some_iff] at hlast
  exact hlast

/-- Two chains from one cell to the first place of another are the same. -/
theorem chain_unique {l : τ} (hxs : (a :: xs).IsChain fun a b => next a = some b)
    (hys : (a :: ys).IsChain fun a b => next a = some b) (hx : xs.getLast? = some l)
    (hy : ys.getLast? = some l) (hxn : xs.Nodup) (hyn : ys.Nodup) : xs = ys := by
  induction xs generalizing a ys with
  | nil => exact absurd hx (by simp)
  | cons x xs ih =>
    cases ys with
    | nil => exact absurd hy (by simp)
    | cons y ys =>
      rw [List.isChain_cons_cons] at hxs hys
      obtain rfl : x = y := Option.some.inj (hxs.1.symm.trans hys.1)
      -- the last cell is not met before
      have hlone {zs : List τ} (hz : (x :: zs).Nodup) (hzl : zs.getLast? = some l) : l ≠ x :=
        fun he => (List.nodup_cons.mp hz).1 (he ▸ List.mem_of_getLast? hzl)
      rcases List.eq_nil_or_concat xs with rfl | ⟨xs', x', rfl⟩
      · obtain rfl : x = l := by simpa using hx
        rcases List.eq_nil_or_concat ys with rfl | ⟨ys', y', rfl⟩
        · rfl
        · exact absurd rfl (hlone hyn (by simpa [List.getLast?_cons] using hy))
      · have hx' : (xs'.concat x').getLast? = some l := by simpa [List.getLast?_cons] using hx
        rcases List.eq_nil_or_concat ys with rfl | ⟨ys', y', rfl⟩
        · obtain rfl : x = l := by simpa using hy
          exact absurd rfl (hlone hxn hx')
        · have hy' : (ys'.concat y').getLast? = some l := by simpa [List.getLast?_cons] using hy
          rw [ih hxs.2 hys.2 hx' hy' (List.nodup_cons.mp hxn).2 (List.nodup_cons.mp hyn).2]

/-- The links and the head determine the list. -/
theorem Circle.unique (hx : Circle next head xs) (hy : Circle next head ys) : xs = ys := by
  cases head with
  | none => rw [hx.head_eq_none.mp rfl, hy.head_eq_none.mp rfl]
  | some l =>
    exact chain_unique (hx.linked l hx.newest.symm) (hy.linked l hy.newest.symm) hx.newest.symm
      hy.newest.symm hx.nodup hy.nodup

section Operations

variable [DecidableEq τ]

/-- The links with a cell put in behind the head, which it is then itself. -/
def link (next : Links τ) (head : Option τ) (n : τ) : Links τ :=
  match head with
  | some h => Function.update (Function.update next n (next h)) h (some n)
  | none => Function.update next n (some n)

/-- The cell behind another one, and the links and the head without it. -/
def unlink (next : Links τ) (head : Option τ) (prev : τ) :
    Option (τ × Links τ × Option τ) :=
  (next prev).map fun t =>
    (t, Function.update (Function.update next prev (next t)) t none,
      if t = prev then none else if some t = head then some prev else head)

theorem link_of_ne (h : a ≠ n) (hhead : head ≠ some a) : link next head n a = next a := by
  cases head with
  | none => exact Function.update_of_ne h _ _
  | some l =>
    have hne : a ≠ l := fun he => hhead (he ▸ rfl)
    rw [link, Function.update_of_ne hne, Function.update_of_ne h]

/-- Putting a cell in makes it the newest. -/
theorem Circle.link (h : Circle next head xs) (hn : n ∉ xs) :
    Circle (link next head n) (some n) (xs ++ [n]) := by
  refine ⟨List.nodup_append.mpr ⟨h.nodup, List.nodup_singleton n, ?_⟩, by simp, ?_⟩
  · rintro a ha b hb rfl
    exact hn (List.mem_singleton.mp hb ▸ ha)
  rw [linked_concat]
  cases head with
  | none =>
    have hempty := h.head_eq_none.mp rfl
    subst hempty
    simp [Circular.link]
  | some l =>
    obtain ⟨ys, rfl⟩ := h.concat
    have hne : n ≠ l := fun he => hn (he ▸ by simp)
    have hchain := linked_concat.mp h.linked
    have hnodup := List.nodup_append.mp h.nodup
    -- the new cell takes over the link of the newest, which is linked to the new cell
    have hnew : Circular.link next (some l) n n = next l := by
      simp [Circular.link, Function.update_of_ne hne]
    have hlast : Circular.link next (some l) n l = some n := by simp [Circular.link]
    have hrest : ∀ x ∈ ys, ∀ y, next x = some y → Circular.link next (some l) n x = some y := by
      intro x hx y hy
      have hxn : x ≠ n := fun he => hn (he ▸ List.mem_append_left _ hx)
      have hxl : l ≠ x := fun he => hnodup.2.2 x hx l (List.mem_singleton_self l) he.symm
      rwa [link_of_ne hxn fun he => hxl (Option.some.inj he)]
    cases ys with
    | nil => simpa [hnew, hlast] using hchain
    | cons y ys =>
      simp only [List.cons_append, List.isChain_cons_cons] at hchain
      have hinner := isChain_congr hrest (by simpa using hchain.2)
      simp only [List.cons_append, List.append_assoc, List.nil_append, List.isChain_cons_cons,
        hnew] at hinner ⊢
      refine ⟨hchain.1, ?_⟩
      rw [← List.cons_append, List.isChain_split]
      exact ⟨by simpa using hinner, by simp [hlast]⟩

/-- What is taken out through the newest cell is the oldest. -/
theorem Linked.drop (h : Linked next (t :: xs)) (hnodup : (t :: xs).Nodup)
    (hlast : xs.getLast? = some prev) :
    next prev = some t ∧
      Linked (Function.update (Function.update next prev (next t)) t none) xs := by
  rw [List.getLast?_eq_some_iff] at hlast
  obtain ⟨ys, rfl⟩ := hlast
  rw [← List.cons_append, linked_concat] at h
  simp only [List.cons_append, List.isChain_cons_cons] at h
  obtain ⟨htaken, hchain⟩ := h
  obtain ⟨hout, hnodup⟩ := List.nodup_cons.mp hnodup
  have hne : prev ≠ t := fun he => hout (he ▸ by simp)
  refine ⟨htaken, linked_concat.mpr ?_⟩
  have hfront : Function.update (Function.update next prev (next t)) t none prev = next t := by
    rw [Function.update_of_ne hne, Function.update_self]
  have hrest : ∀ x ∈ ys, ∀ y, next x = some y →
      Function.update (Function.update next prev (next t)) t none x = some y := by
    intro x hx y hy
    have hxt : x ≠ t := fun he => hout (he ▸ List.mem_append_left _ hx)
    have hxp : x ≠ prev := by
      rintro rfl
      exact (List.nodup_append.mp hnodup).2.2 x hx x (List.mem_singleton_self x) rfl
    rwa [Function.update_of_ne hxt, Function.update_of_ne hxp]
  cases ys with
  | nil => simpa [hfront] using hchain
  | cons y ys =>
    simp only [List.cons_append, List.isChain_cons_cons] at hchain ⊢
    refine ⟨hfront.trans hchain.1, ?_⟩
    exact isChain_congr hrest hchain.2

/-- The cell in front of a part of the circle: the last of what is in front of it, or the head. -/
theorem Circle.unlink {l : τ} (h : Circle next (some l) (seen ++ t :: rest))
    (hprev : prev = seen.getLastD l) :
    ∃ next' head', unlink next (some l) prev = some (t, next', head') ∧
      Circle next' head' (seen ++ rest) ∧ next' t = none ∧
      ∀ x, x ∉ seen ++ t :: rest → next' x = next x := by
  have hlast : (seen ++ t :: rest).getLast? = some l := h.newest.symm
  have hrotated : Linked next (t :: (rest ++ seen)) := h.linked.rotate
  have hnodup : (t :: (rest ++ seen)).Nodup := by
    have hperm : (seen ++ t :: rest).Perm (t :: rest ++ seen) := List.perm_append_comm
    exact hperm.nodup_iff.mp h.nodup
  have hkept : (seen ++ rest).Nodup := by
    have hperm : (rest ++ seen).Perm (seen ++ rest) := List.perm_append_comm
    exact hperm.nodup_iff.mp (List.nodup_cons.mp hnodup).2
  have houtside : ∀ x, x ∉ seen ++ t :: rest → prev ∈ seen ++ t :: rest →
      Function.update (Function.update next prev (next t)) t none x = next x := by
    intro x hx hmem
    have hxt : x ≠ t := by
      rintro rfl
      exact hx (by simp)
    have hxp : x ≠ prev := by
      rintro rfl
      exact hx hmem
    rw [Function.update_of_ne hxt, Function.update_of_ne hxp]
  have hmem : prev ∈ seen ++ t :: rest := by
    rcases List.eq_nil_or_concat seen with rfl | ⟨ss, s, rfl⟩
    · rw [hprev]
      exact List.mem_of_getLast? hlast
    · rw [hprev]
      simp
  rcases List.eq_nil_or_concat (rest ++ seen) with hnil | ⟨zs, z, hzs⟩
  · -- the cell is alone
    obtain ⟨rfl, rfl⟩ := List.append_eq_nil_iff.mp hnil
    obtain rfl : t = l := by simpa using hlast
    obtain rfl : prev = t := hprev
    have hself : next prev = some prev := by
      simpa [Linked] using h.linked
    refine ⟨_, _, by rw [Circular.unlink, hself]; rfl, ?_, Function.update_self .., ?_⟩
    · rw [if_pos rfl]
      exact circle_nil _
    · exact fun x hx => houtside x hx hmem
  · -- the cell in front is the last of the others
    have hfront : (rest ++ seen).getLast? = some prev := by
      rcases List.eq_nil_or_concat seen with rfl | ⟨ss, s, rfl⟩
      · rcases List.eq_nil_or_concat rest with rfl | ⟨rs, r, rfl⟩
        · simp at hzs
        · rw [hprev]
          simpa [List.getLast?_cons] using hlast
      · rw [hprev]
        simp
    obtain ⟨htaken, hlinked⟩ := hrotated.drop hnodup hfront
    have hne : t ≠ prev := fun he =>
      (List.nodup_cons.mp hnodup).1 (he ▸ List.mem_of_getLast? hfront)
    refine ⟨_, _, by rw [Circular.unlink, htaken]; rfl, ⟨hkept, ?_, hlinked.rotate⟩,
      Function.update_self .., fun x hx => houtside x hx hmem⟩
    rw [if_neg hne]
    rcases List.eq_nil_or_concat rest with rfl | ⟨rs, r, rfl⟩
    · -- the newest goes, and the one in front of it is the newest then
      have htl : t = l := by simpa using hlast
      rw [if_pos (congrArg some htl)]
      simpa using hfront.symm
    · have hrl : r = l := by simpa [List.getLast?_cons] using hlast
      have htl : t ≠ l := by
        rintro rfl
        exact (List.nodup_cons.mp hnodup).1 (by simp [hrl])
      rw [if_neg fun he => htl (Option.some.inj he)]
      simp [hrl]

/-- The link of the cell in front of a part of the circle. -/
theorem Circle.next_eq {l : τ} (h : Circle next (some l) (seen ++ t :: rest)) :
    next (seen.getLastD l) = some t := by
  obtain ⟨next', head', hunlink, -⟩ := h.unlink rfl
  obtain ⟨t', ht', heq⟩ := Option.map_eq_some_iff.mp hunlink
  rw [ht', (Prod.mk.inj heq).1]

end Operations

/-- A cell is the newest exactly when nothing stands behind it. -/
theorem Circle.newest_iff {l : τ} (h : Circle next (some l) (seen ++ t :: rest)) :
    t = l ↔ rest = [] := by
  have hlast : (seen ++ t :: rest).getLast? = some l := h.newest.symm
  rcases List.eq_nil_or_concat rest with rfl | ⟨rs, r, rfl⟩
  · simpa using hlast
  · have hrl : r = l := by simpa [List.getLast?_cons] using hlast
    have hout : t ∉ rs.concat r := (List.nodup_cons.mp (List.nodup_append.mp h.nodup).2.1).1
    refine ⟨?_, fun hnil => by simp at hnil⟩
    rintro rfl
    exact absurd (by simp [hrl]) hout

end MoonFlare.Circular
