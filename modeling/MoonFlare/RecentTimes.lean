import Mathlib

/-!
# Counting what happened lately

A table of fixed size keeps the times of events, and when it is full the oldest
gives way. A time stays recent for a while after it and is then recent no more.
As long as fewer events are recent than the table holds, the table knows all of
them: what it forgets is never recent. A limit that is asked of the table before
each event is then a limit over every window, and not only over the windows that
end with an event.
-/

namespace MoonFlare

/-- Which times are recent: `recent now t` says that what happened at `t` still
counts at `now`. -/
structure Fading {α : Type*} [LinearOrder α] (recent : α → α → Prop) : Prop where
  /-- What happens now counts. -/
  now (t : α) : recent t t
  /-- What counts later counted before. -/
  earlier {t now later : α} : t ≤ now → now ≤ later → recent later t → recent now t
  /-- What happened since counts as long. -/
  since {t u now : α} : t ≤ u → u ≤ now → recent now t → recent now u

/-- The times of the events kept. -/
structure RecentTimes (α : Type*) (cap : ℕ) where
  times : List α
  fits : times.length ≤ cap

namespace RecentTimes

variable {α : Type*} [LinearOrder α] {cap : ℕ}

/-- Nothing is kept. -/
def empty : RecentTimes α cap := ⟨[], cap.zero_le⟩

/-- The first position of an oldest time, found from the front. -/
def oldest (ts : List α) : ℕ :=
  (List.range ts.length).foldl
    (fun old i => if ∃ t ∈ ts[i]?, ∃ u ∈ ts[old]?, t < u then i else old) 0

/-- An event is kept, in the place of an oldest one when there is no room. -/
def note (kept : RecentTimes α cap) (now : α) : RecentTimes α cap :=
  if h : kept.times.length < cap then
    ⟨kept.times ++ [now], by simpa using h⟩
  else ⟨kept.times.set (oldest kept.times) now, by simpa using kept.fits⟩

/-- The events kept that are recent. -/
def count (recent : α → α → Prop) [DecidableRel recent] (kept : RecentTimes α cap) (now : α) : ℕ :=
  kept.times.countP fun t => decide (recent now t)

/-- No time kept is before the one found. -/
theorem oldest_spec {ts : List α} (hne : ts ≠ []) :
    ∃ h : oldest ts < ts.length, ∀ u ∈ ts, ts[oldest ts] ≤ u := by
  have hscan : ∀ k ≤ ts.length, ∀ old, (List.range k).foldl
      (fun old i => if ∃ t ∈ ts[i]?, ∃ u ∈ ts[old]?, t < u then i else old) 0 = old →
      ∃ h : old < ts.length, ∀ i, (hi : i < k) → (hik : i < ts.length) → ts[old] ≤ ts[i] := by
    intro k
    induction k with
    | zero =>
      rintro - old rfl
      exact ⟨List.length_pos_of_ne_nil hne, fun i hi => absurd hi i.not_lt_zero⟩
    | succ k ih =>
      intro hk old hold
      obtain ⟨hlt, hleast⟩ := ih (by omega) _ rfl
      rw [List.range_succ, List.foldl_append, List.foldl_cons, List.foldl_nil] at hold
      generalize (List.range k).foldl _ 0 = found at hold hlt hleast
      rw [List.getElem?_eq_getElem hlt, List.getElem?_eq_getElem (show k < ts.length by omega)]
        at hold
      simp only [Option.mem_some_iff, exists_eq_left'] at hold
      split_ifs at hold with hless
      · subst hold
        refine ⟨by omega, fun i hi hik => ?_⟩
        rcases Nat.lt_succ_iff_lt_or_eq.mp hi with hi | rfl
        · exact hless.le.trans (hleast i hi hik)
        · exact le_rfl
      · subst hold
        refine ⟨hlt, fun i hi hik => ?_⟩
        rcases Nat.lt_succ_iff_lt_or_eq.mp hi with hi | rfl
        · exact hleast i hi hik
        · exact not_lt.mp hless
  obtain ⟨hlt, hleast⟩ := hscan ts.length le_rfl _ rfl
  refine ⟨hlt, fun u hu => ?_⟩
  obtain ⟨i, hi, rfl⟩ := List.getElem_of_mem hu
  exact hleast i hi hi

/-- Of the events so far the table keeps all but some that are recent no more. -/
def Remembers (recent : α → α → Prop) (kept : RecentTimes α cap) (ts : List α) (now : α) : Prop :=
  ∃ forgotten, ts.Perm (kept.times ++ forgotten) ∧ ∀ t ∈ forgotten, t ≤ now ∧ ¬recent now t

/-- In every window at most so many events lie: those from a time on for which that
time is still recent. -/
def Limited (recent : α → α → Prop) [DecidableRel recent] (limit : ℕ) (ts : List α) : Prop :=
  ∀ start, ts.countP (fun t => decide (start ≤ t) && decide (recent t start)) ≤ limit

variable {recent : α → α → Prop}

theorem remembers_empty (now : α) : Remembers recent (empty : RecentTimes α cap) [] now :=
  ⟨[], by simp [empty]⟩

/-- What is forgotten stays so as time goes on. -/
theorem Remembers.later (hfade : Fading recent) {kept : RecentTimes α cap} {ts : List α}
    {now later : α} (h : Remembers recent kept ts now) (hle : now ≤ later) :
    Remembers recent kept ts later := by
  obtain ⟨forgotten, hperm, hgone⟩ := h
  refine ⟨forgotten, hperm, fun t ht => ?_⟩
  obtain ⟨hbefore, hnot⟩ := hgone t ht
  exact ⟨hbefore.trans hle, fun hrec => hnot (hfade.earlier hbefore hle hrec)⟩

section Count

variable [DecidableRel recent]

/-- The table counts what is recent among all events. -/
theorem Remembers.count_eq {kept : RecentTimes α cap} {ts : List α} {now : α}
    (h : Remembers recent kept ts now) :
    ts.countP (fun t => decide (recent now t)) = kept.count recent now := by
  obtain ⟨forgotten, hperm, hgone⟩ := h
  have hnone : forgotten.countP (fun t => decide (recent now t)) = 0 := by
    rw [List.countP_eq_zero]
    intro t ht
    simpa using (hgone t ht).2
  rw [hperm.countP_eq, List.countP_append, hnone, Nat.add_zero]
  rfl

/-- An event that finds fewer recent ones than the table holds makes it forget none
that is recent. -/
theorem Remembers.note (hfade : Fading recent) {kept : RecentTimes α cap} {ts : List α} {now : α}
    (h : Remembers recent kept ts now) (hts : ∀ t ∈ ts, t ≤ now)
    (hcount : kept.count recent now < cap) :
    Remembers recent (kept.note now) (ts ++ [now]) now := by
  obtain ⟨forgotten, hperm, hgone⟩ := h
  have hts' : (ts ++ [now]).Perm (now :: ts) := List.perm_append_singleton now ts
  unfold RecentTimes.note
  split
  · refine ⟨forgotten, hts'.trans ?_, hgone⟩
    have hmiddle : (kept.times ++ [now] ++ forgotten).Perm (now :: (kept.times ++ forgotten)) := by
      simp
    exact (hperm.cons now).trans hmiddle.symm
  · next hfull =>
    have hlen : kept.times.length = cap := by have := kept.fits; omega
    have hne : kept.times ≠ [] := by
      intro hnil
      rw [hnil, List.length_nil] at hlen
      omega
    obtain ⟨hlt, hleast⟩ := oldest_spec hne
    -- Were an oldest time recent, all times kept would be, and the table full of them.
    have hold : ¬recent now kept.times[oldest kept.times] := by
      intro hrec
      have hall : kept.count recent now = kept.times.length := by
        refine List.countP_eq_length.mpr fun u hu => decide_eq_true ?_
        exact hfade.since (hleast u hu) (hts u (hperm.mem_iff.mpr (List.mem_append_left _ hu))) hrec
      omega
    have hset := List.set_perm_cons_eraseIdx hlt now
    have hkept := List.getElem_cons_eraseIdx_perm hlt
    refine ⟨kept.times[oldest kept.times] :: forgotten, hts'.trans ?_, fun t ht => ?_⟩
    · calc (now :: ts).Perm (now :: (kept.times ++ forgotten)) := hperm.cons now
        _ |>.Perm (now :: (kept.times[oldest kept.times] ::
            kept.times.eraseIdx (oldest kept.times) ++ forgotten)) :=
          (hkept.symm.append_right forgotten).cons now
        _ |>.Perm (now :: (kept.times.eraseIdx (oldest kept.times) ++
            kept.times[oldest kept.times] :: forgotten)) := List.perm_middle.symm.cons now
        _ |>.Perm (kept.times.set (oldest kept.times) now ++
            kept.times[oldest kept.times] :: forgotten) := hset.symm.append_right _
    · rcases List.mem_cons.mp ht with rfl | ht
      · exact ⟨hts _ (hperm.mem_iff.mpr (List.mem_append_left _ (List.getElem_mem hlt))), hold⟩
      · exact hgone t ht

/-- An event within the limit keeps every window within it. -/
theorem Limited.note (hfade : Fading recent) {limit : ℕ} {ts : List α} {now : α}
    (h : Limited recent limit ts) (hts : ∀ t ∈ ts, t ≤ now)
    (hcount : ts.countP (fun t => decide (recent now t)) < limit) :
    Limited recent limit (ts ++ [now]) := by
  intro start
  rw [List.countP_append, List.countP_singleton]
  split
  · next hwindow =>
    simp only [Bool.and_eq_true, decide_eq_true_eq] at hwindow
    have hle : ts.countP (fun t => decide (start ≤ t) && decide (recent t start)) ≤
        ts.countP fun t => decide (recent now t) := by
      refine List.countP_mono_left fun t ht hin => ?_
      simp only [Bool.and_eq_true, decide_eq_true_eq] at hin ⊢
      exact hfade.since hin.1 (hts t ht) hwindow.2
    omega
  · exact h start

/-- Of events that are pairwise recent there are at most so many. -/
theorem Limited.of_pairwise {limit : ℕ} {ts : List α} (h : Limited recent limit ts)
    {p : α → Bool} (hp : ∀ t ∈ ts, ∀ u ∈ ts, p t → p u → t ≤ u → recent u t) :
    ts.countP p ≤ limit := by
  by_cases hnone : ∃ t ∈ ts, p t = true
  · obtain ⟨t₀, ht₀, hpt₀⟩ := hnone
    obtain ⟨start, hstart, hleast⟩ := (ts.filter p).toFinset.exists_min_image id
      ⟨t₀, by simpa using And.intro ht₀ hpt₀⟩
    have hfirst : start ∈ ts ∧ p start = true := by simpa using hstart
    refine (List.countP_mono_left fun t ht hpt => ?_).trans (h start)
    have hle : start ≤ t := hleast t (by simpa using And.intro ht hpt)
    simpa using And.intro hle (hp start hfirst.1 t ht hfirst.2 hpt hle)
  · have hzero : ts.countP p = 0 := by
      rw [List.countP_eq_zero]
      exact fun t ht hpt => hnone ⟨t, ht, hpt⟩
    omega

end Count

end RecentTimes

end MoonFlare
