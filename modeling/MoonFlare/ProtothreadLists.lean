import MoonFlare.Protothread

/-!
# The scheduler's lists

Every thread holds one link, so the ready list and the wait lists are circles
through cells that no two of them share. What the loops make of them is said
as lists: the search takes one thread out, and the wakening of a channel moves
the threads that wait on it, in their order, behind those that are ready. The
loop goes on behind the newest thread when it has moved that one, and finds
nothing on its second round.
-/

namespace MoonFlare.Pt

open Channels Circular

/-- What the lists hold: each a circle, and no thread in two of them. -/
structure Rings (ls : Lists) (L : Head → List Addr) : Prop where
  circle : ∀ h, Circle ls.next (ls.head h) (L h)
  apart : ∀ h k, h ≠ k → ∀ x ∈ L h, x ∉ L k

variable {ls : Lists} {L : Head → List Addr} {h : Head} {l n t prev c : Addr}
  {seen rest : List Addr} {s : Protothread}

/-- The lists with one of them changed. -/
abbrev put (L : Head → List Addr) (h : Head) (xs : List Addr) : Head → List Addr :=
  Function.update L h xs

@[simp] theorem put_put (L : Head → List Addr) (h : Head) (xs ys : List Addr) :
    put (put L h xs) h ys = put L h ys := Function.update_idem ..

theorem put_comm {k : Head} (hne : h ≠ k) (L : Head → List Addr) (xs ys : List Addr) :
    put (put L h xs) k ys = put (put L k ys) h xs := Function.update_comm hne ..

/-- The newest thread of a list. -/
theorem Rings.head_eq (hr : Rings ls L) (h : Head) : ls.head h = (L h).getLast? :=
  (hr.circle h).newest

theorem Rings.head_eq_none (hr : Rings ls L) (h : Head) : ls.head h = none ↔ L h = [] :=
  (hr.circle h).head_eq_none

/-- A list that is not empty has a newest thread. -/
theorem Rings.exists_head (hr : Rings ls L) (hlist : L h = seen ++ t :: rest) :
    ∃ l, ls.head h = some l := by
  refine Option.ne_none_iff_exists'.mp fun hnone => ?_
  rw [hr.head_eq_none, hlist] at hnone
  exact absurd hnone (by simp)

theorem Rings.next_eq (hr : Rings ls L) (hhead : ls.head h = some l)
    (hlist : L h = seen ++ t :: rest) (hprev : prev = seen.getLastD l) :
    ls.next prev = some t := by
  have hcircle := hr.circle h
  rw [hhead, hlist] at hcircle
  rw [hprev]
  exact hcircle.next_eq

theorem Rings.newest_iff (hr : Rings ls L) (hhead : ls.head h = some l)
    (hlist : L h = seen ++ t :: rest) : t = l ↔ rest = [] := by
  have hcircle := hr.circle h
  rw [hhead, hlist] at hcircle
  exact hcircle.newest_iff

/-- A list changes when the links of the other lists' threads are kept. -/
theorem Rings.replace {ls' : Lists} {xs : List Addr} (hr : Rings ls L)
    (hcircle : Circle ls'.next (ls'.head h) xs)
    (hhead : ∀ k, k ≠ h → ls'.head k = ls.head k)
    (hnext : ∀ k, k ≠ h → ∀ x ∈ L k, ls'.next x = ls.next x)
    (hout : ∀ k, k ≠ h → ∀ x ∈ xs, x ∉ L k) : Rings ls' (put L h xs) := by
  constructor
  · intro k
    by_cases hk : k = h
    · subst hk
      simpa using hcircle
    · rw [put, Function.update_of_ne hk, hhead k hk]
      exact (hr.circle k).congr (hnext k hk)
  · intro k m hkm x hx
    by_cases hk : k = h
    · subst hk
      rw [put, Function.update_self] at hx
      rw [put, Function.update_of_ne hkm.symm]
      exact hout m hkm.symm x hx
    · rw [put, Function.update_of_ne hk] at hx
      by_cases hm : m = h
      · subst hm
        rw [put, Function.update_self]
        exact fun hmem => hout k hk x hmem hx
      · rw [put, Function.update_of_ne hm]
        exact hr.apart k m hkm x hx

/-! ## Linking and unlinking -/

theorem rings_link (hr : Rings ls L) (hout : ∀ k, n ∉ L k) (h : Head) :
    Rings (ptILink ls h n) (put L h (L h ++ [n])) := by
  refine hr.replace ?_ (fun k hk => ?_) (fun k hk x hx => ?_) (fun k hk x hx => ?_)
  · simpa [ptILink] using (hr.circle h).link (hout h)
  · exact Function.update_of_ne hk _ _
  · refine link_of_ne (fun he => hout k (he ▸ hx)) fun hnewest => ?_
    rw [hr.head_eq] at hnewest
    exact hr.apart h k hk.symm x (List.mem_of_getLast? hnewest) hx
  · rcases List.mem_append.mp hx with hx | hx
    · exact hr.apart h k hk.symm x hx
    · exact List.mem_singleton.mp hx ▸ hout k

theorem rings_unlink (hr : Rings ls L) (hhead : ls.head h = some l)
    (hlist : L h = seen ++ t :: rest) (hprev : prev = seen.getLastD l) :
    ∃ ls', ptIUnlink ls h prev = some (t, ls') ∧ Rings ls' (put L h (seen ++ rest)) := by
  have hcircle := hr.circle h
  rw [hhead, hlist] at hcircle
  obtain ⟨next', head', hunlink, hcircle', -, hsame⟩ := hcircle.unlink hprev
  refine ⟨⟨next', Function.update ls.head h head'⟩, by rw [ptIUnlink, hhead, hunlink]; rfl, ?_⟩
  refine hr.replace (by simpa using hcircle') (fun k hk => Function.update_of_ne hk _ _)
    (fun k hk x hx => hsame x fun hmem => ?_) (fun k hk x hx => ?_)
  · exact hr.apart h k hk.symm x (hlist ▸ hmem) hx
  · refine hr.apart h k hk.symm x (hlist ▸ ?_)
    rcases List.mem_append.mp hx with hx | hx
    · exact List.mem_append_left _ hx
    · exact List.mem_append_right _ (List.mem_cons_of_mem t hx)

/-- A thread that was taken out is in no list. -/
theorem Rings.not_mem_put (hr : Rings ls L) (hlist : L h = seen ++ t :: rest) (k : Head) :
    t ∉ put L h (seen ++ rest) k := by
  by_cases hk : k = h
  · subst hk
    have hnodup := (hr.circle k).nodup
    rw [hlist] at hnodup
    have hmoved : (t :: (seen ++ rest)).Nodup := List.perm_middle.nodup_iff.mp hnodup
    simpa using (List.nodup_cons.mp hmoved).1
  · rw [put, Function.update_of_ne hk]
    exact hr.apart h k (Ne.symm hk) t (hlist ▸ by simp)

/-! ## The search -/

/-- The search takes the thread out if it is in the list, and ends within one round. -/
theorem findLoop_spec {fuel : ℕ} (hr : Rings ls L) (hhead : ls.head h = some l)
    (hlist : L h = seen ++ t :: rest) (hprev : prev = seen.getLastD l) (hseen : n ∉ seen)
    (hfuel : rest.length < fuel) :
    ∃ ls', findLoop ls h n fuel prev = some (decide (n ∈ L h), ls') ∧
      Rings ls' (put L h ((L h).erase n)) := by
  induction rest generalizing seen t prev fuel with
  | nil =>
    obtain ⟨fuel, rfl⟩ : ∃ f, fuel = f + 1 := ⟨fuel - 1, by omega⟩
    have hnewest : t = l := (hr.newest_iff hhead hlist).mpr rfl
    by_cases hn : n = t
    · subst hn
      obtain ⟨ls', hunlink, hrings⟩ := rings_unlink hr hhead hlist hprev
      refine ⟨ls', ?_, ?_⟩
      · simp [findLoop, hhead, hr.next_eq hhead hlist hprev, hunlink, hlist]
      · simpa [hlist, List.erase_append_right _ hseen] using hrings
    · have hout : n ∉ L h := by simp [hlist, hseen, hn]
      refine ⟨ls, ?_, ?_⟩
      · simp only [findLoop, hhead, hr.next_eq hhead hlist hprev, Option.bind_eq_bind,
          Option.bind_some, if_neg hn, if_pos hnewest, hout, decide_false]
        rfl
      · rwa [List.erase_of_not_mem hout, put, Function.update_eq_self]
  | cons u rest ih =>
    obtain ⟨fuel, rfl⟩ : ∃ f, fuel = f + 1 := ⟨fuel - 1, by omega⟩
    have hnewest : t ≠ l := fun he => by simpa using (hr.newest_iff hhead hlist).mp he
    by_cases hn : n = t
    · subst hn
      obtain ⟨ls', hunlink, hrings⟩ := rings_unlink hr hhead hlist hprev
      refine ⟨ls', ?_, ?_⟩
      · simp [findLoop, hhead, hr.next_eq hhead hlist hprev, hunlink, hlist]
      · simpa [hlist, List.erase_append_right _ hseen] using hrings
    · have hstep : findLoop ls h n (fuel + 1) prev = findLoop ls h n fuel t := by
        simp [findLoop, hhead, hr.next_eq hhead hlist hprev, hn, hnewest]
      rw [hstep]
      have hlist' : L h = (seen ++ [t]) ++ u :: rest := by simpa using hlist
      refine ih hlist' (by simp) ?_ (by simpa using hfuel)
      simpa [hseen] using hn

/-- `pt_i_find_and_unlink` takes a thread out of a list. -/
theorem findAndUnlink_spec {fuel : ℕ} (hr : Rings ls L) (h : Head) (n : Addr)
    (hfuel : (L h).length ≤ fuel) :
    ∃ ls', ptIFindAndUnlink fuel ls h n = some (decide (n ∈ L h), ls') ∧
      Rings ls' (put L h ((L h).erase n)) := by
  cases hlist : L h with
  | nil =>
    refine ⟨ls, ?_, ?_⟩
    · simp [ptIFindAndUnlink, (hr.head_eq_none h).mpr hlist]
    · have hsame : put L h ([].erase n) = L := by
        rw [List.erase_nil, ← hlist, put, Function.update_eq_self]
      rwa [hsame]
  | cons t rest =>
    have hsplit : L h = [] ++ t :: rest := hlist
    obtain ⟨l, hhead⟩ := hr.exists_head hsplit
    rw [hlist, List.length_cons] at hfuel
    rw [← hlist, ptIFindAndUnlink, hhead]
    exact findLoop_spec hr hhead hsplit rfl List.not_mem_nil (by omega)

/-! ## The wakening -/

theorem waitList_ne_ready (c : Addr) : ptIGetWaitList c ≠ .ready := fun h => nomatch h

/-- Where nothing waits on the channel the loop ends within one round. -/
theorem wakeLoop_quiet {fuel : ℕ} {one notify : Bool} (hr : Rings s.lists L)
    (hhead : s.lists.head (ptIGetWaitList c) = some l)
    (hlist : L (ptIGetWaitList c) = seen ++ t :: rest) (hprev : prev = seen.getLastD l)
    (hquiet : ∀ x ∈ t :: rest, s.channel x ≠ c) (hfuel : rest.length < fuel) :
    wakeLoop c one fuel prev s notify = some (s, notify) := by
  induction rest generalizing seen t prev fuel with
  | nil =>
    obtain ⟨fuel, rfl⟩ : ∃ f, fuel = f + 1 := ⟨fuel - 1, by omega⟩
    have hnewest : t = l := (hr.newest_iff hhead hlist).mpr rfl
    simp only [wakeLoop, hhead, hr.next_eq hhead hlist hprev, Option.bind_eq_bind,
      Option.bind_some, if_pos (hquiet t List.mem_cons_self), if_pos hnewest]
    rfl
  | cons u rest ih =>
    obtain ⟨fuel, rfl⟩ : ∃ f, fuel = f + 1 := ⟨fuel - 1, by omega⟩
    have hnewest : t ≠ l := fun he => by simpa using (hr.newest_iff hhead hlist).mp he
    simp only [wakeLoop, hhead, hr.next_eq hhead hlist hprev, Option.bind_eq_bind,
      Option.bind_some, if_pos (hquiet t List.mem_cons_self), if_neg hnewest]
    have hlist' : L (ptIGetWaitList c) = (seen ++ [t]) ++ u :: rest := by simpa using hlist
    exact ih hlist' (by simp) (fun x hx => hquiet x (List.mem_cons_of_mem t hx))
      (by simpa using hfuel)

/-- One round that finds a thread that waits on the channel moves it. -/
theorem wakeLoop_move {one notify : Bool} (hr : Rings s.lists L)
    (hhead : s.lists.head (ptIGetWaitList c) = some l)
    (hlist : L (ptIGetWaitList c) = seen ++ t :: rest) (hprev : prev = seen.getLastD l)
    (hchan : s.channel t = c) :
    ∃ ls b, (∀ fuel, wakeLoop c one (fuel + 1) prev s notify =
        if one then some ({ s with lists := ls }, b)
        else wakeLoop c one fuel prev { s with lists := ls } b) ∧
      Rings ls (put (put L (ptIGetWaitList c) (seen ++ rest)) .ready (L .ready ++ [t])) := by
  obtain ⟨ls, hunlink, hrings⟩ := rings_unlink hr hhead hlist hprev
  refine ⟨ptILink ls .ready t, notify || (ptILinkReady { s with lists := ls } t).2, ?_, ?_⟩
  · intro fuel
    simp only [wakeLoop, hhead, hr.next_eq hhead hlist hprev, Option.bind_eq_bind,
      Option.bind_some, hchan, ne_eq, not_true_eq_false, if_false, hunlink]
    rfl
  · have hlinked := rings_link hrings (hr.not_mem_put hlist) .ready
    rwa [put, put, Function.update_of_ne (waitList_ne_ready c).symm] at hlinked

/-- A signal moves the first thread that waits on the channel. -/
theorem wakeLoop_one {fuel : ℕ} {notify : Bool} (hr : Rings s.lists L)
    (hhead : s.lists.head (ptIGetWaitList c) = some l)
    (hlist : L (ptIGetWaitList c) = seen ++ t :: rest) (hprev : prev = seen.getLastD l)
    (hfuel : rest.length < fuel) :
    ∃ ls' b, wakeLoop c true fuel prev s notify = some ({ s with lists := ls' }, b) ∧
      Rings ls' (put (put L (ptIGetWaitList c)
          (seen ++ (t :: rest).eraseP fun x => decide (s.channel x = c))) .ready
        (L .ready ++ ((t :: rest).find? fun x => decide (s.channel x = c)).toList)) := by
  induction rest generalizing seen t prev fuel with
  | nil =>
    obtain ⟨fuel, rfl⟩ : ∃ f, fuel = f + 1 := ⟨fuel - 1, by omega⟩
    by_cases hchan : s.channel t = c
    · obtain ⟨ls', b, hstep, hrings⟩ :=
        @wakeLoop_move L l t prev c seen _ s true notify hr hhead hlist hprev hchan
      exact ⟨ls', b, hstep fuel, by simpa [hchan] using hrings⟩
    · refine ⟨s.lists, notify, ?_, ?_⟩
      · refine wakeLoop_quiet hr hhead hlist hprev (fun x hx => ?_) hfuel
        rwa [List.mem_singleton.mp hx]
      · simpa [hchan, ← hlist, put, Function.update_eq_self] using hr
  | cons u rest ih =>
    obtain ⟨fuel, rfl⟩ : ∃ f, fuel = f + 1 := ⟨fuel - 1, by omega⟩
    have hnewest : t ≠ l := fun he => by simpa using (hr.newest_iff hhead hlist).mp he
    by_cases hchan : s.channel t = c
    · obtain ⟨ls', b, hstep, hrings⟩ :=
        @wakeLoop_move L l t prev c seen _ s true notify hr hhead hlist hprev hchan
      exact ⟨ls', b, hstep fuel, by simpa [hchan] using hrings⟩
    · have hstep : wakeLoop c true (fuel + 1) prev s notify = wakeLoop c true fuel t s notify := by
        simp only [wakeLoop, hhead, hr.next_eq hhead hlist hprev, Option.bind_eq_bind,
          Option.bind_some, if_pos hchan, if_neg hnewest]
      rw [hstep]
      have hlist' : L (ptIGetWaitList c) = (seen ++ [t]) ++ u :: rest := by simpa using hlist
      have hprev' : t = (seen ++ [t]).getLastD l := by simp
      have hfuel' : rest.length < fuel := by simpa using hfuel
      obtain ⟨ls', b, hloop, hrings⟩ := ih hlist' hprev' hfuel'
      refine ⟨ls', b, hloop, ?_⟩
      rw [List.eraseP_cons_of_neg (by simpa using hchan),
        List.find?_cons_of_neg (by simpa using hchan)]
      simpa using hrings

/-- A broadcast moves all threads that wait on the channel. -/
theorem wakeLoop_all {fuel : ℕ} {notify : Bool} (hr : Rings s.lists L)
    (hhead : s.lists.head (ptIGetWaitList c) = some l)
    (hlist : L (ptIGetWaitList c) = seen ++ t :: rest) (hprev : prev = seen.getLastD l)
    (hseen : ∀ x ∈ seen, s.channel x ≠ c) (hfuel : 2 * (rest.length + 1) + seen.length ≤ fuel) :
    ∃ ls' b, wakeLoop c false fuel prev s notify = some ({ s with lists := ls' }, b) ∧
      Rings ls' (put (put L (ptIGetWaitList c)
          (seen ++ (t :: rest).filter fun x => decide (s.channel x ≠ c))) .ready
        (L .ready ++ (t :: rest).filter fun x => decide (s.channel x = c))) := by
  induction rest generalizing seen t prev fuel s L l notify with
  | nil =>
    obtain ⟨fuel, rfl⟩ : ∃ f, fuel = f + 1 := ⟨fuel - 1, by omega⟩
    by_cases hchan : s.channel t = c
    · obtain ⟨ls', b, hstep, hrings⟩ :=
        @wakeLoop_move L l t prev c seen _ s false notify hr hhead hlist hprev hchan
      rw [hstep fuel, if_neg Bool.false_ne_true]
      refine ⟨ls', b, ?_, by simpa [hchan] using hrings⟩
      rw [List.append_nil] at hrings
      -- the newest was moved, so what was seen is gone through once more
      cases seen with
      | nil =>
        have hempty : (ls').head (ptIGetWaitList c) = none := by
          rw [hrings.head_eq_none, put, Function.update_of_ne (waitList_ne_ready c)]
          simp
        obtain ⟨fuel, rfl⟩ : ∃ f, fuel = f + 1 := ⟨fuel - 1, by simp at hfuel; omega⟩
        simp [wakeLoop, hempty]
      | cons u seen =>
        have hlist' : put (put L (ptIGetWaitList c) (u :: seen)) .ready (L .ready ++ [t])
            (ptIGetWaitList c) = [] ++ u :: seen := by
          rw [put, Function.update_of_ne (waitList_ne_ready c)]
          simp
        have hhead' : (ls').head (ptIGetWaitList c) = some prev := by
          rw [hrings.head_eq, hlist', hprev]
          simp [List.getLast?_cons, List.getLastD_eq_getLast?]
        refine @wakeLoop_quiet _ prev u prev c [] seen { s with lists := ls' } fuel false b hrings
          hhead' hlist' rfl (fun x hx => hseen x hx) ?_
        simp at hfuel
        omega
    · refine ⟨s.lists, notify, ?_, ?_⟩
      · refine wakeLoop_quiet hr hhead hlist hprev (fun x hx => ?_) (by simp at hfuel ⊢)
        rwa [List.mem_singleton.mp hx]
      · simpa [hchan, ← hlist, put, Function.update_eq_self] using hr
  | cons u rest ih =>
    obtain ⟨fuel, rfl⟩ : ∃ f, fuel = f + 1 := ⟨fuel - 1, by omega⟩
    have hnewest : t ≠ l := fun he => by simpa using (hr.newest_iff hhead hlist).mp he
    rw [List.length_cons] at hfuel
    by_cases hchan : s.channel t = c
    · obtain ⟨ls', b, hstep, hrings⟩ :=
        @wakeLoop_move L l t prev c seen _ s false notify hr hhead hlist hprev hchan
      rw [hstep fuel, if_neg Bool.false_ne_true]
      have hlist' : put (put L (ptIGetWaitList c) (seen ++ u :: rest)) .ready (L .ready ++ [t])
          (ptIGetWaitList c) = seen ++ u :: rest := by
        rw [put, Function.update_of_ne (waitList_ne_ready c)]
        simp
      have hhead' : (ls').head (ptIGetWaitList c) = some l := by
        rw [hrings.head_eq, hlist', ← hhead, hr.head_eq, hlist]
        simp [List.getLast?_append, List.getLast?_cons]
      obtain ⟨ls'', b', hloop, hrings'⟩ :=
        @ih _ l u prev seen { s with lists := ls' } fuel b hrings hhead' hlist' hprev hseen
          (by omega)
      refine ⟨ls'', b', hloop, ?_⟩
      rw [put_comm (waitList_ne_ready c), put_put, put_comm (waitList_ne_ready c).symm,
        put_put] at hrings'
      simpa [hchan, put_comm (waitList_ne_ready c)] using hrings'
    · have hstep : wakeLoop c false (fuel + 1) prev s notify =
          wakeLoop c false fuel t s notify := by
        simp only [wakeLoop, hhead, hr.next_eq hhead hlist hprev, Option.bind_eq_bind,
          Option.bind_some, if_pos hchan, if_neg hnewest]
      rw [hstep]
      have hseen' : ∀ x ∈ seen ++ [t], s.channel x ≠ c := by
        intro x hx
        rcases List.mem_append.mp hx with hx | hx
        · exact hseen x hx
        · rwa [List.mem_singleton.mp hx]
      have hlist' : L (ptIGetWaitList c) = (seen ++ [t]) ++ u :: rest := by simpa using hlist
      have hfuel' : 2 * (rest.length + 1) + (seen ++ [t]).length ≤ fuel := by
        rw [List.length_append, List.length_singleton]
        omega
      have hprev' : t = (seen ++ [t]).getLastD l := by simp
      obtain ⟨ls', b, hloop, hrings⟩ := ih hr hhead hlist' hprev' hseen' hfuel'
      exact ⟨ls', b, hloop, by simpa [hchan] using hrings⟩

end MoonFlare.Pt
