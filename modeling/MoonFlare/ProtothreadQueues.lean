import MoonFlare.ProtothreadLists

/-!
# The scheduler keeps its queues

The lists through the threads' links are the queues of a scheduler that knows
nothing of links and hashes: the ready list is its queue, and what waits on a
channel stands in the bucket of that channel in the order in which it began to
wait. Every call does to the links what it does to the queues, so no call
follows a null pointer, goes round a list for ever, or loses a thread.
-/

namespace MoonFlare.Pt

open Channels Circular Runs

/-- What each list holds of the queues. -/
def listsOf (q : Sched Addr Addr) : Head → List Addr
  | .ready => q.ready
  | .wait i => (q.waiting.filter fun p => ptIGetWaitList p.2 = .wait i).map Prod.fst

/-- The links, the fields of the threads and the queues say the same. -/
structure Represents (s : Protothread) (q : Sched Addr Addr) : Prop where
  rings : Rings s.lists (listsOf q)
  running : s.running = q.running
  channel : ∀ p ∈ q.waiting, s.channel p.1 = p.2
  /-- `pt_is_alive`. -/
  alive : ∀ t, s.func t = true ↔ t ∈ q.members
  distinct : q.members.Nodup
  started : s.started = q.started
  count : q.members.length ≤ s.created

variable {s : Protothread} {q : Sched Addr Addr} {t c : Addr}

theorem listsOf_waitList (q : Sched Addr Addr) (c : Addr) : listsOf q (ptIGetWaitList c) =
    (q.waiting.filter fun p => ptIGetWaitList p.2 = ptIGetWaitList c).map Prod.fst := rfl

/-- A thread in a list is scheduled, and does not run. -/
theorem mem_of_mem_listsOf {h : Head} (ht : t ∈ listsOf q h) :
    t ∈ q.ready ++ q.waiting.map Prod.fst := by
  cases h with
  | ready => exact List.mem_append_left _ ht
  | wait i =>
    obtain ⟨p, hp, rfl⟩ := List.mem_map.mp ht
    exact List.mem_append_right _ (List.mem_map_of_mem (List.mem_of_mem_filter hp))

theorem mem_members :
    t ∈ q.members ↔ q.running = some t ∨ t ∈ q.ready ++ q.waiting.map Prod.fst := by
  rw [Sched.members, List.mem_append, Option.mem_toList]

theorem not_mem_listsOf (ht : t ∉ q.members) (h : Head) : t ∉ listsOf q h :=
  fun hmem => ht (mem_members.mpr (Or.inr (mem_of_mem_listsOf hmem)))

theorem Represents.running_out (hq : Represents s q) (hrun : q.running = some t) (h : Head) :
    t ∉ listsOf q h := by
  intro hmem
  have hdistinct := hq.distinct
  rw [Sched.members, hrun] at hdistinct
  exact (List.nodup_cons.mp hdistinct).1 (mem_of_mem_listsOf hmem)

theorem length_listsOf_le (q : Sched Addr Addr) (h : Head) :
    (listsOf q h).length ≤ q.members.length := by
  have hfilter (p : Addr × Addr → Bool) := List.length_filter_le p q.waiting
  cases h with
  | ready =>
    simp only [listsOf, Sched.members, List.length_append]
    omega
  | wait i =>
    have hwait := hfilter fun p => decide (ptIGetWaitList p.2 = .wait i)
    simp only [listsOf, Sched.members, List.length_append, List.length_map]
    omega

/-- Nothing but the queues is in question. -/
theorem Represents.notify (hq : Represents s q) (b : Bool) : Represents (notifyIf (s, b)) q := by
  cases b with
  | false => exact hq
  | true => exact ⟨hq.rings, hq.running, hq.channel, hq.alive, hq.distinct, hq.started, hq.count⟩

/-- What the library says of the step, and what is left to say of the links. -/
theorem Represents.of_step {s' : Protothread} (hq : Represents s q) (a : Act Addr Addr)
    (hok : Allowed q a) (hrings : Rings s'.lists (listsOf (Channels.step id q a)))
    (hrunning : s'.running = (Channels.step id q a).running)
    (hchannel : ∀ p ∈ (Channels.step id q a).waiting, s'.channel p.1 = p.2)
    (halive : ∀ t, s'.func t = true ↔ t ∈ (Channels.step id q a).members)
    (hstarted : s'.started = (Channels.step id q a).started)
    (hmade : s'.made = s.made ++ a.new) : Represents s' (Channels.step id q a) := by
  refine ⟨hrings, hrunning, hchannel, halive, step_nodup hq.distinct a hok, hstarted, ?_⟩
  rw [Protothread.created, hmade, List.length_append, Nat.add_comm]
  exact (length_step id q a).trans (Nat.add_le_add_left hq.count _)

/-! ## Wakening -/

theorem filter_channel (hq : Represents s q) (p : Addr → Bool) (r : Addr × Addr → Bool) :
    ((q.waiting.filter r).map Prod.fst).filter (fun x => p (s.channel x)) =
      (q.waiting.filter fun w => r w && p w.2).map Prod.fst := by
  rw [List.filter_map, List.filter_filter]
  refine congrArg (List.map Prod.fst) (List.filter_congr fun w hw => ?_)
  simp [hq.channel w hw, Bool.and_comm]

/-- A wakening takes threads out of one bucket only. -/
theorem listsOf_wake (hq : Represents s q) (c : Addr) : listsOf (q.wake c) =
    put (put (listsOf q) (ptIGetWaitList c)
        ((listsOf q (ptIGetWaitList c)).filter fun x => decide (s.channel x ≠ c))) .ready
      (q.ready ++ (listsOf q (ptIGetWaitList c)).filter fun x => decide (s.channel x = c)) := by
  funext h
  cases h with
  | ready =>
    rw [put, Function.update_self, listsOf_waitList,
      filter_channel hq fun x => decide (x = c)]
    change q.ready ++ (q.waiting.filter fun w => decide (w.2 = c)).map Prod.fst = _
    refine congrArg (fun xs : List (Addr × Addr) => q.ready ++ xs.map Prod.fst)
      (List.filter_congr fun w _ => ?_)
    by_cases hw : w.2 = c <;> simp [hw]
  | wait i =>
    have hwait : Head.wait i ≠ .ready := by simp
    rw [put, Function.update_of_ne hwait]
    by_cases hi : Head.wait i = ptIGetWaitList c
    · rw [hi, put, Function.update_self, listsOf_waitList, listsOf_waitList,
        filter_channel hq fun x => decide (x ≠ c)]
      simp only [Sched.wake, List.filter_filter]
    · rw [put, Function.update_of_ne hi]
      simp only [listsOf, Sched.wake, List.filter_filter]
      refine congrArg (List.map Prod.fst) (List.filter_congr fun w _ => ?_)
      by_cases hw : w.2 = c
      · have hbucket : ptIGetWaitList w.2 ≠ .wait i := fun he => hi (by rw [← he, hw])
        simp [hbucket]
      · simp [hw]

theorem mem_wake : t ∈ (q.wake c).members ↔ t ∈ q.members := (wake_perm q c).mem_iff

/-- Nothing waits in the bucket, so nothing changes. -/
theorem listsOf_same (hlist : listsOf q (ptIGetWaitList c) = []) :
    put (put (listsOf q) (ptIGetWaitList c) []) .ready (q.ready ++ []) = listsOf q := by
  rw [← hlist, put, put, Function.update_eq_self, hlist, List.append_nil]
  exact Function.update_eq_self Head.ready (listsOf q)

/-- `pt_i_wake` for all who wait on the channel. -/
theorem wake_all (hq : Represents s q) (c : Addr) :
    ∃ s', ptIWake s c false = some s' ∧ Represents s' (q.wake c) := by
  have hrep : ∀ ls, Rings ls (listsOf (q.wake c)) →
      Represents { s with lists := ls } (q.wake c) := fun ls hrings =>
    hq.of_step (.broadcast c) trivial hrings hq.running
      (fun p hp => hq.channel p (List.mem_of_mem_filter hp))
      (fun t => (hq.alive t).trans mem_wake.symm) hq.started (by simp [Act.new])
  cases hlist : listsOf q (ptIGetWaitList c) with
  | nil =>
    refine ⟨s, ?_, hrep s.lists ?_⟩
    · simp [ptIWake, (hq.rings.head_eq_none _).mpr hlist]
    · rw [listsOf_wake hq, hlist, List.filter_nil, List.filter_nil, listsOf_same hlist]
      exact hq.rings
  | cons t rest =>
    have hsplit : listsOf q (ptIGetWaitList c) = [] ++ t :: rest := hlist
    obtain ⟨l, hhead⟩ := hq.rings.exists_head hsplit
    have hlen := (length_listsOf_le q (ptIGetWaitList c)).trans hq.count
    rw [hlist, List.length_cons] at hlen
    have hfuel : 2 * (rest.length + 1) + ([] : List Addr).length ≤ 2 * s.created + 2 := by
      rw [List.length_nil]
      omega
    obtain ⟨ls, b, hloop, hrings⟩ := @wakeLoop_all _ l t l c [] rest s _ false hq.rings
      hhead hsplit rfl (fun x hx => nomatch hx) hfuel
    refine ⟨notifyIf ({ s with lists := ls }, b), ?_, ?_⟩
    · rw [ptIWake, hhead]
      exact congrArg (Option.map notifyIf) hloop
    · refine (hrep ls ?_).notify b
      rw [listsOf_wake hq, hlist]
      exact hrings

section Erasing

variable {α : Type*} {p p' r : α → Bool}

/-- What is erased passes the filter, so the filter may come first. -/
theorem filter_eraseP (xs : List α) (h : ∀ x ∈ xs, p x = (r x && p' x)) :
    (xs.eraseP p).filter r = (xs.filter r).eraseP p' := by
  induction xs with
  | nil => rfl
  | cons x xs ih =>
    have htail := ih fun y hy => h y (List.mem_cons_of_mem x hy)
    have hhead := h x List.mem_cons_self
    cases hp : p' x <;> cases hr : r x <;> simp_all

/-- The first match is dropped by the filter. -/
theorem filter_eraseP_of_not (xs : List α) (h : ∀ x ∈ xs, p x → r x = false) :
    (xs.eraseP p).filter r = xs.filter r := by
  induction xs with
  | nil => rfl
  | cons x xs ih =>
    have htail := ih fun y hy => h y (List.mem_cons_of_mem x hy)
    have hhead := h x List.mem_cons_self
    cases hp : p x <;> cases hr : r x <;> simp_all

end Erasing

/-- A signal takes one thread out of one bucket. -/
theorem listsOf_wakeOne (hq : Represents s q) (c : Addr) : listsOf (q.wakeOne c) =
    put (put (listsOf q) (ptIGetWaitList c)
        ((listsOf q (ptIGetWaitList c)).eraseP fun x => decide (s.channel x = c))) .ready
      (q.ready ++
        ((listsOf q (ptIGetWaitList c)).find? fun x => decide (s.channel x = c)).toList) := by
  funext h
  cases h with
  | ready =>
    rw [put, Function.update_self, listsOf_waitList, List.find?_map, List.find?_filter]
    change q.ready ++ ((q.waiting.find? fun w => decide (w.2 = c)).map Prod.fst).toList = _
    refine congrArg (fun x : Option (Addr × Addr) => q.ready ++ (x.map Prod.fst).toList) ?_
    refine List.find?_congr fun w hw => ?_
    by_cases hwc : w.2 = c <;> simp [hq.channel w hw, hwc]
  | wait i =>
    have hwait : Head.wait i ≠ .ready := by simp
    rw [put, Function.update_of_ne hwait]
    by_cases hi : Head.wait i = ptIGetWaitList c
    · rw [hi, put, Function.update_self, listsOf_waitList, listsOf_waitList, List.eraseP_map]
      refine congrArg (List.map Prod.fst) (filter_eraseP q.waiting fun w hw => ?_)
      by_cases hwc : w.2 = c <;> simp [hq.channel w hw, hwc]
    · rw [put, Function.update_of_ne hi]
      refine congrArg (List.map Prod.fst) (filter_eraseP_of_not q.waiting fun w _ hw => ?_)
      have hwc : w.2 = c := of_decide_eq_true hw
      exact decide_eq_false fun he => hi (by rw [← he, hwc])

/-- `pt_signal`. -/
theorem wake_one (hq : Represents s q) (c : Addr) :
    ∃ s', ptSignal s c = some s' ∧ Represents s' (q.wakeOne c) := by
  have hrep : ∀ ls, Rings ls (listsOf (q.wakeOne c)) →
      Represents { s with lists := ls } (q.wakeOne c) := fun ls hrings =>
    hq.of_step (.signal c) trivial hrings hq.running
      (fun p hp => hq.channel p (List.mem_of_mem_eraseP hp))
      (fun t => (hq.alive t).trans (wakeOne_perm q c).mem_iff.symm) hq.started (by simp [Act.new])
  cases hlist : listsOf q (ptIGetWaitList c) with
  | nil =>
    refine ⟨s, ?_, hrep s.lists ?_⟩
    · simp [ptSignal, ptIWake, (hq.rings.head_eq_none _).mpr hlist]
    · rw [listsOf_wakeOne hq, hlist, List.find?_nil, List.eraseP_nil, Option.toList_none,
        listsOf_same hlist]
      exact hq.rings
  | cons t rest =>
    have hsplit : listsOf q (ptIGetWaitList c) = [] ++ t :: rest := hlist
    obtain ⟨l, hhead⟩ := hq.rings.exists_head hsplit
    have hlen := (length_listsOf_le q (ptIGetWaitList c)).trans hq.count
    rw [hlist, List.length_cons] at hlen
    have hfuel : rest.length < 2 * s.created + 2 := by omega
    obtain ⟨ls, b, hloop, hrings⟩ := @wakeLoop_one _ l t l c [] rest s _ false hq.rings
      hhead hsplit rfl hfuel
    refine ⟨notifyIf ({ s with lists := ls }, b), ?_, ?_⟩
    · rw [ptSignal, ptIWake, hhead]
      exact congrArg (Option.map notifyIf) hloop
    · refine (hrep ls ?_).notify b
      rw [listsOf_wakeOne hq, hlist]
      exact hrings

/-! ## Taking a thread out -/

/-- A thread is gone: it is not scheduled, and not alive. -/
theorem Represents.without {s' : Protothread} {q' : Sched Addr Addr} (hq : Represents s q)
    (hrings : Rings s'.lists (listsOf q')) (hrunning : s'.running = q'.running)
    (hwaiting : q'.waiting ⊆ q.waiting) (hchannel : s'.channel = s.channel)
    (hfunc : s'.func = Function.update s.func t false) (hmembers : q'.members = q.members.erase t)
    (hstarted : s'.started = q'.started) (hmade : s'.made = s.made) :
    Represents s' q' := by
  refine ⟨hrings, hrunning, ?_, ?_, ?_, hstarted, ?_⟩
  · intro p hp
    rw [hchannel]
    exact hq.channel p (hwaiting hp)
  · intro u
    rw [hfunc, hmembers, hq.distinct.mem_erase_iff]
    by_cases hu : u = t
    · simp [hu]
    · rw [Function.update_of_ne hu, hq.alive u]
      exact ⟨fun h => ⟨hu, h⟩, And.right⟩
  · rw [hmembers]
    exact hq.distinct.erase t
  · rw [hmembers, Protothread.created, hmade]
    exact (List.length_erase_le).trans hq.count

/-- Where a thread waits. -/
theorem mem_waiting_iff (hq : Represents s q) (t : Addr) :
    t ∈ q.waiting.map Prod.fst ↔ t ∈ listsOf q (ptIGetWaitList (s.channel t)) := by
  constructor
  · intro ht
    obtain ⟨p, hp, rfl⟩ := List.mem_map.mp ht
    rw [hq.channel p hp, listsOf_waitList]
    exact List.mem_map_of_mem (List.mem_filter.mpr ⟨hp, decide_eq_true rfl⟩)
  · intro ht
    rw [listsOf_waitList] at ht
    obtain ⟨p, hp, rfl⟩ := List.mem_map.mp ht
    exact List.mem_map_of_mem (List.mem_of_mem_filter hp)

theorem listsOf_ready (q : Sched Addr Addr) (xs : List Addr) :
    listsOf { q with ready := xs } = put (listsOf q) .ready xs := by
  funext h
  cases h with
  | ready =>
    rw [put, Function.update_self]
    rfl
  | wait i =>
    have hwait : Head.wait i ≠ .ready := by simp
    rw [put, Function.update_of_ne hwait]
    rfl

/-- A thread that is taken out of the waiting ones leaves one bucket. -/
theorem listsOf_waiting (hq : Represents s q) (t : Addr) :
    listsOf { q with waiting := q.waiting.eraseP (·.1 = t) } =
      put (listsOf q) (ptIGetWaitList (s.channel t))
        ((listsOf q (ptIGetWaitList (s.channel t))).erase t) := by
  funext h
  by_cases hh : h = ptIGetWaitList (s.channel t)
  · rw [hh, put, Function.update_self, listsOf_waitList, listsOf_waitList,
      List.erase_eq_eraseP', List.eraseP_map]
    refine congrArg (List.map Prod.fst) (filter_eraseP q.waiting fun w hw => ?_)
    by_cases hwt : w.1 = t
    · simp [← hwt, hq.channel w hw]
    · simp [hwt]
  · rw [put, Function.update_of_ne hh]
    cases h with
    | ready => rfl
    | wait i =>
      refine congrArg (List.map Prod.fst) (filter_eraseP_of_not q.waiting fun w hw hwt => ?_)
      have hwt' : w.1 = t := of_decide_eq_true hwt
      refine decide_eq_false fun he => hh ?_
      rw [← he, ← hwt', hq.channel w hw]

/-- `pt_kill`. -/
theorem kill_spec (hq : Represents s q) (hrun : q.running ≠ some t) :
    ∃ s', ptKill s t = some s' ∧ Represents s' (q.kill id t) := by
  have hidle : s.running ≠ some t := hq.running ▸ hrun
  have hrun' : t ∉ q.running.toList := fun h => hrun (Option.mem_toList.mp h)
  have hfuel (h : Head) : (listsOf q h).length ≤ s.created + 1 :=
    ((length_listsOf_le q h).trans hq.count).trans (Nat.le_succ _)
  obtain ⟨ls, hfind, hrings⟩ := findAndUnlink_spec hq.rings .ready t (hfuel .ready)
  by_cases hready : t ∈ q.ready
  · have hfound : t ∈ listsOf q .ready := hready
    have hgone : Represents { s with lists := ls, func := Function.update s.func t false }
        { q with ready := q.ready.erase t } := by
      refine hq.without ?_ hq.running (List.Subset.refl _) rfl rfl ?_ hq.started rfl
      · rw [listsOf_ready]
        exact hrings
      · simp [Sched.members, List.erase_append_right _ hrun', List.erase_append_left _ hready]
    obtain ⟨s', hwake, hs'⟩ := wake_all hgone t
    refine ⟨s', ?_, ?_⟩
    · simp [ptKill, hidle, hfind, hfound, hwake]
    · rw [Sched.kill, if_pos hready]
      exact hs'
  · have hfound : t ∉ listsOf q .ready := hready
    have hsame : put (listsOf q) .ready ((listsOf q .ready).erase t) = listsOf q := by
      rw [List.erase_of_not_mem hfound, put, Function.update_eq_self]
    rw [hsame] at hrings
    obtain ⟨ls', hfind', hrings'⟩ := findAndUnlink_spec hrings (ptIGetWaitList (s.channel t)) t
      (hfuel _)
    have hwhere := mem_waiting_iff hq t
    by_cases hwait : t ∈ q.waiting.map Prod.fst
    · have hfound' := hwhere.mp hwait
      have hgone : Represents { s with lists := ls', func := Function.update s.func t false }
          { q with waiting := q.waiting.eraseP (·.1 = t) } := by
        refine hq.without ?_ hq.running (List.eraseP_subset) rfl rfl ?_ hq.started rfl
        · rw [listsOf_waiting hq]
          exact hrings'
        · rw [Sched.members, Sched.members, List.erase_append_right _ hrun',
            List.erase_append_right _ hready, List.erase_eq_eraseP', List.eraseP_map]
          rfl
      obtain ⟨s', hwake, hs'⟩ := wake_all hgone t
      refine ⟨s', ?_, ?_⟩
      · simp [ptKill, hidle, hfind, hfound, hfind', hfound', hwake]
      · rw [Sched.kill, if_neg hready, if_pos hwait]
        exact hs'
    · have hfound' : t ∉ listsOf q (ptIGetWaitList (s.channel t)) := fun h => hwait (hwhere.mpr h)
      rw [List.erase_of_not_mem hfound', put, Function.update_eq_self] at hrings'
      refine ⟨{ s with lists := ls' }, ?_, ?_⟩
      · simp [ptKill, hidle, hfind, hfound, hfind', hfound']
      · rw [Sched.kill, if_neg hready, if_neg hwait]
        exact ⟨hrings', hq.running, hq.channel, hq.alive, hq.distinct, hq.started, hq.count⟩

/-! ## The other calls -/

@[simp] theorem notifyIf_fields (r : Protothread × Bool) :
    (notifyIf r).lists = r.1.lists ∧ (notifyIf r).func = r.1.func ∧
      (notifyIf r).channel = r.1.channel ∧ (notifyIf r).running = r.1.running ∧
      (notifyIf r).started = r.1.started ∧ (notifyIf r).made = r.1.made := by
  unfold notifyIf
  split <;> simp

/-- A thread in no list may be given another link. -/
theorem Rings.congr_next {ls : Lists} {L : Head → List Addr} (hr : Rings ls L)
    (hout : ∀ h, t ∉ L h) (x : Option Addr) : Rings ⟨Function.update ls.next t x, ls.head⟩ L :=
  ⟨fun h => (hr.circle h).congr fun _ hy =>
      Function.update_of_ne (ne_of_mem_of_not_mem hy (hout h)) _ _,
    hr.apart⟩

/-- `pt_create`. -/
theorem create_spec (hq : Represents s q) (hnew : t ∉ q.members) :
    Represents (ptICreateThread s t) (Channels.step id q (.create t)) := by
  have hout := not_mem_listsOf hnew
  have hrings := rings_link (hq.rings.congr_next hout none) hout .ready
  refine hq.of_step (.create t) hnew ?_ ?_ ?_ ?_ ?_ ?_
  · rw [Channels.step, listsOf_ready, ptICreateThread, ptIAddReady, (notifyIf_fields _).1]
    exact hrings
  · rw [ptICreateThread, ptIAddReady, (notifyIf_fields _).2.2.2.1]
    exact hq.running
  · intro p hp
    have hp' : p.1 ≠ t := by
      rintro rfl
      exact hnew (mem_members.mpr (Or.inr (List.mem_append_right _ (List.mem_map_of_mem hp))))
    simpa [ptICreateThread, ptIAddReady, ptILinkReady, Function.update_of_ne hp']
      using hq.channel p hp
  · intro u
    by_cases hu : u = t
    · simp [hu, ptICreateThread, ptIAddReady, ptILinkReady, Channels.step, Sched.members]
    · simp only [ptICreateThread, ptIAddReady, ptILinkReady, notifyIf_fields,
        Function.update_of_ne hu, hq.alive u]
      simp [Channels.step, Sched.members, hu]
  · rw [ptICreateThread, ptIAddReady, (notifyIf_fields _).2.2.2.2.1]
    exact hq.started
  · simp [ptICreateThread, ptIAddReady, ptILinkReady, Act.new]

/-- `protothread_run`, up to the thread's function. -/
theorem start_spec (hq : Represents s q) (hidle : q.running = none) :
    ∃ s', runBegin s = some s' ∧ Represents s' q.start := by
  have hidle' : s.running = none := hq.running.trans hidle
  cases hready : q.ready with
  | nil =>
    have hhead : s.lists.head .ready = none := (hq.rings.head_eq_none .ready).mpr hready
    refine ⟨s, by simp [runBegin, hidle', hhead], ?_⟩
    have hsame : q.start = q := by simp [Sched.start, hready]
    rwa [hsame]
  | cons t rest =>
    have hsplit : listsOf q .ready = [] ++ t :: rest := hready
    obtain ⟨l, hhead⟩ := hq.rings.exists_head hsplit
    have hprev : l = ([] : List Addr).getLastD l := rfl
    obtain ⟨ls, hunlink, hrings⟩ := rings_unlink hq.rings hhead hsplit hprev
    have hstart : q.start =
        { q with running := some t, ready := rest, started := q.started ++ [t] } := by
      simp [Sched.start, hidle, hready]
    refine ⟨{ s with lists := ls, running := some t, started := s.started ++ [t] }, ?_, ?_⟩
    · simp [runBegin, hidle', hhead, ptIUnlinkOldest, hunlink]
    · refine hq.of_step .start hidle ?_ ?_ ?_ ?_ ?_ ?_
      all_goals simp only [Channels.step, hstart]
      · exact (listsOf_ready q rest) ▸ hrings
      · exact hq.channel
      · intro u
        rw [hq.alive u]
        simp [Sched.members, hidle, hready]
      · rw [hq.started]
      · simp [Act.new]

/-- The running thread is not among those that wait. -/
theorem Represents.ne_of_waiting (hq : Represents s q) (hrun : q.running = some t)
    {p : Addr × Addr} (hp : p ∈ q.waiting) : p.1 ≠ t := by
  rintro rfl
  have hlisted := (mem_waiting_iff hq p.1).mp (List.mem_map_of_mem hp)
  exact hq.running_out hrun _ hlisted

/-- A thread that waits comes last in its bucket. -/
theorem listsOf_block (q : Sched Addr Addr) (t c : Addr) :
    listsOf { q with running := none, waiting := q.waiting ++ [(t, c)] } =
      put (listsOf q) (ptIGetWaitList c) (listsOf q (ptIGetWaitList c) ++ [t]) := by
  funext h
  by_cases hh : h = ptIGetWaitList c
  · rw [hh, put, Function.update_self, listsOf_waitList, listsOf_waitList]
    simp
  · rw [put, Function.update_of_ne hh]
    cases h with
    | ready => rfl
    | wait i => simp [listsOf, Ne.symm hh]

/-- `pt_wait`. -/
theorem block_spec (hq : Represents s q) (hrun : q.running = some t) (c : Addr) :
    ∃ s', runEnd s (.wait c) = some s' ∧ Represents s' (q.block c) := by
  have hrun' : s.running = some t := hq.running.trans hrun
  have hblock : q.block c = { q with running := none, waiting := q.waiting ++ [(t, c)] } := by
    simp [Sched.block, hrun]
  have hrings := rings_link hq.rings (hq.running_out hrun) (ptIGetWaitList c)
  refine ⟨{ s with running := none, channel := Function.update s.channel t c,
                   lists := ptILink s.lists (ptIGetWaitList c) t }, ?_, ?_⟩
  · simp [runEnd, hrun', ptIEnqueueWait]
  refine hq.of_step (.block c) (by simp [Allowed, hrun]) ?_ ?_ ?_ ?_ ?_ ?_
  all_goals simp only [Channels.step, hblock]
  · rw [listsOf_block]
    exact hrings
  · intro p hp
    rcases List.mem_append.mp hp with hp | hp
    · rw [Function.update_of_ne (hq.ne_of_waiting hrun hp), hq.channel p hp]
    · rw [List.mem_singleton.mp hp, Function.update_self]
  · intro u
    rw [hq.alive u]
    simp [Sched.members, hrun, or_comm, or_left_comm]
  · exact hq.started
  · simp [Act.new]

/-- `pt_yield`. -/
theorem yield_spec (hq : Represents s q) (hrun : q.running = some t) :
    ∃ s', runEnd s .yield = some s' ∧ Represents s' q.yield := by
  have hrun' : s.running = some t := hq.running.trans hrun
  have hyield : q.yield = { q with running := none, ready := q.ready ++ [t] } := by
    simp [Sched.yield, hrun]
  have hrings := rings_link hq.rings (hq.running_out hrun) .ready
  refine ⟨{ ptIAddReady s t with running := none }, ?_, ?_⟩
  · simp [runEnd, hrun', ptIEnqueueYield]
  refine hq.of_step .yield (by simp [Allowed, hrun]) ?_ ?_ ?_ ?_ ?_ ?_
  all_goals simp only [Channels.step, hyield, ptIAddReady, notifyIf_fields, ptILinkReady]
  · exact (listsOf_ready q (q.ready ++ [t])) ▸ hrings
  · exact hq.channel
  · intro u
    rw [hq.alive u]
    simp [Sched.members, hrun, or_left_comm]
  · exact hq.started
  · simp [Act.new]

/-- A thread's function returns. -/
theorem exit_spec (hq : Represents s q) (hrun : q.running = some t) :
    ∃ s', runEnd s .done = some s' ∧ Represents s' (q.exit id) := by
  have hrun' : s.running = some t := hq.running.trans hrun
  have hgone : Represents { s with running := none, func := Function.update s.func t false }
      { q with running := none } := by
    refine hq.without hq.rings rfl (List.Subset.refl _) rfl rfl ?_ hq.started rfl
    simp [Sched.members, hrun]
  obtain ⟨s', hwake, hs'⟩ := wake_all hgone t
  refine ⟨s', ?_, ?_⟩
  · rw [← hwake]
    simp only [runEnd, hrun', Option.bind_some]
    -- where the bucket is empty the wakening does nothing either
    split_ifs with hhead
    · rfl
    · simp [ptIWake, not_not.mp hhead]
  · simpa [Sched.exit, hrun] using hs'

/-! ## Whole runs -/

/-- Every call that is allowed ends, and does what the queues say. -/
theorem step_represents (hq : Represents s q) (a : Act Addr Addr) (hok : Allowed q a) :
    ∃ s', step s a = some s' ∧ Represents s' (Channels.step id q a) := by
  have hturn (h : q.running ≠ none) : ∃ t, q.running = some t := Option.ne_none_iff_exists'.mp h
  cases a with
  | create t => exact ⟨_, rfl, create_spec hq hok⟩
  | signal c => exact wake_one hq c
  | broadcast c => exact wake_all hq c
  | kill t => exact kill_spec hq hok
  | start => exact start_spec hq hok
  | block c =>
    obtain ⟨t, hrun⟩ := hturn hok
    exact block_spec hq hrun c
  | yield =>
    obtain ⟨t, hrun⟩ := hturn hok
    exact yield_spec hq hrun
  | exit =>
    obtain ⟨t, hrun⟩ := hturn hok
    exact exit_spec hq hrun

/-- `protothread_init` schedules nothing. -/
theorem represents_init (readyFunction : Bool) :
    Represents (protothreadInit readyFunction) Sched.empty := by
  have hempty : listsOf (Sched.empty : Sched Addr Addr) = fun _ => [] := by
    funext h
    cases h <;> rfl
  refine ⟨?_, rfl, nofun, fun t => ?_, List.nodup_nil, rfl, Nat.le_refl 0⟩
  · rw [hempty]
    exact ⟨fun _ => circle_nil _, nofun⟩
  · simp [protothreadInit, Sched.empty, Sched.members]

theorem run_cons (s : Protothread) (a : Act Addr Addr) (as : List (Act Addr Addr)) :
    run s (a :: as) = (step s a).bind fun s => run s as := rfl

/-- A run of calls that are allowed ends, and does what the queues say. -/
theorem run_represents (hq : Represents s q) (as : List (Act Addr Addr))
    (hok : Along (Channels.step id) Allowed q as) :
    ∃ s', run s as = some s' ∧ Represents s' (Runs.run (Channels.step id) q as) := by
  induction as generalizing s q with
  | nil => exact ⟨s, rfl, hq⟩
  | cons a as ih =>
    obtain ⟨s', hstep, hs'⟩ := step_represents hq a hok.1
    obtain ⟨s'', hrun, hs''⟩ := ih hs' hok.2
    exact ⟨s'', by rw [run_cons, hstep, Option.bind_some, hrun], hs''⟩

end MoonFlare.Pt
