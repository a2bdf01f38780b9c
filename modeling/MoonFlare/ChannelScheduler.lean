import MoonFlare.Runs

/-!
# A cooperative scheduler with channels

One thread runs at a time and gives the turn up by itself: it yields, waits on
a channel, or ends. Threads that can run stand in a queue. A signal moves the
first thread that waits on a channel to the end of the queue, a broadcast all
of them. Who waits for a thread to end waits on the thread's own channel.
Beside the state it is recorded which threads were given a turn.
-/

namespace MoonFlare.Channels

open Runs

variable {τ κ : Type*}

/-- The threads of a scheduler: queues are in order, oldest first. -/
structure Sched (τ κ : Type*) where
  running : Option τ
  ready : List τ
  waiting : List (τ × κ)
  /-- The threads that were given a turn, in order. -/
  started : List τ

/-- Nothing is scheduled. -/
def Sched.empty : Sched τ κ := ⟨none, [], [], []⟩

/-- What happens to a scheduler. -/
inductive Act (τ κ : Type*) where
  | create (t : τ)
  | signal (c : κ)
  | broadcast (c : κ)
  | kill (t : τ)
  | start
  | block (c : κ)
  | yield
  | exit

/-- A thread is to be given the turn. -/
def Act.isStart : Act τ κ → Bool
  | .start => true
  | _ => false

/-- All threads that are scheduled. -/
def Sched.members (s : Sched τ κ) : List τ :=
  s.running.toList ++ (s.ready ++ s.waiting.map Prod.fst)

/-- The first thread that can run is given the turn. -/
def Sched.start (s : Sched τ κ) : Sched τ κ :=
  match s.running, s.ready with
  | none, t :: ts => { s with running := some t, ready := ts, started := s.started ++ [t] }
  | _, _ => s

/-- The running thread waits. -/
def Sched.block (s : Sched τ κ) (c : κ) : Sched τ κ :=
  match s.running with
  | some t => { s with running := none, waiting := s.waiting ++ [(t, c)] }
  | none => s

/-- The running thread goes to the end of the queue. -/
def Sched.yield (s : Sched τ κ) : Sched τ κ :=
  match s.running with
  | some t => { s with running := none, ready := s.ready ++ [t] }
  | none => s

/-- What may happen: only threads that are not scheduled are created, the running thread is
not killed, and one thread runs at a time. -/
def Allowed (s : Sched τ κ) : Act τ κ → Prop
  | .create t => t ∉ s.members
  | .kill t => s.running ≠ some t
  | .start => s.running = none
  | .block _ | .yield | .exit => s.running ≠ none
  | .signal _ | .broadcast _ => True

section Wake

variable [DecidableEq κ]

/-- All threads that wait on a channel can run again. -/
def Sched.wake (s : Sched τ κ) (c : κ) : Sched τ κ :=
  { s with
    ready := s.ready ++ (s.waiting.filter (·.2 = c)).map Prod.fst
    waiting := s.waiting.filter (·.2 ≠ c) }

/-- The thread that has waited on a channel for longest can run again. -/
def Sched.wakeOne (s : Sched τ κ) (c : κ) : Sched τ κ :=
  { s with
    ready := s.ready ++ ((s.waiting.find? (·.2 = c)).map Prod.fst).toList
    waiting := s.waiting.eraseP (·.2 = c) }

/-- The running thread ends, and who waits for that can run again. -/
def Sched.exit (self : τ → κ) (s : Sched τ κ) : Sched τ κ :=
  match s.running with
  | some t => { s with running := none }.wake (self t)
  | none => s

end Wake

section Step

variable [DecidableEq τ] [DecidableEq κ]

/-- A thread that does not run is taken out, and who waits for its end can run again. -/
def Sched.kill (self : τ → κ) (s : Sched τ κ) (t : τ) : Sched τ κ :=
  if t ∈ s.ready then { s with ready := s.ready.erase t }.wake (self t)
  else if t ∈ s.waiting.map Prod.fst then
    { s with waiting := s.waiting.eraseP (·.1 = t) }.wake (self t)
  else s

/-- One thing that happens. -/
def step (self : τ → κ) (s : Sched τ κ) : Act τ κ → Sched τ κ
  | .create t => { s with ready := s.ready ++ [t] }
  | .signal c => s.wakeOne c
  | .broadcast c => s.wake c
  | .kill t => s.kill self t
  | .start => s.start
  | .block c => s.block c
  | .yield => s.yield
  | .exit => s.exit self

end Step

variable {self : τ → κ} {s : Sched τ κ} {t : τ} {c : κ}

/-! ## What one step does to the queue and to the turns -/

/-- Where a thread stands in the queue: behind some of these others, in their order. -/
def Behind (s : Sched τ κ) (t : τ) (others : List τ) : Prop :=
  ∃ pre post, s.ready = pre ++ t :: post ∧ pre.Sublist others

theorem Behind.more {s' : Sched τ κ} {others : List τ} (h : Behind s t others)
    (hmore : ∃ new, s'.ready = s.ready ++ new) : Behind s' t others := by
  obtain ⟨pre, post, hready, hsub⟩ := h
  obtain ⟨new, hnew⟩ := hmore
  exact ⟨pre, post ++ new, by simp [hnew, hready], hsub⟩

@[simp] theorem started_block (c : κ) : (s.block c).started = s.started := by
  unfold Sched.block
  split <;> rfl

@[simp] theorem started_yield : s.yield.started = s.started := by
  unfold Sched.yield
  split <;> rfl

theorem started_start : s.started <+: s.start.started := by
  unfold Sched.start
  split
  · exact List.prefix_append _ _
  · exact List.prefix_rfl

theorem ready_block (c : κ) : (s.block c).ready = s.ready := by
  unfold Sched.block
  split <;> rfl

theorem ready_yield : ∃ new, s.yield.ready = s.ready ++ new := by
  unfold Sched.yield
  split
  · exact ⟨_, rfl⟩
  · exact ⟨[], (List.append_nil _).symm⟩

section Wake

variable [DecidableEq κ]

theorem wake_perm (s : Sched τ κ) (c : κ) : (s.wake c).members.Perm s.members := by
  refine List.Perm.append_left _ ?_
  change (s.ready ++ _ ++ _).Perm _
  rw [List.append_assoc, ← List.map_append]
  refine List.Perm.append_left _ (List.Perm.map _ ?_)
  simpa [Sched.wake] using List.filter_append_perm (fun p : τ × κ => decide (p.2 = c)) s.waiting

theorem wakeOne_perm (s : Sched τ κ) (c : κ) : (s.wakeOne c).members.Perm s.members := by
  refine List.Perm.append_left _ ?_
  change (s.ready ++ _ ++ _).Perm _
  rw [List.append_assoc]
  refine List.Perm.append_left _ ?_
  change (((s.waiting.find? (·.2 = c)).map Prod.fst).toList ++
    (s.waiting.eraseP (·.2 = c)).map Prod.fst).Perm _
  cases hfind : s.waiting.find? (·.2 = c) with
  | none =>
    rw [List.eraseP_of_forall_not (fun p hp => by simpa using List.find?_eq_none.mp hfind p hp)]
    simp
  | some p =>
    obtain ⟨hp, as, bs, hsplit, hout⟩ := List.find?_eq_some_iff_append.mp hfind
    rw [hsplit, List.eraseP_append_right _ (fun a ha => by simpa using hout a ha),
      List.eraseP_cons_of_pos (by simpa using hp)]
    simpa using (List.perm_middle (a := p.1)).symm

@[simp] theorem started_exit : (s.exit self).started = s.started := by
  unfold Sched.exit
  split <;> rfl

theorem ready_exit : ∃ new, (s.exit self).ready = s.ready ++ new := by
  unfold Sched.exit
  split
  · exact ⟨_, rfl⟩
  · exact ⟨[], (List.append_nil _).symm⟩

end Wake

variable [DecidableEq τ]

/-- Taking another thread out of the queue brings nobody further back. -/
theorem Behind.erase {u : τ} {others : List τ} (h : Behind s t others) (hne : u ≠ t) :
    Behind { s with ready := s.ready.erase u } t others := by
  obtain ⟨pre, post, hready, hsub⟩ := h
  by_cases hmem : u ∈ pre
  · refine ⟨pre.erase u, post, ?_, ?_⟩
    · change s.ready.erase u = _
      rw [hready, List.erase_append_left _ hmem]
    · exact List.erase_sublist.trans hsub
  · refine ⟨pre, post.erase u, ?_, hsub⟩
    change s.ready.erase u = _
    rw [hready, List.erase_append_right _ hmem, List.erase_cons_tail (by simpa using hne.symm)]

variable [DecidableEq κ]

theorem Behind.kill {u : τ} {others : List τ} (h : Behind s t others) (hne : u ≠ t) :
    Behind (s.kill self u) t others := by
  unfold Sched.kill
  split_ifs
  · exact (h.erase hne).more ⟨_, rfl⟩
  · exact h.more ⟨_, rfl⟩
  · exact h

@[simp] theorem started_kill (u : τ) : (s.kill self u).started = s.started := by
  unfold Sched.kill
  split_ifs <;> rfl

/-- The threads that were given a turn are recorded for good. -/
theorem started_step (a : Act τ κ) : s.started <+: (step self s a).started := by
  cases a with
  | start => exact started_start
  | _ => simp [step, Sched.wake, Sched.wakeOne]

theorem started_run (as : List (Act τ κ)) (s : Sched τ κ) :
    s.started <+: (run (step self) s as).started := by
  induction as generalizing s with
  | nil => exact List.prefix_rfl
  | cons a as ih => exact (started_step a).trans (ih (step self s a))

/-! ## No thread is scheduled twice -/

theorem kill_perm (self : τ → κ) (s : Sched τ κ) (t : τ) :
    ∃ ms, (s.kill self t).members.Perm ms ∧ ms.Sublist s.members := by
  unfold Sched.kill
  split_ifs with hready hwait
  · exact ⟨_, wake_perm _ _, (List.Sublist.refl _).append (List.erase_sublist.append
      (List.Sublist.refl _))⟩
  · exact ⟨_, wake_perm _ _, (List.Sublist.refl _).append ((List.Sublist.refl _).append
      (List.eraseP_sublist.map _))⟩
  · exact ⟨_, List.Perm.refl _, List.Sublist.refl _⟩

/-- The thread that is new. -/
def Act.new : Act τ κ → List τ
  | .create t => [t]
  | _ => []

/-- A step schedules the new thread, moves others, and may take some out. -/
theorem step_perm (self : τ → κ) (s : Sched τ κ) (a : Act τ κ) :
    ∃ ms, (step self s a).members.Perm ms ∧ ms.Sublist (a.new ++ s.members) := by
  cases a with
  | create t =>
    refine ⟨t :: s.members, ?_, List.Sublist.refl _⟩
    simp only [step, Sched.members, List.append_assoc, List.singleton_append]
    rw [← List.append_assoc, ← List.append_assoc]
    exact List.perm_middle
  | signal c => exact ⟨_, wakeOne_perm s c, List.Sublist.refl _⟩
  | broadcast c => exact ⟨_, wake_perm s c, List.Sublist.refl _⟩
  | kill t => exact kill_perm self s t
  | start =>
    refine ⟨_, List.Perm.refl _, ?_⟩
    change s.start.members.Sublist s.members
    unfold Sched.start
    split
    · next t ts hrun hready => simp [Sched.members, hrun, hready]
    · exact List.Sublist.refl _
  | block c =>
    refine ⟨s.members, ?_, List.Sublist.refl _⟩
    change (s.block c).members.Perm s.members
    unfold Sched.block
    split
    · next t hrun =>
      simp only [Sched.members, hrun, Option.toList_none, Option.toList_some, List.nil_append,
        List.map_append, List.map_cons, List.map_nil, List.singleton_append]
      rw [← List.append_assoc]
      exact List.perm_append_singleton t _
    · exact List.Perm.refl _
  | yield =>
    refine ⟨s.members, ?_, List.Sublist.refl _⟩
    change s.yield.members.Perm s.members
    unfold Sched.yield
    split
    · next t hrun =>
      simp only [Sched.members, hrun, Option.toList_none, Option.toList_some, List.nil_append,
        List.append_assoc, List.singleton_append]
      exact List.perm_middle
    · exact List.Perm.refl _
  | exit =>
    change ∃ ms, (s.exit self).members.Perm ms ∧ ms.Sublist s.members
    unfold Sched.exit
    split
    · next t hrun =>
      refine ⟨_, wake_perm _ _, ?_⟩
      simp [Sched.members, hrun]
    · exact ⟨_, List.Perm.refl _, List.Sublist.refl _⟩

/-- No thread is scheduled twice. -/
theorem step_nodup (h : s.members.Nodup) (a : Act τ κ) (hok : Allowed s a) :
    (step self s a).members.Nodup := by
  obtain ⟨ms, hperm, hsub⟩ := step_perm self s a
  refine hperm.nodup_iff.mpr (List.Nodup.sublist hsub ?_)
  cases a with
  | create t => exact List.nodup_cons.mpr ⟨hok, h⟩
  | _ => exact h

theorem length_step (self : τ → κ) (s : Sched τ κ) (a : Act τ κ) :
    (step self s a).members.length ≤ a.new.length + s.members.length := by
  obtain ⟨ms, hperm, hsub⟩ := step_perm self s a
  rw [hperm.length_eq, ← List.length_append]
  exact hsub.length_le

/-! ## A thread's turn comes -/

/-- What does not take the thread out of the queue brings it no further back. -/
theorem Behind.step {others : List τ} (h : Behind s t others) {a : Act τ κ} (hkill : a ≠ .kill t)
    (hstart : a ≠ .start) :
    Behind (step self s a) t others ∧ (Channels.step self s a).started = s.started := by
  cases a with
  | create u => exact ⟨h.more ⟨_, rfl⟩, rfl⟩
  | signal c => exact ⟨h.more ⟨_, rfl⟩, rfl⟩
  | broadcast c => exact ⟨h.more ⟨_, rfl⟩, rfl⟩
  | kill u => exact ⟨h.kill fun he => hkill (he ▸ rfl), started_kill u⟩
  | start => exact absurd rfl hstart
  | block c => exact ⟨h.more ⟨[], by simp [Channels.step, ready_block]⟩, started_block c⟩
  | yield => exact ⟨h.more ready_yield, started_yield⟩
  | exit => exact ⟨h.more ready_exit, started_exit⟩

/-- A thread with `k` others in front of it is among the next `k + 1` threads that are given a
turn, unless it is killed; in front of it only the others get theirs, in their order. -/
theorem turn_comes {others : List τ} (as : List (Act τ κ)) (h : Behind s t others)
    (hok : Along (step self) Allowed s as) (hkill : Act.kill t ∉ as)
    (hturns : others.length < as.countP Act.isStart) :
    ∃ front back, (run (step self) s as).started = s.started ++ (front ++ t :: back) ∧
      front.Sublist others := by
  induction as generalizing s others with
  | nil => exact absurd hturns (Nat.not_lt_zero _)
  | cons a as ih =>
    obtain ⟨hhead, htail⟩ := hok
    have hkill' : Act.kill t ∉ as := fun hmem => hkill (List.mem_cons_of_mem a hmem)
    by_cases hstart : a = .start
    · subst hstart
      have hidle : s.running = none := hhead
      obtain ⟨pre, post, hready, hsub⟩ := h
      cases pre with
      | nil =>
        have hstep : (step self s .start).started = s.started ++ [t] := by
          simp [step, Sched.start, hidle, hready]
        obtain ⟨back, hback⟩ : (step self s .start).started <+: _ := started_run as _
        exact ⟨[], back, by rw [run_cons, ← hback, hstep]; simp, List.nil_sublist _⟩
      | cons p pre =>
        have hstep : step self s .start =
            { s with running := some p, ready := pre ++ t :: post,
                     started := s.started ++ [p] } := by
          simp [step, Sched.start, hidle, hready]
        have hbehind : Behind (step self s .start) t pre :=
          ⟨pre, post, by rw [hstep], List.Sublist.refl pre⟩
        have hcount : pre.length < as.countP Act.isStart := by
          have hlen := hsub.length_le
          rw [List.length_cons] at hlen
          rw [List.countP_cons_of_pos rfl] at hturns
          omega
        obtain ⟨front, back, hrun, hfront⟩ := ih hbehind htail hkill' hcount
        refine ⟨p :: front, back, ?_, (hfront.cons_cons p).trans hsub⟩
        rw [run_cons, hrun, hstep]
        simp
    · have hkeep : a ≠ .kill t := fun he => hkill (he ▸ List.mem_cons_self)
      obtain ⟨hbehind, hstarted⟩ : Behind (step self s a) t others ∧ _ := h.step hkeep hstart
      have hcount : others.length < as.countP Act.isStart := by
        rwa [List.countP_cons_of_neg (by cases a <;> simp_all [Act.isStart])] at hturns
      obtain ⟨front, back, hrun, hfront⟩ := ih hbehind htail hkill' hcount
      exact ⟨front, back, by rw [run_cons, hrun, hstarted], hfront⟩

end MoonFlare.Channels
