import MoonFlare.ProtothreadQueues

/-!
# The scheduler's runs, and the daemon's tick

What holds in every state that the scheduler's calls lead to. The daemon wakes
all threads once a tick, and then runs threads until none is ready; each of
them waits for the next tick again or ends. So a tick gives every thread that
was alive one turn, in the order in which they began to wait, and each thread
that was created in the tick a turn after them.
-/

namespace MoonFlare.Pt

open Channels Circular Runs

/-! ## Every run of calls -/

/-- From a fresh scheduler every run of allowed calls ends in a state whose lists are the queues:
no pointer that is followed is null, no assertion fails and no walk goes round for ever. -/
theorem runs_as_queues (readyFunction : Bool) (as : List (Act Addr Addr))
    (hok : Along (Channels.step id) Allowed Sched.empty as) :
    ∃ s, run (protothreadInit readyFunction) as = some s ∧
      Represents s (Runs.run (Channels.step id) Sched.empty as) :=
  run_represents (represents_init readyFunction) as hok

theorem runs_as_queues_broadcast : ∃ s,
    run (protothreadInit true) [.create 8, .create 16, .start, .block 64, .broadcast 64] = some s ∧
      Represents s (Runs.run (Channels.step id) Sched.empty
        [.create 8, .create 16, .start, .block 64, .broadcast 64]) :=
  runs_as_queues true _ (by simp [Along, Allowed, Channels.step, Sched.members, Sched.empty,
    Sched.start])

theorem run_append (s : Protothread) (as bs : List (Act Addr Addr)) :
    run s (as ++ bs) = (run s as).bind fun s => run s bs := by
  induction as generalizing s with
  | nil => rfl
  | cons a as ih =>
    rw [List.cons_append, run_cons, run_cons, Option.bind_assoc]
    exact congrArg _ (funext ih)

/-- A thread on the ready list is run within as many starts as there are threads up to it in the
list, unless it is killed; those that are run before it are some of the ones in front of it, in
their order and each at most once. -/
theorem turn_of_ready {readyFunction : Bool} {as bs : List (Act Addr Addr)} {s : Protothread}
    {pre post : List Addr} {t : Addr}
    (hok : Along (Channels.step id) Allowed Sched.empty (as ++ bs))
    (hrun : run (protothreadInit readyFunction) as = some s)
    (hlist : Circle s.lists.next (s.lists.head .ready) (pre ++ t :: post))
    (hkill : Act.kill t ∉ bs) (hturns : pre.length < bs.countP Act.isStart) :
    ∃ s' front back, run s bs = some s' ∧ s'.started = s.started ++ (front ++ t :: back) ∧
      front.Sublist pre := by
  obtain ⟨hbefore, hafter⟩ := (along_append Allowed Sched.empty as bs).mp hok
  obtain ⟨s₁, hrun₁, hs₁⟩ := run_represents (represents_init readyFunction) as hbefore
  obtain rfl : s₁ = s := Option.some.inj (hrun₁.symm.trans hrun)
  have hready := (hs₁.rings.circle .ready).unique hlist
  obtain ⟨s', hrun', hs'⟩ := run_represents hs₁ bs hafter
  obtain ⟨front, back, hstarted, hfront⟩ := turn_comes bs
    ⟨pre, post, hready, List.Sublist.refl pre⟩ hafter hkill hturns
  exact ⟨s', front, back, hrun', by rw [hs'.started, hstarted, hs₁.started], hfront⟩

theorem turn_of_ready_second : ∃ s s' front back,
    run (protothreadInit false) [.create 8, .create 16] = some s ∧
      run s [.start, .yield, .start] = some s' ∧
      s'.started = s.started ++ (front ++ 16 :: back) ∧ front.Sublist [8] := by
  have hok : Along (Channels.step id) Allowed Sched.empty
      ([.create 8, .create 16] ++ [.start, .yield, .start] : List (Act Addr Addr)) := by
    simp [Along, Allowed, Channels.step, Sched.members, Sched.empty, Sched.start, Sched.yield]
  obtain ⟨s, hrun, hs⟩ := run_represents (represents_init false) _
    ((along_append Allowed Sched.empty _ _).mp hok).1
  have hlist : Circle s.lists.next (s.lists.head .ready) ([8] ++ 16 :: []) :=
    hs.rings.circle .ready
  obtain ⟨s', front, back, hafter, hstarted, hfront⟩ :=
    turn_of_ready hok hrun hlist (by simp) (by decide)
  exact ⟨s, s', front, back, hrun, hafter, hstarted, hfront⟩

/-! ## The daemon's loop -/

/-- What a thread does with its turn: the threads it creates, and whether it waits for the next
tick or ends. -/
structure Turn where
  creates : List Addr
  waits : Bool

/-- The daemon, as its scheduler sees it. The state holds the history of the run, so what a
thread does with a turn is not fixed by the thread. -/
structure Daemon where
  /-- `&g_chan_tick`. -/
  tick : Addr
  turn : Protothread → Turn
  /-- The threads that `mf_devices_apply_pending` creates after a tick. -/
  pending : Protothread → List Addr

/-- `pt_create` for each of some threads. -/
def createAll (s : Protothread) (ts : List Addr) : Protothread := ts.foldl ptICreateThread s

variable (d : Daemon)

/-- `protothread_run`, and whether there are more threads to run. -/
def protothreadRun (s : Protothread) : Option (Protothread × Bool) :=
  if s.running ≠ none then none
  else if s.lists.head .ready = none then some (s, false)
  else do
    let s ← runBegin s
    let u := d.turn s
    let s ← runEnd (createAll s u.creates) (if u.waits then .wait d.tick else .done)
    return (s, (s.lists.head .ready).isSome)

/-- `while (protothread_run(g_pts)) ;`, for at most so many rounds. -/
def runAll : ℕ → Protothread → Option Protothread
  | 0, _ => none
  | fuel + 1, s => do
    let (s, more) ← protothreadRun d s
    if more then runAll fuel s else return s

/-- One tick of the loop in `main`. -/
def daemonTick (fuel : ℕ) (s : Protothread) : Option Protothread := do
  let s ← ptBroadcast s d.tick
  let s ← runAll d fuel s
  return createAll s (d.pending s)

/-- `main`, with the threads it starts with, for so many ticks. -/
def daemonRun (fuel : ℕ) (boot : List Addr) : ℕ → Option Protothread
  | 0 => runAll d fuel (createAll (protothreadInit false) boot)
  | n + 1 => (daemonRun fuel boot n).bind (daemonTick d fuel)

/-- What `pt_create` is called for: threads that are not alive, and at most so many in all. -/
def Creates (tick : Addr) (bound : ℕ) (creates : Protothread → List Addr) : Prop :=
  ∀ s, (creates s).Nodup ∧ (∀ t ∈ creates s, s.func t = false ∧ t ≠ tick) ∧
    (creates s ≠ [] → s.created + (creates s).length ≤ bound)

variable {d} {s : Protothread} {q : Sched Addr Addr} {bound fuel : ℕ}

@[simp] theorem createAll_made (s : Protothread) (ts : List Addr) :
    (createAll s ts).made = s.made ++ ts := by
  induction ts generalizing s with
  | nil => exact (List.append_nil _).symm
  | cons t ts ih =>
    have hone : (ptICreateThread s t).made = s.made ++ [t] := by
      rw [ptICreateThread, ptIAddReady, (notifyIf_fields _).2.2.2.2.2]
      rfl
    rw [createAll, List.foldl_cons, ← createAll, ih, hone, List.append_assoc]
    rfl

theorem createAll_created (s : Protothread) (ts : List Addr) :
    (createAll s ts).created = s.created + ts.length := by
  rw [Protothread.created, createAll_made, List.length_append, Protothread.created]

@[simp] theorem createAll_started (s : Protothread) (ts : List Addr) :
    (createAll s ts).started = s.started := by
  induction ts generalizing s with
  | nil => rfl
  | cons t ts ih =>
    rw [createAll, List.foldl_cons, ← createAll, ih, ptICreateThread, ptIAddReady,
      (notifyIf_fields _).2.2.2.2.1]
    rfl

/-- New threads stand behind those that are ready. -/
theorem createAll_spec (hq : Represents s q) {ts : List Addr} (hnodup : ts.Nodup)
    (hnew : ∀ t ∈ ts, t ∉ q.members) :
    Represents (createAll s ts) { q with ready := q.ready ++ ts } := by
  induction ts generalizing s q with
  | nil => simpa [createAll] using hq
  | cons t ts ih =>
    obtain ⟨ht, hnodup⟩ := List.nodup_cons.mp hnodup
    have hone := create_spec hq (hnew t List.mem_cons_self)
    have hrest := ih hone hnodup fun u hu hmem => by
      have hmem' : u = t ∨ u ∈ q.members := by
        simpa [Channels.step, Sched.members, or_comm, or_left_comm, or_assoc] using hmem
      rcases hmem' with rfl | hmem'
      · exact ht hu
      · exact hnew u (List.mem_cons_of_mem t hu) hmem'
    simpa [createAll, Channels.step] using hrest

/-- Between two turns: no thread runs, and whoever waits does so for the tick. -/
structure Parked (tick : Addr) (q : Sched Addr Addr) : Prop where
  idle : q.running = none
  waits : ∀ p ∈ q.waiting, p.2 = tick
  apart : tick ∉ q.members

theorem Creates.fresh {creates : Protothread → List Addr} {tick : Addr}
    (hc : Creates tick bound creates) (hq : Represents s q) : ∀ t ∈ creates s, t ∉ q.members := by
  intro t ht hmem
  have halive := (hq.alive t).mpr hmem
  rw [((hc s).2.1 t ht).1] at halive
  exact Bool.false_ne_true halive

theorem Creates.apart {creates : Protothread → List Addr} {tick : Addr}
    (hc : Creates tick bound creates) (hq : Parked tick q) :
    Parked tick { q with ready := q.ready ++ creates s } := by
  refine ⟨hq.idle, hq.waits, fun hmem => ?_⟩
  have hmem' : tick ∈ creates s ∨ tick ∈ q.members := by
    simpa [Sched.members, or_comm, or_left_comm, or_assoc] using hmem
  rcases hmem' with hmem' | hmem'
  · exact ((hc s).2.1 tick hmem').2 rfl
  · exact hq.apart hmem'

theorem Creates.bounded {creates : Protothread → List Addr} {tick : Addr}
    (hc : Creates tick bound creates) (hs : s.created ≤ bound) :
    s.created + (creates s).length ≤ bound := by
  by_cases hnil : creates s = []
  · simpa [hnil] using hs
  · exact (hc s).2.2 hnil

/-- Nobody waits on the channel. -/
theorem wake_quiet {c : Addr} (h : ∀ p ∈ q.waiting, p.2 ≠ c) : q.wake c = q := by
  have hnone : q.waiting.filter (·.2 = c) = [] := by simpa [List.filter_eq_nil_iff] using h
  have hall : q.waiting.filter (·.2 ≠ c) = q.waiting := by simpa [List.filter_eq_self] using h
  rw [Sched.wake, hnone, hall]
  simp

/-! ## Which threads were created -/

theorem wakeLoop_made {c prev : Addr} {one notify : Bool} {r : Protothread × Bool}
    (h : wakeLoop c one fuel prev s notify = some r) : r.1.made = s.made := by
  induction fuel generalizing prev s notify with
  | zero => simp [wakeLoop] at h
  | succ fuel ih =>
    rw [wakeLoop] at h
    split at h
    · obtain rfl := Option.some.inj h
      rfl
    · obtain ⟨t, -, h⟩ := Option.bind_eq_some_iff.mp h
      split_ifs at h
      · obtain rfl := Option.some.inj h
        rfl
      · exact ih h
      · obtain ⟨u, -, h⟩ := Option.bind_eq_some_iff.mp h
        obtain rfl := Option.some.inj h
        rfl
      · obtain ⟨u, -, h⟩ := Option.bind_eq_some_iff.mp h
        have hnext : wakeLoop c one fuel prev (ptILinkReady { s with lists := u.2 } t).1 _ =
          some r := h
        exact (ih hnext).trans rfl

theorem ptIWake_made {c : Addr} {one : Bool} {s' : Protothread}
    (h : ptIWake s c one = some s') : s'.made = s.made := by
  rw [ptIWake] at h
  split at h
  · obtain rfl := Option.some.inj h
    rfl
  · obtain ⟨r, hloop, rfl⟩ := Option.map_eq_some_iff.mp h
    rw [(notifyIf_fields r).2.2.2.2.2]
    exact wakeLoop_made hloop

theorem runBegin_made {s' : Protothread} (h : runBegin s = some s') :
    s'.made = s.made := by
  rw [runBegin] at h
  split_ifs at h
  · obtain rfl := Option.some.inj h
    rfl
  · obtain ⟨u, -, h⟩ := Option.bind_eq_some_iff.mp h
    obtain rfl := Option.some.inj h
    rfl

theorem runEnd_made {e : Ending} {s' : Protothread} (h : runEnd s e = some s') :
    s'.made = s.made := by
  obtain ⟨t, -, h⟩ := Option.bind_eq_some_iff.mp h
  cases e with
  | wait c =>
    obtain ⟨s₁, hwait, rfl⟩ := Option.map_eq_some_iff.mp h
    rw [ptIEnqueueWait] at hwait
    split_ifs at hwait
    obtain rfl := Option.some.inj hwait
    rfl
  | yield =>
    obtain ⟨s₁, hyield, rfl⟩ := Option.map_eq_some_iff.mp h
    rw [ptIEnqueueYield] at hyield
    split_ifs at hyield
    obtain rfl := Option.some.inj hyield
    exact (notifyIf_fields _).2.2.2.2.2
  | done =>
    simp only at h
    split_ifs at h
    · have hwake := ptIWake_made h
      exact hwake
    · obtain rfl := Option.some.inj h
      rfl

/-! ## A tick -/

/-- The running thread waits for the tick or ends. -/
theorem end_spec {t : Addr} (hq : Represents s q) (hrun : q.running = some t)
    (hwaits : ∀ p ∈ q.waiting, p.2 = d.tick) (hapart : d.tick ∉ q.members) (waits : Bool) :
    ∃ s' q', runEnd s (if waits then .wait d.tick else .done) = some s' ∧ Represents s' q' ∧
      Parked d.tick q' ∧ q'.ready = q.ready ∧ s'.started = s.started := by
  cases waits with
  | true =>
    obtain ⟨s', hend, hq'⟩ := block_spec hq hrun d.tick
    have hblock : q.block d.tick =
        { q with running := none, waiting := q.waiting ++ [(t, d.tick)] } := by
      simp [Sched.block, hrun]
    rw [hblock] at hq'
    refine ⟨s', _, hend, hq', ⟨rfl, fun p hp => ?_, fun hmem => hapart ?_⟩, rfl, ?_⟩
    · rcases List.mem_append.mp hp with hp | hp
      · exact hwaits p hp
      · rw [List.mem_singleton.mp hp]
    · simpa [Sched.members, hrun, or_comm, or_left_comm] using hmem
    · rw [hq'.started, hq.started]
  | false =>
    obtain ⟨s', hend, hq'⟩ := exit_spec hq hrun
    have ht : t ≠ d.tick := fun he => hapart (he ▸ mem_members.mpr (Or.inl hrun))
    have hexit : q.exit id = { q with running := none } := by
      rw [Sched.exit, hrun]
      exact wake_quiet fun p hp he => ht (he.symm.trans (hwaits p hp))
    rw [hexit] at hq'
    refine ⟨s', _, hend, hq', ⟨rfl, hwaits, fun hmem => hapart ?_⟩, rfl, ?_⟩
    · exact mem_members.mpr (Or.inr hmem)
    · rw [hq'.started, hq.started]

/-- One turn: the oldest ready thread runs, and what it creates stands behind the others. -/
theorem turn_spec {t : Addr} {ts : List Addr} (hq : Represents s q) (hp : Parked d.tick q)
    (hready : q.ready = t :: ts) (hc : Creates d.tick bound fun s => (d.turn s).creates)
    (hs : s.created ≤ bound) :
    ∃ s' q' us, protothreadRun d s = some (s', decide (q'.ready ≠ [])) ∧ Represents s' q' ∧
      Parked d.tick q' ∧ q'.ready = ts ++ us ∧ s'.started = s.started ++ [t] ∧
      s'.made = s.made ++ us ∧ s'.created ≤ bound := by
  have hidle : s.running = none := hq.running.trans hp.idle
  have hhead : s.lists.head .ready ≠ none := by
    rw [Ne, hq.rings.head_eq_none .ready]
    simp [listsOf, hready]
  obtain ⟨s₁, hbegin, hq₁⟩ := start_spec hq hp.idle
  have hstart : q.start =
      { q with running := some t, ready := ts, started := q.started ++ [t] } := by
    simp [Sched.start, hp.idle, hready]
  have hapart : d.tick ∉ q.start.members := by
    rw [hstart]
    simpa [Sched.members, hp.idle, hready] using hp.apart
  have hmade := runBegin_made hbegin
  have hfresh := Creates.fresh hc hq₁
  have hq₂ := createAll_spec hq₁ (hc s₁).1 hfresh
  have hapart₂ : d.tick ∉ Sched.members { q.start with
      ready := q.start.ready ++ (d.turn s₁).creates } := by
    intro hmem
    have hmem' : d.tick ∈ (d.turn s₁).creates ∨ d.tick ∈ q.start.members := by
      simpa [Sched.members, or_comm, or_left_comm, or_assoc] using hmem
    exact hmem'.elim (fun h => ((hc s₁).2.1 d.tick h).2 rfl) hapart
  have hrun₁ : q.start.running = some t := by rw [hstart]
  have hwaits₁ : ∀ p ∈ q.start.waiting, p.2 = d.tick := by
    rw [hstart]
    exact hp.waits
  obtain ⟨s₃, q₃, hend, hq₃, hp₃, hready₃, hstarted₃⟩ :=
    end_spec hq₂ hrun₁ hwaits₁ hapart₂ (d.turn s₁).waits
  have hready' : q₃.ready = ts ++ (d.turn s₁).creates := by rw [hready₃, hstart]
  have hmore : (s₃.lists.head .ready).isSome = decide (q₃.ready ≠ []) := by
    rw [hq₃.rings.head_eq .ready, Bool.eq_iff_iff, Option.isSome_iff_ne_none]
    simp [listsOf]
  refine ⟨s₃, q₃, (d.turn s₁).creates, ?_, hq₃, hp₃, hready', ?_, ?_, ?_⟩
  · simp [protothreadRun, hidle, hhead, hbegin, hend, hmore]
  · rw [hstarted₃, createAll_started, hq₁.started, hstart, hq.started]
  · rw [runEnd_made hend, createAll_made, hmade]
  · have hbounded := hc.bounded (s := s₁) (by rw [Protothread.created, hmade]; exact hs)
    rw [Protothread.created, runEnd_made hend]
    exact (createAll_created s₁ _).trans_le hbounded

/-- Threads run until none is ready: those that were ready in their order, and then those that
were created meanwhile. -/
theorem runAll_spec (hq : Represents s q) (hp : Parked d.tick q)
    (hc : Creates d.tick bound fun s => (d.turn s).creates) (hs : s.created ≤ bound)
    (hfuel : q.ready.length + (bound - s.created) < fuel) :
    ∃ s' q' born, runAll d fuel s = some s' ∧ Represents s' q' ∧ Parked d.tick q' ∧
      q'.ready = [] ∧ s'.started = s.started ++ (q.ready ++ born) ∧
      s'.made = s.made ++ born ∧ s'.created ≤ bound := by
  induction fuel generalizing s q with
  | zero => exact absurd hfuel (Nat.not_lt_zero _)
  | succ fuel ih =>
    cases hready : q.ready with
    | nil =>
      have hhead : s.lists.head .ready = none := (hq.rings.head_eq_none .ready).mpr hready
      have hrun : protothreadRun d s = some (s, false) := by
        simp [protothreadRun, hq.running.trans hp.idle, hhead]
      exact ⟨s, q, [], by simp [runAll, hrun], hq, hp, hready, by simp, by simp, hs⟩
    | cons t ts =>
      obtain ⟨s₁, q₁, us, hrun, hq₁, hp₁, hready₁, hstarted₁, hmade₁, hs₁⟩ :=
        turn_spec hq hp hready hc hs
      by_cases hmore : q₁.ready = []
      · have hend : runAll d (fuel + 1) s = some s₁ := by simp [runAll, hrun, hmore]
        obtain ⟨rfl, rfl⟩ := List.append_eq_nil_iff.mp (hready₁.symm.trans hmore)
        exact ⟨s₁, q₁, [], hend, hq₁, hp₁, hmore, by simp [hstarted₁], hmade₁, hs₁⟩
      · have hcreated₁ : s₁.created = s.created + us.length := by
          rw [Protothread.created, hmade₁, List.length_append, Protothread.created]
        have hfuel₁ : q₁.ready.length + (bound - s₁.created) < fuel := by
          rw [hready₁, List.length_append]
          rw [hready, List.length_cons] at hfuel
          omega
        obtain ⟨s', q', born, hrest, hq', hp', hempty, hstarted, hmade, hs'⟩ :=
          ih hq₁ hp₁ hs₁ hfuel₁
        refine ⟨s', q', us ++ born, ?_, hq', hp', hempty, ?_, ?_, hs'⟩
        · simp [runAll, hrun, hmore, hrest]
        · rw [hstarted, hstarted₁, hready₁]
          simp
        · rw [hmade, hmade₁, List.append_assoc]

/-- A tick runs every thread that is scheduled, and those that are created meanwhile. -/
theorem daemonTick_spec (hq : Represents s q) (hp : Parked d.tick q)
    (hturn : Creates d.tick bound fun s => (d.turn s).creates)
    (hpending : Creates d.tick bound d.pending) (hs : s.created ≤ bound) (hfuel : bound < fuel) :
    ∃ r q' born, daemonTick d fuel s = some (createAll r (d.pending r)) ∧
      Represents (createAll r (d.pending r)) q' ∧ Parked d.tick q' ∧
      (createAll r (d.pending r)).created ≤ bound ∧
      r.started = s.started ++ (q.members ++ born) ∧ r.made = s.made ++ born := by
  obtain ⟨s₁, hwake, hq₁⟩ := wake_all hq d.tick
  have hwoken : q.wake d.tick =
      { q with ready := q.ready ++ q.waiting.map Prod.fst, waiting := [] } := by
    have hall : q.waiting.filter (·.2 = d.tick) = q.waiting := by
      simpa [List.filter_eq_self] using hp.waits
    have hnone : q.waiting.filter (·.2 ≠ d.tick) = [] := by
      simpa [List.filter_eq_nil_iff] using hp.waits
    rw [Sched.wake, hall, hnone]
  have hmembers : (q.wake d.tick).ready = q.members := by
    rw [hwoken, Sched.members, hp.idle]
    rfl
  have hp₁ : Parked d.tick (q.wake d.tick) :=
    ⟨hp.idle, by simp [hwoken], fun hmem => hp.apart (mem_wake.mp hmem)⟩
  have hmade₁ := ptIWake_made hwake
  have hcreated₁ : s₁.created = s.created := congrArg List.length hmade₁
  have hlen : (q.wake d.tick).ready.length ≤ s₁.created := by
    rw [hmembers, hcreated₁]
    exact hq.count
  have hfuel₁ : (q.wake d.tick).ready.length + (bound - s₁.created) < fuel := by omega
  obtain ⟨r, q₂, born, hrun, hq₂, hp₂, -, hstarted, hmade, hr⟩ :=
    runAll_spec hq₁ hp₁ hturn (hcreated₁.trans_le hs) hfuel₁
  have hq₃ := createAll_spec hq₂ (hpending r).1 (hpending.fresh hq₂)
  refine ⟨r, _, born, ?_, hq₃, hpending.apart hp₂, ?_, ?_, ?_⟩
  · simp [daemonTick, ptBroadcast, hwake, hrun]
  · rw [createAll_created]
    exact hpending.bounded hr
  · rw [hstarted, hmembers, hq₁.started, hq.started]
    rfl
  · rw [hmade, hmade₁]

/-- The state of the daemon between two ticks. -/
theorem daemonRun_spec {boot : List Addr} (hboot : boot.Nodup) (htick : d.tick ∉ boot)
    (hlen : boot.length ≤ bound) (hturn : Creates d.tick bound fun s => (d.turn s).creates)
    (hpending : Creates d.tick bound d.pending) (hfuel : bound < fuel) (n : ℕ) :
    ∃ s q, daemonRun d fuel boot n = some s ∧ Represents s q ∧ Parked d.tick q ∧
      s.created ≤ bound := by
  induction n with
  | zero =>
    have hnew : ∀ t ∈ boot, t ∉ (Sched.empty : Sched Addr Addr).members := fun t _ hmem => by
      simp [Sched.members, Sched.empty] at hmem
    have hq : Represents (createAll (protothreadInit false) boot) ⟨none, boot, [], []⟩ :=
      createAll_spec (represents_init false) hboot hnew
    have hp : Parked d.tick ⟨none, boot, [], []⟩ :=
      ⟨rfl, by simp, by simpa [Sched.members] using htick⟩
    have hcreated : (createAll (protothreadInit false) boot).created = boot.length := by
      simp [Protothread.created, protothreadInit]
    have hfuel' : boot.length +
        (bound - (createAll (protothreadInit false) boot).created) < fuel := by
      rw [hcreated]
      omega
    obtain ⟨s, q, born, hrun, hq', hp', -, -, -, hs⟩ :=
      runAll_spec hq hp hturn (hcreated.trans_le hlen) hfuel'
    exact ⟨s, q, hrun, hq', hp', hs⟩
  | succ n ih =>
    obtain ⟨s, q, hrun, hq, hp, hs⟩ := ih
    obtain ⟨r, q', -, htick, hq', hp', hs', -, -⟩ :=
      daemonTick_spec hq hp hturn hpending hs hfuel
    exact ⟨_, q', by rw [daemonRun, hrun, Option.bind_some, htick], hq', hp', hs'⟩

/-- Every tick of the daemon ends. In it each thread that was alive before gets one turn, and
only then do the threads get theirs that the turns of this tick created, one for each creation
and in this order; `r` is the state before `mf_devices_apply_pending` creates more. -/
theorem tick_turns {boot : List Addr} (hboot : boot.Nodup) (htick : d.tick ∉ boot)
    (hlen : boot.length ≤ bound) (hturn : Creates d.tick bound fun s => (d.turn s).creates)
    (hpending : Creates d.tick bound d.pending) (hfuel : bound < fuel) (n : ℕ) :
    ∃ s r alive born, daemonRun d fuel boot n = some s ∧
      daemonTick d fuel s = some (createAll r (d.pending r)) ∧
      alive.Nodup ∧ (∀ t, t ∈ alive ↔ s.func t = true) ∧
      r.started = s.started ++ (alive ++ born) ∧ r.made = s.made ++ born := by
  obtain ⟨s, q, hrun, hq, hp, hs⟩ := daemonRun_spec hboot htick hlen hturn hpending hfuel n
  obtain ⟨r, -, born, htick', -, -, -, hstarted, hmade⟩ :=
    daemonTick_spec hq hp hturn hpending hs hfuel
  exact ⟨s, r, q.members, born, hrun, htick', hq.distinct, fun t => (hq.alive t).symm, hstarted,
    hmade⟩

/-- The threads of the accept loop and of a module; in its second turn the accept thread creates
a connection's thread, and the connection ends with its turn. -/
def oneConnection : Daemon where
  tick := 4096
  turn s :=
    if s.running = some 8 ∧ s.started.length = 3 ∧ s.created = 2 ∧ s.func 16 = false then
      ⟨[16], true⟩
    else ⟨[], decide (s.running ≠ some 16)⟩
  pending _ := []

theorem creates_oneConnection :
    Creates oneConnection.tick 3 fun s => (oneConnection.turn s).creates := by
  intro s
  by_cases h : s.running = some 8 ∧ s.started.length = 3 ∧ s.created = 2 ∧ s.func 16 = false
  · have hturn : (oneConnection.turn s).creates = [16] := by simp only [oneConnection, if_pos h]
    simp only [hturn]
    exact ⟨List.nodup_singleton 16, by simp [h.2.2.2, oneConnection], by simp [h.2.2.1]⟩
  · have hturn : (oneConnection.turn s).creates = [] := by simp only [oneConnection, if_neg h]
    simp [hturn]

/-- Both threads that were alive have had their turns when the connection gets its. -/
theorem tick_turns_oneConnection :
    (∃ s r alive born, daemonRun oneConnection 4 [8, 24] 0 = some s ∧
      daemonTick oneConnection 4 s = some (createAll r (oneConnection.pending r)) ∧
      alive.Nodup ∧ (∀ t, t ∈ alive ↔ s.func t = true) ∧
      r.started = s.started ++ (alive ++ born) ∧ r.made = s.made ++ born) ∧
    (daemonRun oneConnection 4 [8, 24] 1).map Protothread.started = some [8, 24, 8, 24, 16] :=
  ⟨tick_turns (by decide) (by decide) (by decide) creates_oneConnection
    (fun _ => ⟨List.nodup_nil, fun _ h => (nomatch h), fun h => absurd rfl h⟩)
    (Nat.lt_succ_self 3) 0, by decide +kernel⟩

end MoonFlare.Pt
