import MoonFlare.ChannelScheduler
import MoonFlare.CircularList

/-!
# Protothreads

The scheduler that runs the daemon's connections and modules, on the links
its threads hold: the list of threads that can run and the hash table of lists
of threads that wait are circles through the `next` fields. What a thread does
with its turn is an input. A null pointer that is followed, a failed assertion
and a walk that does not end give no state.
-/

namespace MoonFlare.Pt

open Channels Circular

/-- What a pointer holds: the address of a thread, or of anything that is waited on. -/
abbrev Addr := UInt64

/-- `PT_NWAIT`. -/
def ptNwait : ℕ := 2 ^ 10

/-- A list head: `ready`, or one of `wait`. -/
inductive Head where
  | ready
  | wait (i : Fin ptNwait)
  deriving DecidableEq

/-- The `next` fields of the threads, and the list heads. -/
structure Lists where
  next : Links Addr
  head : Head → Option Addr

/-- A `protothread_s` and the threads of the program. -/
structure Protothread where
  lists : Lists
  /-- `func` of a thread is not null. -/
  func : Addr → Bool
  /-- `channel` of a thread. -/
  channel : Addr → Addr
  running : Option Addr
  /-- There is a `ready_function`. -/
  readyFunction : Bool
  /-- How often it was called. -/
  notified : ℕ
  /-- The threads that were created, in order. -/
  made : List Addr
  /-- The threads that were run, in order. -/
  started : List Addr

/-- How many threads were created. -/
def Protothread.created (s : Protothread) : ℕ := s.made.length

/-- `pt_i_link`. -/
def ptILink (ls : Lists) (h : Head) (n : Addr) : Lists :=
  ⟨link ls.next (ls.head h) n, Function.update ls.head h (some n)⟩

/-- `pt_i_unlink`, with `PT_DEBUG`. -/
def ptIUnlink (ls : Lists) (h : Head) (prev : Addr) : Option (Addr × Lists) :=
  (unlink ls.next (ls.head h) prev).map fun r => (r.1, ⟨r.2.1, Function.update ls.head h r.2.2⟩)

/-- `pt_i_unlink_oldest`. -/
def ptIUnlinkOldest (ls : Lists) (h : Head) : Option (Addr × Lists) :=
  (ls.head h).bind (ptIUnlink ls h)

/-- The loop of `pt_i_find_and_unlink`, for at most so many rounds. -/
def findLoop (ls : Lists) (h : Head) (n : Addr) : ℕ → Addr → Option (Bool × Lists)
  | 0, _ => none
  | fuel + 1, prev =>
    match ls.head h with
    | none => some (false, ls)
    | some newest => do
      let t ← ls.next prev
      if n = t then
        let (_, ls) ← ptIUnlink ls h prev
        return (true, ls)
      else if t = newest then return (false, ls)
      else findLoop ls h n fuel t

/-- `pt_i_find_and_unlink`. -/
def ptIFindAndUnlink (fuel : ℕ) (ls : Lists) (h : Head) (n : Addr) : Option (Bool × Lists) :=
  match ls.head h with
  | none => some (false, ls)
  | some newest => findLoop ls h n fuel newest

/-- `pt_i_link_ready`: whether the ready function is to be called. -/
def ptILinkReady (s : Protothread) (t : Addr) : Protothread × Bool :=
  ({ s with lists := ptILink s.lists .ready t },
    s.readyFunction && (s.lists.head .ready).isNone && s.running.isNone)

/-- `pt_i_notify_ready`, when it is called. -/
def notifyIf (r : Protothread × Bool) : Protothread :=
  if r.2 then { r.1 with notified := r.1.notified + 1 } else r.1

/-- `pt_i_add_ready`. -/
def ptIAddReady (s : Protothread) (t : Addr) : Protothread := notifyIf (ptILinkReady s t)

/-- `pt_i_create_thread`. -/
def ptICreateThread (s : Protothread) (t : Addr) : Protothread :=
  ptIAddReady
    { s with
      lists := { s.lists with next := Function.update s.lists.next t none }
      func := Function.update s.func t true
      channel := Function.update s.channel t 0
      made := s.made ++ [t] } t

/-- `pt_i_get_wait_list`: Fibonacci hashing at pointer width. -/
def ptIGetWaitList (chan : Addr) : Head :=
  .wait ⟨((chan * 0x9e3779b97f4a7c15) >>> 32).toNat % ptNwait, Nat.mod_lt _ (by decide)⟩

/-- `pt_i_enqueue_yield`. -/
def ptIEnqueueYield (s : Protothread) (t : Addr) : Option Protothread :=
  if s.running = some t then some (ptIAddReady s t) else none

/-- `pt_i_enqueue_wait`. -/
def ptIEnqueueWait (s : Protothread) (t chan : Addr) : Option Protothread :=
  if s.running = some t then
    some { s with
      channel := Function.update s.channel t chan
      lists := ptILink s.lists (ptIGetWaitList chan) t }
  else none

/-- The loop of `pt_i_wake`, for at most so many rounds. -/
def wakeLoop (chan : Addr) (wakeOne : Bool) :
    ℕ → Addr → Protothread → Bool → Option (Protothread × Bool)
  | 0, _, _, _ => none
  | fuel + 1, prev, s, notify =>
    match s.lists.head (ptIGetWaitList chan) with
    | none => some (s, notify)
    | some newest => do
      let t ← s.lists.next prev
      if s.channel t ≠ chan then
        if t = newest then return (s, notify)
        else wakeLoop chan wakeOne fuel t s notify
      else
        let (_, ls) ← ptIUnlink s.lists (ptIGetWaitList chan) prev
        let (s, call) := ptILinkReady { s with lists := ls } t
        if wakeOne then return (s, notify || call)
        else wakeLoop chan wakeOne fuel prev s (notify || call)

/-- `pt_i_wake`. A list is no longer than what was created, and is gone round at most twice. -/
def ptIWake (s : Protothread) (chan : Addr) (wakeOne : Bool) : Option Protothread :=
  match s.lists.head (ptIGetWaitList chan) with
  | none => some s
  | some newest => (wakeLoop chan wakeOne (2 * s.created + 2) newest s false).map notifyIf

/-- `pt_signal`. -/
def ptSignal (s : Protothread) (chan : Addr) : Option Protothread := ptIWake s chan true

/-- `pt_broadcast`. -/
def ptBroadcast (s : Protothread) (chan : Addr) : Option Protothread := ptIWake s chan false

/-- `pt_kill`. -/
def ptKill (s : Protothread) (t : Addr) : Option Protothread := do
  if s.running = some t then none
  else
    let (killed, ls) ← ptIFindAndUnlink (s.created + 1) s.lists .ready t
    let (killed, ls) ←
      if killed then some (true, ls)
      else ptIFindAndUnlink (s.created + 1) ls (ptIGetWaitList (s.channel t)) t
    if killed then
      ptIWake { s with lists := ls, func := Function.update s.func t false } t false
    else some { s with lists := ls }

/-- `protothread_init`, with a ready function or without. -/
def protothreadInit (readyFunction : Bool) : Protothread where
  lists := ⟨fun _ => none, fun _ => none⟩
  func := fun _ => false
  channel := fun _ => 0
  running := none
  readyFunction := readyFunction
  notified := 0
  made := []
  started := []

/-- `protothread_run` up to the call of the thread's function. Without a ready thread nothing
happens. -/
def runBegin (s : Protothread) : Option Protothread :=
  if s.running ≠ none then none
  else if s.lists.head .ready = none then some s
  else do
    let (t, ls) ← ptIUnlinkOldest s.lists .ready
    return { s with lists := ls, running := some t, started := s.started ++ [t] }

/-- How a thread's turn ends. -/
inductive Ending where
  | wait (chan : Addr)
  | yield
  | done

/-- `protothread_run` from the thread's `pt_wait`, `pt_yield` or `return PT_DONE` on. -/
def runEnd (s : Protothread) (e : Ending) : Option Protothread :=
  s.running.bind fun t =>
    match e with
    | .wait chan => (ptIEnqueueWait s t chan).map fun s => { s with running := none }
    | .yield => (ptIEnqueueYield s t).map fun s => { s with running := none }
    | .done =>
      let s := { s with running := none, func := Function.update s.func t false }
      if s.lists.head (ptIGetWaitList t) ≠ none then ptIWake s t false else some s

/-- One call of the scheduler's interface, or one end of a turn. -/
def step (s : Protothread) : Act Addr Addr → Option Protothread
  | .create t => some (ptICreateThread s t)
  | .signal c => ptSignal s c
  | .broadcast c => ptBroadcast s c
  | .kill t => ptKill s t
  | .start => runBegin s
  | .block c => runEnd s (.wait c)
  | .yield => runEnd s .yield
  | .exit => runEnd s .done

/-- Many of them. -/
def run (s : Protothread) (as : List (Act Addr Addr)) : Option Protothread := as.foldlM step s

end MoonFlare.Pt
