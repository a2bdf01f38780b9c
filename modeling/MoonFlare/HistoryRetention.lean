import MoonFlare.History

/-!
# Pruning policies

How long a module keeps its rows, and the slices in which the rows that are older go.
A module is visited when it is due, and is due again at once when a slice ended before
its rows did, and else after an hour. The calls of SQLite succeed here.
-/

namespace MoonFlare.History

/-- `MF_HISTORY_PRUNE_EVERY_S`. -/
def mfHistoryPruneEveryS : Double := Double.ofInt 3600

/-- Seconds of a day. -/
def daySeconds : Double := Double.ofInt 86400

/-- `keep_days_of`: below zero the plugin's own policy. -/
def keepDaysOf (m : HistMod) : Double :=
  if m.keepDays.lt Double.zero then m.keepDefault else m.keepDays

/-- A module's policy is changed, and is checked at once. -/
def HistMod.keepFor (m : HistMod) (days : Double) : HistMod :=
  { m with keepDays := days, nextPrune := Double.zero }

/-- The time before which rows are expired. -/
def cutoff (m : HistMod) (now : Double) : Double := now.sub (times (keepDaysOf m) daySeconds)

/-- Which rows `DELETE` takes: of those before a time the oldest, at most so many. -/
def oldestBefore (cut : Double) (maxRows : ℕ) (rows : List Row) : List (Row × ℕ) :=
  ((rows.zipIdx.filter fun r => r.1.ts.lt cut).mergeSort fun a b => !b.1.ts.lt a.1.ts).take maxRows

/-- The rows that stay. -/
def deleteRows (gone : List (Row × ℕ)) (rows : List Row) : List Row :=
  (rows.zipIdx.filter fun r => r ∉ gone).map Prod.fst

namespace Store

variable (st : Store)

/-- A registered module. -/
def modOf (uuid : CString) : Option HistMod := (st.findMod uuid).bind st.mods

theorem mods_setMod_self (i : Fin mfHistoryMaxModules) (m : Option HistMod) :
    (st.setMod i m).mods i = m := Function.update_self _ _ _

theorem mods_setMod_of_ne {i j : Fin mfHistoryMaxModules} (h : j ≠ i) (m : Option HistMod) :
    (st.setMod i m).mods j = st.mods j := Function.update_of_ne h _ _

end Store

theorem mods_setMeta (st : Store) (uuid : CString) (key : MetaKey) (value : Option MetaValue) :
    (st.setMeta uuid key value).mods = st.mods := rfl

theorem isOpen_setMeta (st : Store) (uuid : CString) (key : MetaKey) (value : Option MetaValue) :
    (st.setMeta uuid key value).isOpen = st.isOpen := rfl

/-- The description in the file changes no slot. -/
theorem describe_same (st : Store) (uuid name kind driver capture : CString) (e : HistEnv) :
    (st.describe uuid name kind driver capture e).mods = st.mods ∧
      (st.describe uuid name kind driver capture e).isOpen = st.isOpen := by
  unfold Store.describe
  dsimp only
  rw [apply_ite Store.mods, apply_ite Store.isOpen]
  simp only [mods_setMeta, isOpen_setMeta, ite_self, and_self]

namespace Store

variable (st : Store)

/-- `mf_history_set_retention`. -/
def setRetention (uuid : CString) (days : Double) : Store × Bool :=
  match st.findMod uuid with
  | none => (st, false)
  | some i =>
    match st.mods i with
    | none => (st, false)
    | some m =>
      if !m.captures then (st, false)
      else
        let m := m.keepFor days
        ((st.setMod i (some m)).setMeta uuid .retentionDays (some (.number (keepDaysOf m))), true)

/-- `mf_history_retention`. -/
def retention (uuid : CString) : Double :=
  match st.modOf uuid with
  | some m => if m.captures then keepDaysOf m else Double.negOne
  | none => Double.negOne

/-- `prune_module`, with the rows it deletes. -/
def pruneModule (i : Fin mfHistoryMaxModules) (m : HistMod) (now : Double) (maxRows : ℕ) :
    Store × ℕ :=
  let later := { m with nextPrune := now.add mfHistoryPruneEveryS }
  if Double.zero.ge (keepDaysOf m) then (st.setMod i (some later), 0)
  else
    let gone := oldestBefore (cutoff m now) maxRows (st.files (st.fileId m.uuid.str)).view.samples
    let st := st.onFile m.uuid.str fun f =>
      f.write fun c => { c with samples := deleteRows gone c.samples }
    (if gone.length < maxRows then st.setMod i (some later) else st, gone.length)

/-- A module is due at a time. -/
def dueAt (i : Fin mfHistoryMaxModules) (now : Double) : Option HistMod :=
  (st.mods i).filter fun m => m.captures && !now.lt m.nextPrune

end Store

/-- The store in the loop of a slice, the rows deleted so far and the slots visited. -/
structure Pruned where
  store : Store
  done : ℕ
  visited : List (Fin mfHistoryMaxModules)

/-- One round of the loop of a slice. -/
def pruneRound (now : Double) (maxRows : ℕ) (p : Pruned) (i : Fin mfHistoryMaxModules) : Pruned :=
  if p.done < maxRows then
    match p.store.dueAt i now with
    | some m =>
      let (st, n) := p.store.pruneModule i m now (maxRows - p.done)
      ⟨st, p.done + n, p.visited ++ [i]⟩
    | none => p
  else p

/-- `mf_history_prune_slice`, with the rows it reports and the slots it visits. -/
def pruneSlice (st : Store) (now : Double) (maxRows : ℤ) : Pruned :=
  if !st.isOpen ∨ maxRows ≤ 0 then ⟨st, 0, []⟩
  else (List.finRange mfHistoryMaxModules).foldl (pruneRound now maxRows.toNat) ⟨st, 0, []⟩

end MoonFlare.History
