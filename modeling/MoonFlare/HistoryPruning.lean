import MoonFlare.HistoryQueue
import MoonFlare.HistoryRetention

/-!
# Pruning in slices

A slice deletes only rows that their own module's policy has expired, and no more than its
budget. What it deletes is the smaller of the budget and of what is expired in the modules
that are due, so repeated slices at one time come to an end with nothing expired left in
those. A module that is not due is passed over, whatever is expired in it.
-/

namespace MoonFlare.History

open Runs

/-! ## Deleted rows -/

/-- A row is before the time. -/
def Row.before (cut : Double) (r : Row) : Bool := r.ts.lt cut

variable {cut : Double} {budget : ℕ} {rows : List Row}

theorem map_fst_zipIdx (rows : List Row) : rows.zipIdx.map Prod.fst = rows := by
  simp [List.zipIdx_map_fst]

/-- The rows before the time, with their places. -/
def placedBefore (cut : Double) (rows : List Row) : List (Row × ℕ) :=
  rows.zipIdx.filter fun r => r.1.before cut

theorem nodup_zipIdx (rows : List Row) : rows.zipIdx.Nodup := by
  have hplaces : (rows.zipIdx.map Prod.snd).Nodup := by
    rw [List.zipIdx_map_snd]
    exact List.nodup_range'
  exact hplaces.of_map Prod.snd

theorem length_placedBefore (cut : Double) (rows : List Row) :
    (placedBefore cut rows).length = (rows.filter (Row.before cut)).length := by
  have hmap : ((placedBefore cut rows).map Prod.fst) = rows.filter (Row.before cut) := by
    conv_rhs => rw [← map_fst_zipIdx rows, List.filter_map]
    rfl
  rw [← hmap, List.length_map]

/-- As many as there are, and no more than the budget. -/
theorem length_oldestBefore (cut : Double) (budget : ℕ) (rows : List Row) :
    (oldestBefore cut budget rows).length =
      min budget (rows.filter (Row.before cut)).length := by
  rw [oldestBefore, List.length_take, List.length_mergeSort, ← length_placedBefore]
  rfl

theorem mem_oldestBefore {r : Row × ℕ} (h : r ∈ oldestBefore cut budget rows) :
    r ∈ placedBefore cut rows :=
  List.mem_mergeSort.mp (List.mem_of_mem_take h)

theorem nodup_oldestBefore (cut : Double) (budget : ℕ) (rows : List Row) :
    (oldestBefore cut budget rows).Nodup := by
  have hsorted : ((placedBefore cut rows).mergeSort fun a b => !b.1.ts.lt a.1.ts).Nodup :=
    (List.mergeSort_perm _ _).nodup_iff.mpr ((nodup_zipIdx rows).filter _)
  exact hsorted.sublist (List.take_sublist _ _)

theorem sublist_deleteRows (gone : List (Row × ℕ)) (rows : List Row) :
    (deleteRows gone rows).Sublist rows := by
  have hsub := (List.filter_sublist (p := fun r => r ∉ gone) (l := rows.zipIdx)).map Prod.fst
  rw [map_fst_zipIdx] at hsub
  exact hsub

/-- A row that is not before the time stays. -/
theorem kept_deleteRows (cut : Double) (budget : ℕ) (rows : List Row) :
    (deleteRows (oldestBefore cut budget rows) rows).filter (fun r => !r.before cut) =
      rows.filter fun r => !r.before cut := by
  conv_rhs => rw [← map_fst_zipIdx rows, List.filter_map]
  rw [deleteRows, List.filter_map, List.filter_filter]
  congr 1
  refine List.filter_congr fun r _ => ?_
  by_cases hgone : r ∈ oldestBefore cut budget rows
  · have hbefore := (List.mem_filter.mp (mem_oldestBefore hgone)).2
    simp [hbefore]
  · simp [hgone]

/-- The rows before the time are those that go and those that do not yet. -/
theorem left_deleteRows (cut : Double) (budget : ℕ) (rows : List Row) :
    ((deleteRows (oldestBefore cut budget rows) rows).filter (Row.before cut)).length +
      (oldestBefore cut budget rows).length = (rows.filter (Row.before cut)).length := by
  have hgone : ((placedBefore cut rows).filter fun r =>
      decide (r ∈ oldestBefore cut budget rows)).length = (oldestBefore cut budget rows).length := by
    refine List.Perm.length_eq ?_
    refine (List.perm_ext_iff_of_nodup (((nodup_zipIdx rows).filter _).filter _)
      (nodup_oldestBefore cut budget rows)).mpr fun r => ?_
    rw [List.mem_filter, decide_eq_true_eq, and_iff_right_iff_imp]
    exact mem_oldestBefore
  have hleft : ((deleteRows (oldestBefore cut budget rows) rows).filter (Row.before cut)).length =
      ((placedBefore cut rows).filter fun r =>
        !decide (r ∈ oldestBefore cut budget rows)).length := by
    rw [deleteRows, List.filter_map, List.length_map, placedBefore, List.filter_filter,
      List.filter_filter]
    congr 1
    refine List.filter_congr fun r _ => ?_
    simp [Bool.and_comm]
  have hsplit := List.length_eq_length_filter_add (l := placedBefore cut rows)
    fun r => decide (r ∈ oldestBefore cut budget rows)
  rw [length_placedBefore] at hsplit
  omega

/-! ## What a slice may do -/

/-- The module when it is not visited for a while. -/
def HistMod.later (m : HistMod) (now : Double) : HistMod :=
  { m with nextPrune := now.add mfHistoryPruneEveryS }

/-- A row is expired by a module's policy; a policy of zero expires none. -/
def HistMod.expires (m : HistMod) (now : Double) (r : Row) : Bool :=
  !Double.zero.ge (keepDaysOf m) && r.before (cutoff m now)

namespace Store

variable (st : Store)

/-- The rows in a module's file. -/
def rowsOf (m : HistMod) : List Row := (st.files (st.fileId m.uuid.str)).view.samples

/-- Those that its policy has expired. -/
def expired (m : HistMod) (now : Double) : List Row := (st.rowsOf m).filter (m.expires now)

/-- Those that it has not. -/
def unexpired (m : HistMod) (now : Double) : List Row :=
  (st.rowsOf m).filter fun r => !m.expires now r

/-- What is expired in a slot's module, when it is due. -/
def overdue (now : Double) (i : Fin mfHistoryMaxModules) : ℕ :=
  match st.dueAt i now with
  | some m => (st.expired m now).length
  | none => 0

/-- The rows of a slot's module. -/
def rowCount (i : Fin mfHistoryMaxModules) : ℕ :=
  match st.mods i with
  | some m => (st.rowsOf m).length
  | none => 0

/-- No two slots hold one module. -/
def Distinct : Prop :=
  ∀ i j m m', st.mods i = some m → st.mods j = some m' → m.uuid.str = m'.uuid.str → i = j

end Store

/-- What may become of a slot's module and its rows in slices at one time. -/
structure SlotThinned (st st' : Store) (now : Double) (i : Fin mfHistoryMaxModules)
    (m m' : HistMod) : Prop where
  slot : st'.mods i = some m'
  module_ : m' = m ∨ m' = m.later now ∧ st'.expired m now = []
  deleted : (st'.rowsOf m).Sublist (st.rowsOf m)
  kept : st'.unexpired m now = st.unexpired m now
  notDue : st.dueAt i now = none → m' = m ∧ st'.rowsOf m = st.rowsOf m

/-- What slices at one time may do. -/
structure Thinned (st st' : Store) (now : Double) : Prop where
  dir : st'.dir = st.dir
  isOpen : st'.isOpen = st.isOpen
  /-- The files of no module are as they were. -/
  others : ∀ file, (∀ i m, st.mods i = some m → file ≠ st.fileId m.uuid.str) →
    st'.files file = st.files file
  empty : ∀ i, st.mods i = none → st'.mods i = none
  slots : ∀ i m, st.mods i = some m → ∃ m', SlotThinned st st' now i m m'

variable {st st' st'' : Store} {now : Double} {i : Fin mfHistoryMaxModules} {m m' : HistMod}

theorem later_later (m : HistMod) (now : Double) : (m.later now).later now = m.later now := rfl

/-- A module that is only visited later has the same file and the same policy. -/
theorem SlotThinned.same (h : SlotThinned st st' now i m m') (st'' : Store) :
    m'.uuid = m.uuid ∧ st''.rowsOf m' = st''.rowsOf m ∧ st''.expired m' now = st''.expired m now ∧
      st''.unexpired m' now = st''.unexpired m now := by
  rcases h.module_ with rfl | ⟨rfl, -⟩
  · exact ⟨rfl, rfl, rfl, rfl⟩
  · exact ⟨rfl, rfl, rfl, rfl⟩

theorem Thinned.refl (st : Store) (now : Double) : Thinned st st now :=
  ⟨rfl, rfl, fun _ _ => rfl, fun _ h => h, fun _ m hm =>
    ⟨m, hm, Or.inl rfl, List.Sublist.refl _, rfl, fun _ => ⟨rfl, rfl⟩⟩⟩

theorem dueAt_of_mods (h : st'.mods i = st.mods i) : st'.dueAt i now = st.dueAt i now := by
  rw [Store.dueAt, h, ← Store.dueAt]

theorem Thinned.trans (h : Thinned st st' now) (h' : Thinned st' st'' now) :
    Thinned st st'' now := by
  refine ⟨h'.dir.trans h.dir, h'.isOpen.trans h.isOpen, ?_, fun i hi => h'.empty i (h.empty i hi), ?_⟩
  · intro file hfile
    rw [← h.others file hfile]
    refine h'.others file fun i m' hm' => ?_
    cases hm : st.mods i with
    | none => rw [h.empty i hm] at hm'; cases hm'
    | some m =>
      obtain ⟨m₁, h₁⟩ := h.slots i m hm
      have hm₁ : m₁ = m' := Option.some.inj (h₁.slot.symm.trans hm')
      have huuid := (h₁.same st).1
      rw [Store.fileId, ← hm₁, huuid, h.dir]
      exact hfile i m hm
  · intro i m hm
    obtain ⟨m', h₁⟩ := h.slots i m hm
    obtain ⟨m'', h₂⟩ := h'.slots i m' h₁.slot
    obtain ⟨-, hrows', hexpired', hkept'⟩ := h₁.same st'
    obtain ⟨-, hrows'', hexpired'', hkept''⟩ := h₁.same st''
    have hsub : (st''.rowsOf m).Sublist (st'.rowsOf m) := by
      rw [← hrows', ← hrows'']
      exact h₂.deleted
    refine ⟨m'', h₂.slot, ?_, hsub.trans h₁.deleted, ?_, ?_⟩
    · rcases h₁.module_ with rfl | ⟨rfl, hnone⟩
      · exact h₂.module_
      · have hnone' : st''.expired m now = [] := by
          have hle := hsub.filter (m.expires now)
          rw [← Store.expired, ← Store.expired, hnone] at hle
          exact List.sublist_nil.mp hle
        rcases h₂.module_ with rfl | ⟨rfl, -⟩
        · exact Or.inr ⟨rfl, hnone'⟩
        · exact Or.inr ⟨later_later m now, hnone'⟩
    · rw [← hkept'', h₂.kept, hkept', h₁.kept]
    · intro hdue
      obtain ⟨rfl, hrows⟩ := h₁.notDue hdue
      have hstill : st'.dueAt i now = none := by
        rw [← hdue]
        exact dueAt_of_mods (h₁.slot.trans hm.symm)
      obtain ⟨rfl, hrows₂⟩ := h₂.notDue hstill
      exact ⟨rfl, hrows₂.trans hrows⟩

theorem Thinned.distinct (h : Thinned st st' now) (hdist : st.Distinct) : st'.Distinct := by
  have hold : ∀ i m', st'.mods i = some m' → ∃ m, st.mods i = some m ∧ m'.uuid = m.uuid := by
    intro i m' hm'
    cases hm : st.mods i with
    | none => rw [h.empty i hm] at hm'; cases hm'
    | some m =>
      obtain ⟨m₁, h₁⟩ := h.slots i m hm
      refine ⟨m, rfl, ?_⟩
      rw [← Option.some.inj (h₁.slot.symm.trans hm')]
      exact (h₁.same st).1
  intro i j m m' hm hm' huuid
  obtain ⟨m₁, hm₁, hu₁⟩ := hold i m hm
  obtain ⟨m₂, hm₂, hu₂⟩ := hold j m' hm'
  exact hdist i j m₁ m₂ hm₁ hm₂ (by rw [← hu₁, ← hu₂, huuid])

/-! ## Counting -/

theorem length_rowsOf (st : Store) (m : HistMod) (now : Double) :
    (st.rowsOf m).length = (st.expired m now).length + (st.unexpired m now).length :=
  List.length_eq_length_filter_add _

theorem dueAt_eq_some {m : HistMod} (h : st.dueAt i now = some m) :
    st.mods i = some m ∧ m.captures = true ∧ now.lt m.nextPrune = false := by
  have hm := Option.filter_eq_some_iff.mp h
  simpa using hm

theorem dueAt_of {m : HistMod} (hm : st.mods i = some m) (hcap : m.captures = true)
    (htime : now.lt m.nextPrune = false) : st.dueAt i now = some m := by
  rw [Store.dueAt, hm]
  exact Option.filter_eq_some_iff.mpr ⟨rfl, by simp [hcap, htime]⟩

/-- A slot loses as many rows as it has fewer overdue. -/
theorem Thinned.counts (h : Thinned st st' now) (i : Fin mfHistoryMaxModules) :
    st'.rowCount i + st.overdue now i = st.rowCount i + st'.overdue now i := by
  cases hm : st.mods i with
  | none =>
    have hm' := h.empty i hm
    simp only [Store.rowCount, Store.overdue, Store.dueAt, hm, hm', Option.filter_none]
  | some m =>
    obtain ⟨m', hslot⟩ := h.slots i m hm
    obtain ⟨-, hrows, hexpired, -⟩ := hslot.same st'
    have hcount : st.rowCount i = (st.rowsOf m).length := by rw [Store.rowCount, hm]
    have hcount' : st'.rowCount i = (st'.rowsOf m).length := by
      rw [Store.rowCount, hslot.slot, ← hrows]
    have hlen := length_rowsOf st m now
    have hlen' := length_rowsOf st' m now
    rw [hslot.kept] at hlen'
    cases hdue : st.dueAt i now with
    | none =>
      obtain ⟨rfl, hsame⟩ := hslot.notDue hdue
      have hdue' : st'.dueAt i now = none := by
        rw [← hdue]
        exact dueAt_of_mods (hslot.slot.trans hm.symm)
      rw [hcount, hcount', hsame, Store.overdue, Store.overdue, hdue, hdue']
    | some m₀ =>
      have hm₀ : m₀ = m := Option.some.inj ((dueAt_eq_some hdue).1.symm.trans hm)
      have hover : st.overdue now i = (st.expired m now).length := by
        rw [Store.overdue, hdue, ← hm₀]
      have hover' : st'.overdue now i = (st'.expired m now).length := by
        rcases hslot.module_ with rfl | ⟨rfl, hnone⟩
        · obtain ⟨-, hcap, htime⟩ := dueAt_eq_some hdue
          rw [hm₀] at hcap htime
          rw [Store.overdue, dueAt_of hslot.slot hcap htime]
        · rw [hnone, Store.overdue]
          split
          · next hdue' =>
            rw [← Option.some.inj (hslot.slot.symm.trans (dueAt_eq_some hdue').1), hexpired, hnone]
          · rfl
      omega

/-! ## One module -/

theorem expires_of_forever (h : Double.zero.ge (keepDaysOf m) = true) (now : Double) :
    m.expires now = fun _ => false := by
  funext r
  rw [HistMod.expires, h, Bool.not_true, Bool.false_and]

theorem expires_of_policy (h : Double.zero.ge (keepDaysOf m) = false) (now : Double) :
    m.expires now = Row.before (cutoff m now) := by
  funext r
  rw [HistMod.expires, h, Bool.not_false, Bool.true_and]

/-- Modules in two slots have two files. -/
theorem fileId_ne (hdist : st.Distinct) {j : Fin mfHistoryMaxModules} {m₁ : HistMod}
    (hm : st.mods i = some m) (hm₁ : st.mods j = some m₁) (hne : j ≠ i) :
    st.fileId m₁.uuid.str ≠ st.fileId m.uuid.str := by
  intro heq
  exact hne (hdist j i m₁ m hm₁ hm (Prod.mk.inj heq).2)

/-- The store is thinned when only one slot and its file are touched, as a visit may. -/
theorem thinned_of_slot (hdist : st.Distinct) (hm : st.mods i = some m)
    (hdir : st'.dir = st.dir) (hopen : st'.isOpen = st.isOpen)
    (hmods : ∀ j, j ≠ i → st'.mods j = st.mods j)
    (hfiles : ∀ file, file ≠ st.fileId m.uuid.str → st'.files file = st.files file)
    (hdue : st.dueAt i now = some m) (hslot : SlotThinned st st' now i m m') :
    Thinned st st' now := by
  refine ⟨hdir, hopen, fun file hfile => hfiles file (hfile i m hm), ?_, ?_⟩
  · intro j hj
    have hji : j ≠ i := by
      rintro rfl
      rw [hm] at hj
      cases hj
    rw [hmods j hji, hj]
  · intro j m₁ hm₁
    by_cases hji : j = i
    · subst hji
      obtain rfl : m = m₁ := Option.some.inj (hm.symm.trans hm₁)
      exact ⟨m', hslot⟩
    · have hrows : st'.rowsOf m₁ = st.rowsOf m₁ := by
        rw [Store.rowsOf, Store.fileId, hdir]
        rw [← Store.fileId, hfiles _ (fileId_ne hdist hm hm₁ hji), ← Store.rowsOf]
      refine ⟨m₁, (hmods j hji).trans hm₁, Or.inl rfl, ?_, ?_, fun _ => ⟨rfl, hrows⟩⟩
      · rw [hrows]
      · rw [Store.unexpired, hrows, ← Store.unexpired]

/-- What a visit does: it deletes what is expired of the module, up to the budget. -/
structure Visited (st st' : Store) (now : Double) (i : Fin mfHistoryMaxModules) (m : HistMod)
    (budget n : ℕ) : Prop where
  thinned : Thinned st st' now
  count : n = min budget (st.expired m now).length
  left : (st'.expired m now).length + n = (st.expired m now).length
  otherSlots : ∀ j, j ≠ i → st'.mods j = st.mods j
  otherFiles : ∀ file, file ≠ st.fileId m.uuid.str → st'.files file = st.files file

theorem rowsOf_onFile (st : Store) (m : HistMod) (change : ModFile → ModFile) :
    (st.onFile m.uuid.str fun f => f.write change).rowsOf m =
      (change (st.files (st.fileId m.uuid.str)).view).samples := by
  rw [Store.rowsOf]
  dsimp only [Store.onFile, Store.fileId]
  rw [Function.update_self, TxnFile.view_write]

theorem pruneModule_visited (hdist : st.Distinct) (hdue : st.dueAt i now = some m) (budget : ℕ) :
    Visited st (st.pruneModule i m now budget).1 now i m budget
      (st.pruneModule i m now budget).2 := by
  obtain ⟨hm, -, -⟩ := dueAt_eq_some hdue
  have hself := fun st' : Store => st'.mods_setMod_self i (some (m.later now))
  have hother : ∀ st' : Store, ∀ j, j ≠ i →
      (st'.setMod i (some (m.later now))).mods j = st'.mods j :=
    fun st' j hj => st'.mods_setMod_of_ne hj _
  have hno : ¬st.dueAt i now = none := by simp [hdue]
  unfold Store.pruneModule
  by_cases hforever : Double.zero.ge (keepDaysOf m) = true
  · have hnone : st.expired m now = [] := by
      rw [Store.expired, expires_of_forever hforever, List.filter_false]
    have hthinned : Thinned st (st.setMod i (some (m.later now))) now :=
      thinned_of_slot hdist hm rfl rfl (hother st) (fun _ _ => rfl) hdue
        ⟨hself st, Or.inr ⟨rfl, hnone⟩, List.Sublist.refl _, rfl, fun h => absurd h hno⟩
    rw [if_pos hforever]
    have hleft : ((st.setMod i (some (m.later now))).expired m now).length + 0 =
      (st.expired m now).length := rfl
    exact ⟨hthinned, by rw [hnone, List.length_nil, Nat.min_zero], hleft, hother st, fun _ _ => rfl⟩
  · rw [Bool.not_eq_true] at hforever
    rw [if_neg (by simp [hforever])]
    let gone := oldestBefore (cutoff m now) budget (st.rowsOf m)
    let pruned := st.onFile m.uuid.str fun f =>
      f.write fun c => { c with samples := deleteRows gone c.samples }
    have hrows : pruned.rowsOf m = deleteRows gone (st.rowsOf m) := rowsOf_onFile st m _
    have hexp := expires_of_policy hforever now
    have hleft : (pruned.expired m now).length + gone.length = (st.expired m now).length := by
      rw [Store.expired, Store.expired, hrows, hexp]
      exact left_deleteRows (cutoff m now) budget (st.rowsOf m)
    have hkept : pruned.unexpired m now = st.unexpired m now := by
      rw [Store.unexpired, Store.unexpired, hrows, hexp]
      exact kept_deleteRows (cutoff m now) budget (st.rowsOf m)
    have hsub : (pruned.rowsOf m).Sublist (st.rowsOf m) := by
      rw [hrows]
      exact sublist_deleteRows gone _
    have hcount : gone.length = min budget (st.expired m now).length := by
      rw [Store.expired, hexp]
      exact length_oldestBefore (cutoff m now) budget (st.rowsOf m)
    have hfiles : ∀ file, file ≠ st.fileId m.uuid.str → pruned.files file = st.files file :=
      fun file hfile => Function.update_of_ne hfile _ _
    by_cases hfew : gone.length < budget
    · have hnone : pruned.expired m now = [] := List.length_eq_zero_iff.mp (by omega)
      have hthinned : Thinned st (pruned.setMod i (some (m.later now))) now :=
        thinned_of_slot hdist hm rfl rfl (hother pruned) hfiles hdue
          ⟨hself pruned, Or.inr ⟨rfl, hnone⟩, hsub, hkept, fun h => absurd h hno⟩
      have hresult : Visited st (pruned.setMod i (some (m.later now))) now i m budget gone.length :=
        ⟨hthinned, hcount, hleft, hother pruned, hfiles⟩
      have hif : (if gone.length < budget then pruned.setMod i (some (m.later now)) else pruned) =
        pruned.setMod i (some (m.later now)) := if_pos hfew
      rw [← hif] at hresult
      exact hresult
    · have hthinned : Thinned st pruned now :=
        thinned_of_slot hdist hm rfl rfl (fun _ _ => rfl) hfiles hdue
          ⟨hm, Or.inl rfl, hsub, hkept, fun h => absurd h hno⟩
      have hresult : Visited st pruned now i m budget gone.length :=
        ⟨hthinned, hcount, hleft, fun _ _ => rfl, hfiles⟩
      have hif : (if gone.length < budget then pruned.setMod i (some (m.later now)) else pruned) =
        pruned := if_neg hfew
      rw [← hif] at hresult
      exact hresult

theorem overdue_of_due (hdue : st.dueAt i now = some m) :
    st.overdue now i = (st.expired m now).length := by
  rw [Store.overdue, hdue]

/-- What is overdue in the slot is then what the visit leaves. -/
theorem Visited.overdue {budget n : ℕ} (h : Visited st st' now i m budget n)
    (hdue : st.dueAt i now = some m) : st'.overdue now i + n = st.overdue now i := by
  have hcounts := h.thinned.counts i
  obtain ⟨hm, hcap, htime⟩ := dueAt_eq_some hdue
  obtain ⟨m', hslot⟩ := h.thinned.slots i m hm
  obtain ⟨-, hrows, -, -⟩ := hslot.same st'
  have hlen := length_rowsOf st m now
  have hlen' := length_rowsOf st' m now
  have hkept := hslot.kept
  have hleft := h.left
  have hcount : st.rowCount i = (st.rowsOf m).length := by rw [Store.rowCount, hm]
  have hcount' : st'.rowCount i = (st'.rowsOf m).length := by
    rw [Store.rowCount, hslot.slot, ← hrows]
  rw [hkept] at hlen'
  have hover := overdue_of_due hdue
  omega

theorem Visited.overdue_ne {budget n : ℕ} (h : Visited st st' now i m budget n)
    (hdist : st.Distinct) (hm : st.mods i = some m) {j : Fin mfHistoryMaxModules} (hj : j ≠ i) :
    st'.overdue now j = st.overdue now j := by
  have hdue' : st'.dueAt j now = st.dueAt j now := dueAt_of_mods (h.otherSlots j hj)
  rw [Store.overdue, Store.overdue, hdue']
  cases hdue : st.dueAt j now with
  | none => rfl
  | some m₁ =>
    have hm₁ := (dueAt_eq_some hdue).1
    have hrows : st'.rowsOf m₁ = st.rowsOf m₁ := by
      rw [Store.rowsOf, Store.fileId, h.thinned.dir]
      rw [← Store.fileId, h.otherFiles _ (fileId_ne hdist hm hm₁ hj), ← Store.rowsOf]
    dsimp only
    rw [Store.expired, hrows, ← Store.expired]

/-! ## One slice -/

namespace Store

/-- What is overdue in all modules. -/
def totalOverdue (st : Store) (now : Double) : ℕ := ∑ i, st.overdue now i

/-- The rows of all modules. -/
def totalRows (st : Store) : ℕ := ∑ i, st.rowCount i

end Store

/-- What holds in the loop of a slice, when some slots have been seen. -/
structure Sliced (st : Store) (now : Double) (budget : ℕ) (seen : List (Fin mfHistoryMaxModules))
    (p : Pruned) : Prop where
  thinned : Thinned st p.store now
  total : p.store.totalOverdue now + p.done = st.totalOverdue now
  room : p.done ≤ budget
  /-- While there is budget left the modules seen have nothing overdue. -/
  finished : p.done < budget → ∀ i ∈ seen, p.store.overdue now i = 0
  visited : ∀ i ∈ p.visited, ∃ m, st.dueAt i now = some m
  untouched : ∀ i, i ∉ p.visited → p.store.mods i = st.mods i

theorem sum_of_one {f g : Fin mfHistoryMaxModules → ℕ} {n : ℕ} (hi : f i + n = g i)
    (hne : ∀ j, j ≠ i → f j = g j) : ∑ j, f j + n = ∑ j, g j := by
  have hrest : ∑ j ∈ Finset.univ.erase i, f j = ∑ j ∈ Finset.univ.erase i, g j :=
    Finset.sum_congr rfl fun j hj => hne j (Finset.ne_of_mem_erase hj)
  rw [← Finset.add_sum_erase _ f (Finset.mem_univ i), ← Finset.add_sum_erase _ g (Finset.mem_univ i),
    hrest]
  omega

/-- A module that is due in the loop was due before it. -/
theorem Thinned.due (h : Thinned st st' now) (hdue : st'.dueAt i now = some m') :
    ∃ m, st.dueAt i now = some m := by
  cases hm : st.dueAt i now with
  | some m => exact ⟨m, rfl⟩
  | none =>
    cases hslot : st.mods i with
    | none =>
      have hempty := h.empty i hslot
      rw [(dueAt_eq_some hdue).1] at hempty
      cases hempty
    | some m =>
      obtain ⟨m₁, hthin⟩ := h.slots i m hslot
      obtain ⟨rfl, -⟩ := hthin.notDue hm
      rw [dueAt_of_mods (hthin.slot.trans hslot.symm), hm] at hdue
      cases hdue

theorem Sliced.round {budget : ℕ} {seen : List (Fin mfHistoryMaxModules)} {p : Pruned}
    (h : Sliced st now budget seen p) (hdist : st.Distinct) (i : Fin mfHistoryMaxModules) :
    Sliced st now budget (seen ++ [i]) (pruneRound now budget p i) := by
  unfold pruneRound
  by_cases hroom : p.done < budget
  · rw [if_pos hroom]
    cases hdue : p.store.dueAt i now with
    | none =>
      refine ⟨h.thinned, h.total, h.room, fun _ j hj => ?_, h.visited, h.untouched⟩
      rcases List.mem_append.mp hj with hseen | hnew
      · exact h.finished hroom j hseen
      · rw [List.mem_singleton.mp hnew, Store.overdue, hdue]
    | some m =>
      have hdist' := h.thinned.distinct hdist
      have hm := (dueAt_eq_some hdue).1
      have hvisit := pruneModule_visited hdist' hdue (budget - p.done)
      have hself := hvisit.overdue hdue
      have hothers := fun j (hj : j ≠ i) => hvisit.overdue_ne hdist' hm hj
      have hcount := hvisit.count
      have hover := overdue_of_due hdue
      have htotal := sum_of_one hself hothers
      refine ⟨h.thinned.trans hvisit.thinned, ?_, ?_, ?_, ?_, ?_⟩
      · have hbefore := h.total
        dsimp only [Store.totalOverdue] at hbefore ⊢
        omega
      · dsimp only
        omega
      · intro hleft j hj
        dsimp only at hleft ⊢
        by_cases hji : j = i
        · subst hji
          omega
        · rcases List.mem_append.mp hj with hseen | hnew
          · rw [hothers j hji]
            exact h.finished hroom j hseen
          · exact absurd (List.mem_singleton.mp hnew) hji
      · intro j hj
        rcases List.mem_append.mp hj with hold | hnew
        · exact h.visited j hold
        · rw [List.mem_singleton.mp hnew]
          exact h.thinned.due hdue
      · intro j hj
        rw [List.mem_append, List.mem_singleton, not_or] at hj
        exact (hvisit.otherSlots j hj.2).trans (h.untouched j hj.1)
  · rw [if_neg hroom]
    exact ⟨h.thinned, h.total, h.room, fun hleft => absurd hleft hroom, h.visited, h.untouched⟩

theorem Sliced.rounds {budget : ℕ} (hdist : st.Distinct) (slots : List (Fin mfHistoryMaxModules))
    {seen : List (Fin mfHistoryMaxModules)} {p : Pruned} (h : Sliced st now budget seen p) :
    Sliced st now budget (seen ++ slots) (slots.foldl (pruneRound now budget) p) := by
  induction slots generalizing seen p with
  | nil => rw [List.append_nil]; exact h
  | cons i slots ih =>
    rw [List.foldl_cons, List.append_cons]
    exact ih (h.round hdist i)

theorem sliced_start (st : Store) (now : Double) (budget : ℕ) :
    Sliced st now budget [] ⟨st, 0, []⟩ :=
  ⟨Thinned.refl st now, Nat.add_zero _, Nat.zero_le _, fun _ _ hi => (by cases hi),
    fun _ hi => (by cases hi), fun _ _ => rfl⟩

/-- What a slice does. -/
theorem pruneSlice_sliced (hdist : st.Distinct) (now : Double) (maxRows : ℤ) :
    ∃ seen, Sliced st now maxRows.toNat seen (pruneSlice st now maxRows) ∧
      (st.isOpen = true → 0 < maxRows → ∀ i, i ∈ seen) := by
  unfold pruneSlice
  split
  · next hno =>
    refine ⟨[], sliced_start st now _, fun hopen hpos => ?_⟩
    rcases hno with hclosed | hneg
    · rw [hopen] at hclosed
      cases hclosed
    · omega
  · have hall := (sliced_start st now maxRows.toNat).rounds hdist (List.finRange mfHistoryMaxModules)
    exact ⟨_, hall, fun _ _ i => List.mem_append_right _ (List.mem_finRange i)⟩

/-- An open history's slice deletes the smaller of its budget and of what is overdue. -/
theorem pruneSlice_done (hdist : st.Distinct) (hopen : st.isOpen = true) (now : Double)
    {maxRows : ℤ} (hpos : 0 < maxRows) :
    (pruneSlice st now maxRows).done = min maxRows.toNat (st.totalOverdue now) := by
  obtain ⟨seen, hsliced, hseen⟩ := pruneSlice_sliced hdist now maxRows
  have htotal := hsliced.total
  have hroom := hsliced.room
  rcases Nat.lt_or_eq_of_le hroom with hless | hfull
  · have hzero : (pruneSlice st now maxRows).store.totalOverdue now = 0 :=
      Finset.sum_eq_zero fun i _ => hsliced.finished hless i (hseen hopen hpos i)
    omega
  · omega

/-! ## Slices at one time -/

/-- The store after some slices at one time. -/
def slicesAt (st : Store) (now : Double) (maxRows : ℤ) : ℕ → Store
  | 0 => st
  | k + 1 => (pruneSlice (slicesAt st now maxRows k) now maxRows).store

theorem thinned_slicesAt (hdist : st.Distinct) (now : Double) (maxRows : ℤ) (k : ℕ) :
    Thinned st (slicesAt st now maxRows k) now := by
  induction k with
  | zero => exact Thinned.refl st now
  | succ k ih =>
    obtain ⟨seen, hsliced, -⟩ := pruneSlice_sliced (ih.distinct hdist) now maxRows
    exact ih.trans hsliced.thinned

/-- What is overdue goes down by the budget with each slice. -/
theorem overdue_slicesAt (hdist : st.Distinct) (hopen : st.isOpen = true) (now : Double)
    {maxRows : ℤ} (hpos : 0 < maxRows) (k : ℕ) :
    (slicesAt st now maxRows k).totalOverdue now = st.totalOverdue now - k * maxRows.toNat := by
  induction k with
  | zero => simp [slicesAt]
  | succ k ih =>
    have hthinned := thinned_slicesAt hdist now maxRows k
    have hdone := pruneSlice_done (hthinned.distinct hdist) (hthinned.isOpen.trans hopen) now hpos
    obtain ⟨seen, hsliced, -⟩ := pruneSlice_sliced (hthinned.distinct hdist) now maxRows
    have htotal := hsliced.total
    rw [slicesAt, Nat.add_mul, Nat.one_mul]
    omega

theorem totalRows_of_thinned (h : Thinned st st' now) :
    st'.totalRows + st.totalOverdue now = st.totalRows + st'.totalOverdue now := by
  rw [Store.totalRows, Store.totalRows, Store.totalOverdue, Store.totalOverdue,
    ← Finset.sum_add_distrib, ← Finset.sum_add_distrib]
  exact Finset.sum_congr rfl fun i _ => h.counts i

/-- With nothing overdue left, the modules that were due have lost what was expired. -/
theorem Thinned.pruned (h : Thinned st st' now) (hnone : st'.totalOverdue now = 0)
    (hdue : st.dueAt i now = some m) : st'.rowsOf m = st.unexpired m now := by
  obtain ⟨hm, hcap, htime⟩ := dueAt_eq_some hdue
  obtain ⟨m', hslot⟩ := h.slots i m hm
  have hexpired : st'.expired m now = [] := by
    rcases hslot.module_ with rfl | ⟨-, hgone⟩
    · have hzero := Finset.sum_eq_zero_iff.mp hnone i (Finset.mem_univ i)
      rw [overdue_of_due (dueAt_of hslot.slot hcap htime)] at hzero
      exact List.length_eq_zero_iff.mp hzero
    · exact hgone
  rw [← hslot.kept]
  refine (List.filter_eq_self.mpr fun r hr => ?_).symm
  by_contra hexp
  have hmem : r ∈ st'.expired m now := List.mem_filter.mpr ⟨hr, by simpa using hexp⟩
  rw [hexpired] at hmem
  cases hmem

/-! ## Runs -/

/-- What a module's last visit left of what was expired then. -/
structure Visit where
  atTime : Double
  left : List Row

/-- A store, and the last visit of each module that is registered. -/
structure Watched where
  store : Store
  visits : Fin mfHistoryMaxModules → Option Visit

/-- What happens to a history that prunes. -/
inductive PruneEvent where
  | call (c : HistCall)
  | setRetention (uuid : CString) (days : Double)
  | prune (now : Double) (maxRows : ℤ)

/-- What an event leaves. -/
def watchStep (w : Watched) : PruneEvent → Watched
  | .call c =>
    let st := histStep w.store c
    ⟨st, fun i => if (st.mods i).isSome then w.visits i else none⟩
  | .setRetention uuid days => ⟨(w.store.setRetention uuid days).1, w.visits⟩
  | .prune now maxRows =>
    let p := pruneSlice w.store now maxRows
    ⟨p.store, fun i =>
      if i ∈ p.visited then (p.store.mods i).map fun m => ⟨now, p.store.expired m now⟩
      else w.visits i⟩

/-- The modules of a store are those of another, and none of them is due later. -/
def Follows (st st' : Store) : Prop :=
  ∀ i m', st'.mods i = some m' → ∃ m, st.mods i = some m ∧ m'.uuid = m.uuid ∧
    (m'.nextPrune = m.nextPrune ∨ m'.nextPrune = Double.zero)

theorem Follows.refl (st : Store) : Follows st st := fun _ m hm => ⟨m, hm, rfl, Or.inl rfl⟩

theorem follows_of_mods (h : st'.mods = st.mods) : Follows st st' := by
  intro i m' hm'
  rw [h] at hm'
  exact ⟨m', hm', rfl, Or.inl rfl⟩

theorem Follows.trans (h : Follows st st') (h' : Follows st' st'') : Follows st st'' := by
  intro i m'' hm''
  obtain ⟨m', hm', huuid', hnext'⟩ := h' i m'' hm''
  obtain ⟨m, hm, huuid, hnext⟩ := h i m' hm'
  refine ⟨m, hm, huuid'.trans huuid, ?_⟩
  rcases hnext' with hnext' | hzero
  · rw [hnext']
    exact hnext
  · exact Or.inr hzero

theorem follows_setMod (hm : st.mods i = some m) (huuid : m'.uuid = m.uuid)
    (hnext : m'.nextPrune = m.nextPrune ∨ m'.nextPrune = Double.zero) :
    Follows st (st.setMod i (some m')) := by
  intro j m₁ hm₁
  by_cases hj : j = i
  · subst hj
    rw [st.mods_setMod_self, Option.some_inj] at hm₁
    subst hm₁
    exact ⟨m, hm, huuid, hnext⟩
  · rw [st.mods_setMod_of_ne hj] at hm₁
    exact ⟨m₁, hm₁, rfl, Or.inl rfl⟩

theorem Follows.distinct (h : Follows st st') (hdist : st.Distinct) : st'.Distinct := by
  intro i j m m' hm hm' huuid
  obtain ⟨m₁, hm₁, hu₁, -⟩ := h i m hm
  obtain ⟨m₂, hm₂, hu₂, -⟩ := h j m' hm'
  exact hdist i j m₁ m₂ hm₁ hm₂ (by rw [← hu₁, ← hu₂, huuid])

theorem follows_commitSlots (slots : List (Fin mfHistoryMaxModules)) (st : Store) :
    Follows st (slots.foldl Store.commitSlot st) := by
  induction slots generalizing st with
  | nil => exact Follows.refl st
  | cons i slots ih =>
    refine Follows.trans ?_ (ih (st.commitSlot i))
    unfold Store.commitSlot
    split
    · next m hm =>
      split
      · exact (follows_of_mods rfl).trans (follows_setMod hm rfl (Or.inl rfl))
      · exact Follows.refl st
    · exact Follows.refl st

theorem follows_flushOne (st : Store) : Follows st st.flushOne := by
  unfold Store.flushOne
  dsimp only
  refine Follows.trans ?_ (follows_of_mods rfl)
  split
  · split
    · next i _ _ m hm =>
      split
      · next ins _ =>
        have hbegun : (st.begun m).mods = st.mods := by
          unfold Store.begun
          split <;> rfl
        have hm' : ((st.begun m).onFile m.uuid.str (Store.addRow (sampleRow ins m.cols
            st.ring.front.ts st.ring.front.online st.ring.front.reading.str []))).mods i =
            some m := by
          rw [← hm, ← hbegun]
          rfl
        exact (follows_of_mods hbegun).trans
          ((follows_of_mods rfl).trans (follows_setMod hm' rfl (Or.inl rfl)))
      · exact Follows.refl st
    · exact Follows.refl st
  · exact Follows.refl st

theorem follows_flushLoop (rows : ℕ) (st : Store) : Follows st (Store.flushLoop rows st) := by
  induction rows generalizing st with
  | zero => exact Follows.refl st
  | succ rows ih =>
    unfold Store.flushLoop
    split
    · exact Follows.refl st
    · exact (follows_flushOne st).trans (ih st.flushOne)

theorem follows_flushSlice (st : Store) (maxRows : ℤ) : Follows st (st.flushSlice maxRows).1 := by
  unfold Store.flushSlice
  split
  · exact Follows.refl st
  · exact (follows_flushLoop _ st).trans (follows_commitSlots _ _)

theorem follows_enqueue (st : Store) (s : Sample) : Follows st (st.enqueue s).1 := by
  unfold Store.enqueue
  split
  · exact Follows.refl st
  split
  · exact Follows.refl st
  split
  · exact Follows.refl st
  next i _ _ m hm =>
  split
  · exact Follows.refl st
  split
  · exact Follows.refl st
  have hset : Follows st (st.setMod i (some { m with lastTs := s.ts })) :=
    follows_setMod hm rfl (Or.inl rfl)
  dsimp only
  split
  · exact hset.trans (follows_of_mods rfl)
  · exact hset.trans (follows_of_mods rfl)

/-- A registration writes its slot. -/
theorem mods_registerAt (st : Store) (i : Fin mfHistoryMaxModules) (m : HistMod)
    (uuid name kind driver capture : CString) (e : HistEnv) :
    ∃ m', m'.uuid = m.uuid ∧ m'.nextPrune = Double.zero ∧
      (st.registerAt i m uuid name kind driver capture e).mods = (st.setMod i (some m')).mods := by
  unfold Store.registerAt
  refine ⟨{ Store.dueNow (Store.takeSpec m kind (parseSpec capture)) with
    ins := some (Store.takeSpec m kind (parseSpec capture)).cols }, ?_, rfl, ?_⟩
  · exact (takeSpec_same m kind (parseSpec capture)).1
  · rw [(describe_same _ _ _ _ _ _ _).1]
    cases parseSpec capture <;> rfl

theorem follows_setRetention (st : Store) (uuid : CString) (days : Double) :
    Follows st (st.setRetention uuid days).1 := by
  unfold Store.setRetention
  split
  · exact Follows.refl st
  split
  · exact Follows.refl st
  next i _ _ m hm =>
  split
  · exact Follows.refl st
  · have hset : Follows st (st.setMod i (some (m.keepFor days))) :=
      follows_setMod hm rfl (Or.inr rfl)
    exact hset.trans (follows_of_mods (mods_setMeta _ _ _ _))

/-- Registering a module is for one that is there, or takes a slot that is free. -/
theorem register_cases (st : Store) (uuid name kind driver capture : CString) (e : HistEnv) :
    Follows st (st.register uuid name kind driver capture e).1 ∨
      ∃ i m', st.mods i = none ∧ st.findMod uuid = none ∧ m'.uuid.str = uuid ∧
        (st.register uuid name kind driver capture e).1.mods = (st.setMod i (some m')).mods := by
  unfold Store.register
  split
  · exact Or.inl (Follows.refl st)
  next hgood =>
  split
  · left
    split
    · next i _ _ m hm =>
      obtain ⟨m', huuid, hnext, hmods⟩ := mods_registerAt st i m uuid name kind driver capture e
      exact (follows_setMod hm huuid (Or.inr hnext)).trans (follows_of_mods hmods)
    · exact Follows.refl st
  · next hfind =>
    split
    · next i hfree =>
      obtain ⟨m', huuid, -, hmods⟩ :=
        mods_registerAt st i (Store.newMod uuid) uuid name kind driver capture e
      have hlen : uuid.length < 40 := by
        simp only [safeUuid, Bool.not_eq_true', not_or, Bool.not_eq_false, Bool.and_eq_true,
          decide_eq_true_eq] at hgood
        exact hgood.2.1.2
      have hnone := List.find?_some hfree
      refine Or.inr ⟨i, m', by simpa using hnone, hfind, ?_, hmods⟩
      rw [huuid]
      exact CBuf.str_copy_of_lt hlen
    · exact Or.inl (Follows.refl st)

/-- A module in a free slot is there only once. -/
theorem distinct_setMod (hdist : st.Distinct) (hfind : st.findMod m'.uuid.str = none) :
    (st.setMod i (some m')).Distinct := by
  have hother : ∀ j m, j ≠ i → (st.setMod i (some m')).mods j = some m →
      m.uuid.str ≠ m'.uuid.str := by
    intro j m hj hm huuid
    rw [st.mods_setMod_of_ne hj] at hm
    obtain ⟨k, hk⟩ := findMod_of_exists hm huuid
    rw [hfind] at hk
    cases hk
  have hself := st.mods_setMod_self i (some m')
  intro j k m₁ m₂ hm₁ hm₂ huuid
  by_cases hj : j = i
  · by_cases hk : k = i
    · rw [hj, hk]
    · rw [hj, hself, Option.some_inj] at hm₁
      exact absurd (huuid.symm.trans (by rw [hm₁])) (hother k m₂ hk hm₂)
  · by_cases hk : k = i
    · rw [hk, hself, Option.some_inj] at hm₂
      exact absurd (huuid.trans (by rw [hm₂])) (hother j m₁ hj hm₁)
    · rw [st.mods_setMod_of_ne hj] at hm₁
      rw [st.mods_setMod_of_ne hk] at hm₂
      exact hdist j k m₁ m₂ hm₁ hm₂ huuid

/-- A call of the history makes no module due later, or registers a new one. -/
theorem histStep_cases (st : Store) (c : HistCall) :
    Follows st (histStep st c) ∨
      ∃ i m', st.mods i = none ∧ st.findMod m'.uuid.str = none ∧
        (histStep st c).mods = (st.setMod i (some m')).mods := by
  have hgone : ∀ st' : Store, (∀ i, st'.mods i = none) → Follows st st' := by
    intro st' hnone i m' hm'
    rw [hnone i] at hm'
    cases hm'
  cases c with
  | open_ dir made =>
    left
    unfold histStep Store.open_
    dsimp only
    split
    · split
      · exact hgone _ fun _ => rfl
      · exact hgone _ fun _ => rfl
    · exact Follows.refl st
  | register uuid name kind driver capture e =>
    rcases register_cases st uuid name kind driver capture e with hfollows | hnew
    · exact Or.inl hfollows
    · obtain ⟨i, m', hfree, hfind, rfl, hmods⟩ := hnew
      exact Or.inr ⟨i, m', hfree, hfind, hmods⟩
  | enqueue s => exact Or.inl (follows_enqueue st s)
  | flushSlice maxRows => exact Or.inl (follows_flushSlice st maxRows)
  | retire uuid retiredTs =>
    left
    unfold histStep Store.retire
    dsimp only
    split
    · exact Follows.refl st
    · next i _ =>
      refine (follows_flushSlice st mfHistoryRingCap).trans fun j m hm => ?_
      unfold Store.closeMod at hm
      by_cases hj : j = i
      · subst hj
        rw [Store.mods_setMod_self] at hm
        cases hm
      · rw [Store.mods_setMod_of_ne _ hj, mods_setMeta] at hm
        exact ⟨m, hm, rfl, Or.inl rfl⟩
  | close => exact Or.inl (hgone _ fun _ => rfl)

/-- What holds of a history that is watched. -/
structure Watching (w : Watched) : Prop where
  distinct : w.store.Distinct
  fresh : ∀ i, w.store.mods i = none → w.visits i = none
  /-- A module whose last visit left something is due again at the time of that visit. -/
  due : ∀ i m v, w.store.mods i = some m → w.visits i = some v → v.left ≠ [] →
    m.nextPrune = Double.zero ∨ v.atTime.lt m.nextPrune = false

theorem Watching.follows {w : Watched} (h : Watching w) {st' : Store}
    (hfollows : Follows w.store st') {visits : Fin mfHistoryMaxModules → Option Visit}
    (hvisits : ∀ i, visits i = w.visits i ∨ visits i = none)
    (hfresh : ∀ i, st'.mods i = none → visits i = none) : Watching ⟨st', visits⟩ := by
  refine ⟨hfollows.distinct h.distinct, hfresh, fun i m' v hm' hv hleft => ?_⟩
  obtain ⟨m, hm, -, hnext⟩ := hfollows i m' hm'
  rcases hvisits i with hsame | hnone
  · rcases hnext with hnext | hzero
    · rw [hnext]
      exact h.due i m v hm (hsame ▸ hv) hleft
    · exact Or.inl hzero
  · dsimp only at hv
    rw [hnone] at hv
    cases hv

theorem Watching.call {w : Watched} (h : Watching w) (c : HistCall) :
    Watching (watchStep w (.call c)) := by
  have hvisits : ∀ i, (if ((histStep w.store c).mods i).isSome then w.visits i else none) =
      w.visits i ∨ (if ((histStep w.store c).mods i).isSome then w.visits i else none) = none := by
    intro i
    split
    · exact Or.inl rfl
    · exact Or.inr rfl
  have hfresh : ∀ i, (histStep w.store c).mods i = none →
      (if ((histStep w.store c).mods i).isSome then w.visits i else none) = none := by
    intro i hi
    rw [hi]
    rfl
  rcases histStep_cases w.store c with hfollows | hnew
  · exact h.follows hfollows hvisits hfresh
  · obtain ⟨i, m', hfree, hfind, hmods⟩ := hnew
    have hdist : (histStep w.store c).Distinct := by
      have hset := @distinct_setMod w.store i m' h.distinct hfind
      unfold Store.Distinct at hset ⊢
      rw [hmods]
      exact hset
    refine ⟨hdist, hfresh, fun j m v hm hv hleft => ?_⟩
    have hold : w.visits j = some v := by
      rcases hvisits j with hsame | hnone
      · exact hsame ▸ hv
      · exact absurd (hnone.symm.trans hv) (Option.some_ne_none v).symm
    dsimp only [watchStep] at hm
    rw [hmods] at hm
    by_cases hj : j = i
    · rw [hj, h.fresh i hfree] at hold
      cases hold
    · rw [w.store.mods_setMod_of_ne hj] at hm
      exact h.due j m v hm hold hleft

theorem Watching.setRetention {w : Watched} (h : Watching w) (uuid : CString) (days : Double) :
    Watching (watchStep w (.setRetention uuid days)) := by
  refine h.follows (follows_setRetention w.store uuid days) (fun _ => Or.inl rfl) fun i hi => ?_
  refine h.fresh i ?_
  revert hi
  unfold Store.setRetention
  split
  · exact id
  split
  · exact id
  next j _ _ m hm =>
  split
  · exact id
  · dsimp only
    rw [mods_setMeta]
    intro hi
    by_cases hij : i = j
    · subst hij
      rw [Store.mods_setMod_self] at hi
      cases hi
    · rw [Store.mods_setMod_of_ne _ hij] at hi
      exact hi

theorem Watching.prune {w : Watched} (h : Watching w) (now : Double) (maxRows : ℤ) :
    Watching (watchStep w (.prune now maxRows)) := by
  obtain ⟨seen, hsliced, -⟩ := pruneSlice_sliced h.distinct now maxRows
  refine ⟨hsliced.thinned.distinct h.distinct, fun i hi => ?_, fun i m v hm hv hleft => ?_⟩
  · dsimp only [watchStep] at hi ⊢
    split
    · rw [hi, Option.map_none]
    · next hmissed =>
      rw [hsliced.untouched i hmissed] at hi
      exact h.fresh i hi
  · dsimp only [watchStep] at hm hv
    split at hv
    · next hvisited =>
      rw [hm, Option.map_some, Option.some_inj] at hv
      subst hv
      obtain ⟨m₀, hdue⟩ := hsliced.visited i hvisited
      obtain ⟨hm₀, -, htime⟩ := dueAt_eq_some hdue
      obtain ⟨m₁, hslot⟩ := hsliced.thinned.slots i m₀ hm₀
      obtain rfl : m₁ = m := Option.some.inj (hslot.slot.symm.trans hm)
      rcases hslot.module_ with rfl | ⟨-, hnone⟩
      · exact Or.inr htime
      · rw [(hslot.same _).2.2.1, hnone] at hleft
        exact absurd rfl hleft
    · next hmissed =>
      rw [hsliced.untouched i hmissed] at hm
      exact h.due i m v hm hv hleft

theorem watching_step {w : Watched} (h : Watching w) (e : PruneEvent) : Watching (watchStep w e) := by
  cases e with
  | call c => exact h.call c
  | setRetention uuid days => exact h.setRetention uuid days
  | prune now maxRows => exact h.prune now maxRows

/-- The history before it is opened, with no visit yet. -/
def watchedStart (files : FileId → ModFile) : Watched := ⟨closedStore files, fun _ => none⟩

theorem watching_start (files : FileId → ModFile) : Watching (watchedStart files) :=
  ⟨fun _ _ _ _ hm => (by cases hm), fun _ _ => rfl, fun _ _ _ hm => (by cases hm)⟩

theorem watching_run (files : FileId → ModFile) (events : List PruneEvent) :
    Watching (run watchStep (watchedStart files) events) :=
  @invariant_run _ _ _ Watching (fun _ _ => True) (fun _ e h _ => watching_step h e) _
    (watching_start files) events (along_of_mem _ fun _ _ => trivial)

/-! ## What slices do -/

/-- Slices delete exactly what is expired, from any state on. -/
structure PrunesExactly (st : Store) : Prop where
  /-- Only rows that their own module's policy has expired go. -/
  policy : ∀ now maxRows i m, st.mods i = some m →
    ((pruneSlice st now maxRows).store.rowsOf m).Sublist (st.rowsOf m) ∧
      (pruneSlice st now maxRows).store.unexpired m now = st.unexpired m now
  /-- The files of modules that are not registered are left alone. -/
  others : ∀ now maxRows file, (∀ i m, st.mods i = some m → file ≠ st.fileId m.uuid.str) →
    (pruneSlice st now maxRows).store.files file = st.files file
  budget : ∀ now maxRows, (pruneSlice st now maxRows).done ≤ maxRows.toNat
  /-- The rows reported are those that are gone. -/
  counted : ∀ now maxRows,
    (pruneSlice st now maxRows).store.totalRows + (pruneSlice st now maxRows).done = st.totalRows
  /-- A module with policy zero loses nothing. -/
  forever : ∀ now maxRows i m, st.mods i = some m → keepDaysOf m = Double.zero →
    (pruneSlice st now maxRows).store.rowsOf m = st.rowsOf m
  /-- Enough slices at one time delete all that is expired in the modules that are due then,
  nothing in the others, and nothing more. -/
  repeated : ∀ now maxRows k, st.isOpen = true → 0 < maxRows →
    st.totalOverdue now ≤ k * maxRows.toNat →
    (∀ i m, st.mods i = some m → (slicesAt st now maxRows k).rowsOf m =
      if (st.dueAt i now).isSome then st.unexpired m now else st.rowsOf m) ∧
    (pruneSlice (slicesAt st now maxRows k) now maxRows).done = 0

/-- A capturing module whose last visit left rows that were expired then is due from that
visit on. -/
def StaysDue (w : Watched) : Prop :=
  ∀ i m v now, w.store.mods i = some m → m.captures = true → w.visits i = some v → v.left ≠ [] →
    now.ge v.atTime = true → now.ge Double.zero = true → w.store.dueAt i now = some m

theorem unexpired_of_forever (hforever : Double.zero.ge (keepDaysOf m) = true) (st : Store)
    (now : Double) : st.unexpired m now = st.rowsOf m := by
  rw [Store.unexpired, expires_of_forever hforever]
  exact List.filter_true _

theorem repeated_of_distinct (hdist : st.Distinct) (hopen : st.isOpen = true) (now : Double)
    {maxRows : ℤ} (hpos : 0 < maxRows) {k : ℕ} (henough : st.totalOverdue now ≤ k * maxRows.toNat) :
    (∀ i m, st.mods i = some m → (slicesAt st now maxRows k).rowsOf m =
      if (st.dueAt i now).isSome then st.unexpired m now else st.rowsOf m) ∧
    (pruneSlice (slicesAt st now maxRows k) now maxRows).done = 0 := by
  have hthinned := thinned_slicesAt hdist now maxRows k
  have hleft := overdue_slicesAt hdist hopen now hpos k
  rw [Nat.sub_eq_zero_of_le henough] at hleft
  constructor
  · intro i m hm
    cases hdue : st.dueAt i now with
    | none =>
      obtain ⟨m', hslot⟩ := hthinned.slots i m hm
      exact (hslot.notDue hdue).2
    | some m₀ =>
      obtain rfl : m₀ = m := Option.some.inj ((dueAt_eq_some hdue).1.symm.trans hm)
      exact hthinned.pruned hleft hdue
  · rw [pruneSlice_done (hthinned.distinct hdist) (hthinned.isOpen.trans hopen) now hpos, hleft,
      Nat.min_zero]

theorem prunesExactly_of_distinct (hdist : st.Distinct) : PrunesExactly st := by
  have hslice := pruneSlice_sliced hdist
  refine ⟨?_, ?_, ?_, ?_, ?_, fun now maxRows k hopen hpos => repeated_of_distinct hdist hopen now hpos⟩
  · intro now maxRows i m hm
    obtain ⟨seen, hsliced, -⟩ := hslice now maxRows
    obtain ⟨m', hslot⟩ := hsliced.thinned.slots i m hm
    exact ⟨hslot.deleted, hslot.kept⟩
  · intro now maxRows
    obtain ⟨seen, hsliced, -⟩ := hslice now maxRows
    exact hsliced.thinned.others
  · intro now maxRows
    obtain ⟨seen, hsliced, -⟩ := hslice now maxRows
    exact hsliced.room
  · intro now maxRows
    obtain ⟨seen, hsliced, -⟩ := hslice now maxRows
    have hrows := totalRows_of_thinned hsliced.thinned
    have htotal := hsliced.total
    omega
  · intro now maxRows i m hm hzero
    obtain ⟨seen, hsliced, -⟩ := hslice now maxRows
    obtain ⟨m', hslot⟩ := hsliced.thinned.slots i m hm
    have hforever : Double.zero.ge (keepDaysOf m) = true := by
      rw [hzero]
      decide +kernel
    have hkept := hslot.kept
    rw [unexpired_of_forever hforever, unexpired_of_forever hforever] at hkept
    exact hkept

theorem Watching.staysDue {w : Watched} (h : Watching w) : StaysDue w := by
  intro i m v now hm hcap hv hleft hvisit hzero
  refine dueAt_of hm hcap ?_
  rcases h.due i m v hm hv hleft with hnext | htime
  · rw [hnext]
    exact Double.not_lt_of_ge hzero (by decide +kernel)
  · exact Double.not_lt_of_ge hvisit htime

/-- In every state of every run, a slice deletes only rows that their own module's policy has
expired and at most its budget, nothing where the policy is zero; slices repeated at one time
delete all that is expired in the modules due then and after that nothing; and a capturing
module whose last visit left expired rows is due. -/
theorem slices_prune_exactly (files : FileId → ModFile) (events : List PruneEvent) :
    PrunesExactly (run watchStep (watchedStart files) events).store ∧
      StaysDue (run watchStep (watchedStart files) events) :=
  ⟨prunesExactly_of_distinct (watching_run files events).distinct,
    (watching_run files events).staysDue⟩

/-- A file with one row. -/
def rowOfDayOne : ModFile :=
  { ModFile.fresh with samples := [⟨Double.ofInt 100, 1, CString.lit "\x7b\x7d", []⟩] }

/-- A module that keeps a day is visited while its row is not a day old. -/
def visitedTooEarly : List PruneEvent :=
  [.call (.open_ (CString.lit "/h") true),
    .call (.register (CString.lit "a1") CString.empty CString.empty CString.empty
      (CString.lit "\x7b\"retention_days\":1\x7d")
      { now := Double.ofInt 100, jsonExtract := fun _ _ => none }),
    .prune (Double.ofInt 86450) 500]

theorem mfHistoryMaxModules_pos : 0 < mfHistoryMaxModules := by decide

/-- The first slot. -/
def firstPlace : Fin mfHistoryMaxModules := ⟨0, mfHistoryMaxModules_pos⟩

/-- Minutes later the row is expired, and no number of slices deletes it. -/
theorem expired_row_stays :
    ∃ i m, (run watchStep (watchedStart fun _ => rowOfDayOne) visitedTooEarly).store.mods i = some m ∧
      ∀ k, (slicesAt (run watchStep (watchedStart fun _ => rowOfDayOne) visitedTooEarly).store
        (Double.ofInt 86600) 500 k).expired m (Double.ofInt 86600) ≠ [] := by
  have hsome : ((run watchStep (watchedStart fun _ => rowOfDayOne)
      visitedTooEarly).store.mods firstPlace).any (fun m =>
        decide ((run watchStep (watchedStart fun _ => rowOfDayOne) visitedTooEarly).store.expired
          m (Double.ofInt 86600) ≠ [])) = true := by
    decide +kernel
  have hdue : ((run watchStep (watchedStart fun _ => rowOfDayOne) visitedTooEarly).store.dueAt
      firstPlace (Double.ofInt 86600)).isNone = true := by
    decide +kernel
  obtain ⟨m, hm⟩ := Option.isSome_iff_exists.mp (Option.isSome_of_any hsome)
  rw [hm, Option.any_some] at hsome
  refine ⟨firstPlace, m, hm, fun k => ?_⟩
  have hdist := (watching_run (fun _ => rowOfDayOne) visitedTooEarly).distinct
  obtain ⟨m', hslot⟩ := (thinned_slicesAt hdist (Double.ofInt 86600) 500 k).slots firstPlace m hm
  have hrows := (hslot.notDue (Option.isNone_iff_eq_none.mp hdue)).2
  rw [Store.expired, hrows]
  exact of_decide_eq_true hsome

end MoonFlare.History
