import MoonFlare.HistoryMigrate
import MoonFlare.HistoryQueue

/-!
# Old rows are moved once

The old file is renamed when each row of every module it lists is in that module's
own file, once, however often a run failed or was stopped before, as long as no call
fails whose result the code does not look at.
-/

namespace MoonFlare.History

open Prog Runs

/-! ## What is to hold -/

/-- The entry an old row is to have. -/
def OldRow.entry (r : OldRow) : Entry := (r.ts, r.online, readingText r.extraJson)

/-- The entries of a module's old rows. -/
def OldFile.entries (old : OldFile) (uuid : CString) : List Entry := (old.rows uuid).map OldRow.entry

/-- The entries of a file's contents. -/
def ModFile.entries (c : ModFile) : List Entry := c.samples.map Row.entry

/-- The file of a module. -/
def fileOf (s : Moving) (uuid : CString) : TxnFile ModFile := s.store.files (s.store.fileId uuid)

/-- The promise: when the old file was renamed, every module it lists has each of its
old rows once, beside what was stored otherwise. -/
def MovedOnce (old : OldFile) (s : Moving) : Prop :=
  s.moved = true → ∀ d ∈ old.devices,
    List.Perm (fileOf s d.id).durable.entries (s.others d.id ++ old.entries d.id)

/-! ## When it holds -/

/-- The ways a call can end that the code bears. -/
def Borne : SqlCall → Fate → Prop
  | .stepDevices, fate => fate = .ok
  | .readMigrated, fate => fate = .ok
  | .bindUuid, fate => fate = .ok
  | .begin, fate => fate = .ok
  | .stepRows, fate => fate = .ok
  | .columnText, fate => fate = .ok
  | .rollback, fate => fate = .ok
  | .setCreated, fate => fate ≠ .rolledBack
  | .setRetired, fate => fate ≠ .rolledBack
  | .setMigrated, fate => fate = .ok
  | .commit, fate => fate = .ok
  | _, _ => True

/-- No call whose result the code does not look at fails. -/
def AllBorne (fates : Fates SqlCall) : Prop := ∀ n call fate, fates n call = some fate → Borne call fate

/-- The condition on an event. -/
def FatesBorne : MoveEvent → Prop
  | .migrate _ _ fates => AllBorne fates
  | .register _ _ _ _ _ _ fates => AllBorne fates
  | _ => True

/-! ## Invariants -/

variable {old : OldFile} {fates : Fates SqlCall} {F : Set CString} {b : Bool} {s : Moving}

/-- The mark of a migrated module. -/
def migratedMark : Option MetaValue := some (.text (CString.lit "1"))

/-- A module is marked as migrated. -/
def Marked (s : Moving) (uuid : CString) : Prop := (fileOf s uuid).durable.info .migrated = migratedMark

instance (s : Moving) (uuid : CString) : Decidable (Marked s uuid) := by
  unfold Marked
  infer_instance

/-- What is durable: exactly the marked modules have their old rows. -/
structure Held (old : OldFile) (F : Set CString) (b : Bool) (s : Moving) : Prop where
  whole : ∀ uuid, List.Perm (fileOf s uuid).durable.entries
    (s.others uuid ++ if Marked s uuid then old.entries uuid else [])
  marked : ∀ uuid, uuid ∈ F ↔ Marked s uuid
  moved : s.moved = b

/-- No transaction is open. -/
structure Rest (old : OldFile) (F : Set CString) (b : Bool) (s : Moving) : Prop where
  held : Held old F b s
  quiet : ∀ uuid, (fileOf s uuid).working = none

/-- Where a run is stopped: more modules may be marked by then. -/
def Stopped (old : OldFile) (F : Set CString) (b : Bool) (s : Moving) : Prop :=
  ∃ G, F ⊆ G ∧ Held old G b s

/-- A module's transaction is open, has copied some rows, and perhaps marked the
module. -/
structure Copying (old : OldFile) (F : Set CString) (b : Bool) (uuid : CString)
    (copied : List Entry) (marks : Bool) (s : Moving) : Prop where
  held : Held old F b s
  quiet : ∀ v, v ≠ uuid → (fileOf s v).working = none
  inside : ∃ c, (fileOf s uuid).working = some c ∧
    c.entries = (fileOf s uuid).durable.entries ++ copied ∧
    (marks = true → c.info .migrated = migratedMark)

theorem Rest.stopped (h : Rest old F b s) : Stopped old F b s := ⟨F, subset_rfl, h.held⟩

theorem Copying.stopped {uuid : CString} {copied : List Entry} {marks : Bool}
    (h : Copying old F b uuid copied marks s) : Stopped old F b s := ⟨F, subset_rfl, h.held⟩

/-! ## Changes of one file -/

/-- A change of one file leaves the others. -/
theorem fileOf_onFile (s : Moving) (uuid : CString) (f : TxnFile ModFile → TxnFile ModFile)
    (v : CString) : fileOf { s with store := s.store.onFile uuid f } v =
      if v = uuid then f (fileOf s uuid) else fileOf s v := by
  have hfile : fileOf { s with store := s.store.onFile uuid f } v =
      Function.update s.store.files (s.store.fileId uuid) (f (fileOf s uuid)) (s.store.fileId v) :=
    rfl
  rw [hfile, Function.update_apply]
  by_cases hv : v = uuid
  · rw [if_pos hv, if_pos (by rw [hv])]
  · have hne : s.store.fileId v ≠ s.store.fileId uuid := by
      intro heq
      exact hv (Prod.ext_iff.mp heq).2
    rw [if_neg hv, if_neg hne]
    rfl

/-- A change that keeps the durable entries and the mark keeps what is held. -/
theorem Held.onFile (h : Held old F b s) {uuid : CString}
    {f : TxnFile ModFile → TxnFile ModFile}
    (hentries : (f (fileOf s uuid)).durable.entries = (fileOf s uuid).durable.entries)
    (hmark : (f (fileOf s uuid)).durable.info .migrated = (fileOf s uuid).durable.info .migrated) :
    Held old F b { s with store := s.store.onFile uuid f } := by
  have hfile : ∀ v, (fileOf { s with store := s.store.onFile uuid f } v).durable.entries =
      (fileOf s v).durable.entries ∧
      (Marked { s with store := s.store.onFile uuid f } v ↔ Marked s v) := by
    intro v
    rw [Marked, Marked, fileOf_onFile]
    split
    · next heq => rw [heq, hentries, hmark]; exact ⟨rfl, Iff.rfl⟩
    · exact ⟨rfl, Iff.rfl⟩
  refine ⟨fun v => ?_, fun v => (h.marked v).trans (hfile v).2.symm, h.moved⟩
  rw [(hfile v).1]
  simp only [(hfile v).2]
  exact h.whole v

/-- Outside a transaction such a change of the contents keeps the files at rest. -/
theorem Rest.write (h : Rest old F b s) (uuid : CString) {change : ModFile → ModFile}
    (hentries : ∀ c, (change c).entries = c.entries)
    (hmark : ∀ c, (change c).info .migrated = c.info .migrated) :
    Rest old F b { s with store := s.store.onFile uuid fun f => f.write change } := by
  have hclosed : (fileOf s uuid).write change = ⟨change (fileOf s uuid).durable, none⟩ := by
    rw [TxnFile.write, h.quiet]
  refine ⟨h.held.onFile ?_ ?_, fun v => ?_⟩
  · rw [hclosed]
    exact hentries _
  · rw [hclosed]
    exact hmark _
  · rw [fileOf_onFile]
    split
    · rw [hclosed]
    · exact h.quiet v

theorem Rest.rollback (h : Rest old F b s) (uuid : CString) :
    Rest old F b { s with store := s.store.onFile uuid TxnFile.rollback } := by
  refine ⟨h.held.onFile rfl rfl, fun v => ?_⟩
  rw [fileOf_onFile]
  split
  · rfl
  · exact h.quiet v

theorem Rest.setMod (h : Rest old F b s) (i : Fin mfHistoryMaxModules) (m : Option HistMod) :
    Rest old F b { s with store := s.store.setMod i m } :=
  ⟨⟨h.held.whole, h.held.marked, h.held.moved⟩, h.quiet⟩

/-! ## Registering -/

/-- `set_meta` outside a transaction, of anything but the mark. -/
theorem holds_setMeta_rest (call : SqlCall) (uuid : CString) {key : MetaKey}
    (hkey : key ≠ .migrated) (value : Option MetaValue) :
    Holds fates (Rest old F b) (setMeta call uuid key value) (fun _ => Rest old F b)
      (Stopped old F b) := by
  unfold setMeta
  refine holds_ask_bind (fun s h => h.stopped) fun n fate _ => ?_
  cases fate with
  | ok =>
    refine holds_update fun s h => h.write uuid (fun c => rfl) fun c => ?_
    exact Function.update_of_ne hkey.symm _ _
  | fail => exact holds_pure fun s h => h
  | rolledBack => exact holds_update fun s h => h.rollback uuid

theorem holds_describeAll (uuid : CString) (kvs : List (MetaKey × Option MetaValue))
    (hkeys : ∀ kv ∈ kvs, kv.1 ≠ .migrated) :
    Holds fates (Rest old F b) (describeAll uuid kvs) (fun _ => Rest old F b) (Stopped old F b) := by
  induction kvs with
  | nil => exact holds_pure fun s h => h
  | cons kv kvs ih =>
    refine holds_bind (holds_setMeta_rest _ uuid (hkeys kv List.mem_cons_self) _) fun _ => ?_
    exact ih fun kv' hkv => hkeys kv' (List.mem_cons_of_mem _ hkv)

theorem holds_syncColumn (e : HistEnv) (uuid : CString) (c : HistCol) :
    Holds fates (Rest old F b) (syncColumn e uuid c) (fun _ => Rest old F b) (Stopped old F b) := by
  have hskip (r : Bool) :
      Holds fates (Rest old F b) (pure r) (fun _ => Rest old F b) (Stopped old F b) :=
    holds_pure fun s h => h
  unfold syncColumn
  refine holds_ask_bind (fun s h => h.stopped) fun n fate _ => ?_
  cases fate with
  | fail => exact hskip false
  | rolledBack => exact hskip false
  | ok =>
    refine holds_ask_bind (fun s h => h.stopped) fun n info _ => ?_
    refine holds_read_keep fun s h => holds_ite (fun _ => hskip true) fun _ => ?_
    refine holds_ask_bind (fun s h => h.stopped) fun n added _ => ?_
    cases added with
    | fail => exact hskip false
    | rolledBack => exact hskip false
    | ok =>
      refine holds_ite (fun _ => hskip false) fun _ => ?_
      have hextend : Holds fates (Rest old F b)
          (onStore fun st => st.onFile uuid fun f => f.write (Store.extendColumn c))
          (fun _ => Rest old F b) (Stopped old F b) :=
        holds_update fun s h => h.write uuid (entries_extendColumn c) fun _ => rfl
      have hfill : Holds fates (Rest old F b)
          (onStore fun st => st.onFile uuid fun f => f.write (Store.backfillColumn e c))
          (fun _ => Rest old F b) (Stopped old F b) :=
        holds_update fun s h => h.write uuid (entries_backfillColumn e c) fun _ => rfl
      refine holds_bind hextend fun _ => holds_ask_bind (fun s h => h.stopped) fun n filled _ => ?_
      cases filled with
      | ok => exact holds_bind hfill fun _ => hskip true
      | fail => exact hskip true
      | rolledBack => exact hskip true

theorem holds_syncAll (e : HistEnv) (uuid : CString) (cols : List HistCol) :
    Holds fates (Rest old F b) (syncAll e uuid cols) (fun _ => Rest old F b) (Stopped old F b) := by
  induction cols with
  | nil => exact holds_pure fun s h => h
  | cons c cs ih =>
    refine holds_bind (holds_syncColumn e uuid c) fun done => ?_
    cases done with
    | true => exact ih
    | false => exact holds_pure fun s h => h

theorem holds_setMod (f : Store → Option HistMod) (i : Fin mfHistoryMaxModules) :
    Holds fates (Rest old F b) (onStore fun st => st.setMod i (f st)) (fun _ => Rest old F b)
      (Stopped old F b) := holds_update fun _ h => h.setMod i _

theorem holds_syncColumns (e : HistEnv) (i : Fin mfHistoryMaxModules) (m : HistMod) :
    Holds fates (Rest old F b) (syncColumns e i m) (fun _ => Rest old F b) (Stopped old F b) := by
  have hset (m' : HistMod) (r : Bool) : Holds fates (Rest old F b)
      (onStore (fun st => st.setMod i (some m')) >>= fun _ => pure r) (fun _ => Rest old F b)
      (Stopped old F b) :=
    holds_bind (holds_setMod (fun _ => some m') i) fun _ => holds_pure fun s h => h
  unfold syncColumns
  refine holds_bind (holds_syncAll e m.uuid.str m.cols) fun done => ?_
  cases done with
  | false => exact holds_pure fun s h => h
  | true =>
    refine holds_ask_bind (fun s h => h.stopped) fun n fate _ => ?_
    cases fate with
    | ok => exact hset _ true
    | fail => exact hset _ false
    | rolledBack => exact hset _ false

/-- `get_meta`, where the answer does not matter. -/
theorem holds_getMeta_rest (call : SqlCall) (uuid : CString) (key : MetaKey) :
    Holds fates (Rest old F b) (getMeta call uuid key) (fun _ => Rest old F b) (Stopped old F b) := by
  unfold getMeta
  refine holds_ask_bind (fun s h => h.stopped) fun n fate _ => ?_
  cases fate with
  | ok => exact holds_read_keep fun s _ => holds_pure fun s h => h
  | fail => exact holds_pure fun s h => h
  | rolledBack => exact holds_pure fun s h => h

theorem holds_registerAt (i : Fin mfHistoryMaxModules) (m : HistMod)
    (uuid name kind driver capture : CString) (e : HistEnv) :
    Holds fates (Rest old F b) (registerAt i m uuid name kind driver capture e)
      (fun _ => Rest old F b) (Stopped old F b) := by
  have hkeys : ∀ kv ∈ ([(.uuid, some (.text uuid)), (.name, some (.text name)),
      (.kind, some (.text kind)), (.driver, some (.text driver)),
      (.capture, if capture.nonempty then some (.text capture) else none), (.retiredTs, none)] :
        List (MetaKey × Option MetaValue)), kv.1 ≠ .migrated := by
    simp
  unfold registerAt
  dsimp only
  refine holds_bind (holds_setMod (fun _ => some _) i) fun _ => ?_
  refine holds_bind (holds_syncColumns e i _) fun done => ?_
  cases done with
  | false => exact holds_pure fun s h => h
  | true =>
    refine holds_bind (holds_describeAll uuid _ hkeys) fun _ => ?_
    refine holds_bind (holds_setMod (fun st => (st.mods i).map Store.dueNow) i) fun _ => ?_
    refine holds_bind (holds_getMeta_rest _ uuid _) fun created => ?_
    cases created with
    | some v => exact holds_pure fun s h => h
    | none =>
      refine holds_bind (holds_setMeta_rest _ uuid (by decide) _) fun _ => ?_
      exact holds_pure fun s h => h

/-- Registering a module moves nothing. -/
theorem holds_register (uuid name kind driver capture : CString) (e : HistEnv) :
    Holds fates (Rest old F b) (register uuid name kind driver capture e)
      (fun _ => Rest old F b) (Stopped old F b) := by
  have hrefuse : Holds fates (Rest old F b) (pure false) (fun _ => Rest old F b) (Stopped old F b) :=
    holds_pure fun s h => h
  unfold register
  refine holds_read_keep fun s _ => holds_ite (fun _ => hrefuse) fun _ => ?_
  split
  · split
    · exact holds_registerAt _ _ uuid name kind driver capture e
    · exact hrefuse
  · split
    · exact hrefuse
    · refine holds_ask_bind (fun s h => h.stopped) fun n fate _ => ?_
      cases fate with
      | ok => exact holds_registerAt _ _ uuid name kind driver capture e
      | fail => exact hrefuse
      | rolledBack => exact hrefuse

/-! ## Copying -/

variable {uuid : CString} {copied : List Entry} {marks : Bool}

/-- A transaction begins. -/
theorem Rest.begin (h : Rest old F b s) (uuid : CString) :
    Copying old F b uuid [] false { s with store := s.store.onFile uuid TxnFile.begin } := by
  refine ⟨h.held.onFile rfl rfl, fun v hv => ?_, ?_⟩
  · rw [fileOf_onFile, if_neg hv]
    exact h.quiet v
  · rw [fileOf_onFile, if_pos rfl]
    refine ⟨(fileOf s uuid).view, rfl, ?_, fun hmarks => by cases hmarks⟩
    rw [TxnFile.view_of_closed (h.quiet uuid), List.append_nil]
    rfl

/-- A statement inside the transaction. -/
theorem Copying.write (h : Copying old F b uuid copied marks s) {change : ModFile → ModFile}
    {more : List Entry} {marks' : Bool} (hentries : ∀ c, (change c).entries = c.entries ++ more)
    (hmark : ∀ c : ModFile, (marks = true → c.info .migrated = migratedMark) → marks' = true →
      (change c).info .migrated = migratedMark) :
    Copying old F b uuid (copied ++ more) marks'
      { s with store := s.store.onFile uuid fun f => f.write change } := by
  obtain ⟨c, hc, hcentries, hcmark⟩ := h.inside
  have hdurable := TxnFile.durable_write hc change
  refine ⟨h.held.onFile (by rw [hdurable]) (by rw [hdurable]), fun v hv => ?_, ?_⟩
  · rw [fileOf_onFile, if_neg hv]
    exact h.quiet v hv
  · rw [fileOf_onFile, if_pos rfl, hdurable]
    refine ⟨change c, ?_, ?_, hmark c hcmark⟩
    · rw [TxnFile.write, hc]
    · rw [hentries, hcentries, List.append_assoc]

/-- What was copied is taken back. -/
theorem Copying.rollback (h : Copying old F b uuid copied marks s) :
    Rest old F b { s with store := s.store.onFile uuid TxnFile.rollback } := by
  refine ⟨h.held.onFile rfl rfl, fun v => ?_⟩
  rw [fileOf_onFile]
  split
  · rfl
  · next hv => exact h.quiet v hv

/-- All rows and the mark are committed. -/
theorem Copying.commit (h : Copying old F b uuid (old.entries uuid) true s) (hnew : uuid ∉ F) :
    Rest old (insert uuid F) b { s with store := s.store.onFile uuid TxnFile.commit } := by
  obtain ⟨c, hc, hcentries, hcmark⟩ := h.inside
  have hcommit : (fileOf s uuid).commit = TxnFile.closed c := by
    rw [TxnFile.commit, TxnFile.view, hc, Option.getD_some]
  have hother : ∀ v, v ≠ uuid →
      fileOf { s with store := s.store.onFile uuid TxnFile.commit } v = fileOf s v :=
    fun v hv => by rw [fileOf_onFile, if_neg hv]
  have hself : fileOf { s with store := s.store.onFile uuid TxnFile.commit } uuid =
      TxnFile.closed c := by rw [fileOf_onFile, if_pos rfl, hcommit]
  have hmarked : Marked { s with store := s.store.onFile uuid TxnFile.commit } uuid := by
    rw [Marked, hself]
    exact hcmark rfl
  have hbefore := h.held.whole uuid
  rw [if_neg fun hm => hnew ((h.held.marked uuid).mpr hm), List.append_nil] at hbefore
  refine ⟨⟨fun v => ?_, fun v => ?_, h.held.moved⟩, fun v => ?_⟩
  · by_cases hv : v = uuid
    · rw [hv, if_pos hmarked, hself]
      have hfile : (TxnFile.closed c).durable.entries =
          (fileOf s uuid).durable.entries ++ old.entries uuid := hcentries
      rw [hfile]
      exact hbefore.append_right _
    · have hsame : Marked { s with store := s.store.onFile uuid TxnFile.commit } v ↔ Marked s v := by
        rw [Marked, Marked, hother v hv]
      rw [hother v hv]
      simp only [hsame]
      exact h.held.whole v
  · by_cases hv : v = uuid
    · rw [hv]
      exact iff_of_true (Set.mem_insert uuid F) hmarked
    · rw [Marked, hother v hv, Set.mem_insert_iff]
      exact (or_iff_right hv).trans (h.held.marked v)
  · by_cases hv : v = uuid
    · rw [hv, hself]
      rfl
    · rw [hother v hv]
      exact h.quiet v hv

theorem holds_bindColumns {P : Moving → Prop} (hstop : ∀ s, P s → Stopped old F b s)
    (r : Option CJson) (fallback : List (CString × SqlValue)) (cols : List HistCol) :
    Holds fates P (bindColumns r fallback cols) (fun _ => P) (Stopped old F b) := by
  induction cols with
  | nil => exact holds_pure fun s h => h
  | cons c cs ih =>
    unfold bindColumns
    refine holds_ask_bind hstop fun n fate _ => ?_
    exact holds_bind ih fun vs => holds_pure fun s h => h

/-- A module whose copying failed: its transaction is open or taken back. -/
def Failed (old : OldFile) (F : Set CString) (b : Bool) (uuid : CString) (s : Moving) : Prop :=
  Rest old F b s ∨ ∃ copied, Copying old F b uuid copied false s

/-- One row is copied. -/
theorem holds_insertOld (m : HistMod) (ins : List HistCol) (r : OldRow) :
    Holds fates (Copying old F b m.uuid.str copied false) (insertOld m ins r r.extraJson)
      (fun done s => if done then Copying old F b m.uuid.str (copied ++ [r.entry]) false s
        else Failed old F b m.uuid.str s) (Stopped old F b) := by
  unfold insertOld
  dsimp only
  refine holds_bind (holds_bindColumns (fun s h => h.stopped) _ _ _) fun bound => ?_
  refine holds_ask_bind (fun s h => h.stopped) fun n fate _ => ?_
  cases fate with
  | ok =>
    have hwrite : ∀ row : Row, row.entry = r.entry →
        Holds fates (Copying old F b m.uuid.str copied false)
          (onStore fun st => st.onFile m.uuid.str (Store.addRow row))
          (fun _ => Copying old F b m.uuid.str (copied ++ [r.entry]) false) (Stopped old F b) := by
      intro row hrow
      refine holds_update fun s h => h.write (fun c => ?_) fun _ _ hmarks => by cases hmarks
      simp [ModFile.entries, hrow]
    refine holds_bind (hwrite _ rfl) fun _ => holds_pure fun s h => ?_
    rw [if_pos rfl]
    exact h
  | fail =>
    refine holds_pure fun s h => ?_
    exact Or.inr ⟨copied, h⟩
  | rolledBack =>
    have hback : Holds fates (Copying old F b m.uuid.str copied false)
        (onStore fun st => st.onFile m.uuid.str TxnFile.rollback) (fun _ => Rest old F b)
        (Stopped old F b) := holds_update fun s h => h.rollback
    exact holds_bind hback fun _ => holds_pure fun s h => Or.inl h

/-- All rows are copied, or copying fails. -/
theorem holds_copyRows (hborne : AllBorne fates) (m : HistMod) (ins : List HistCol)
    (rows : List OldRow) (n : ℕ) (last : Double) :
    Holds fates (Copying old F b m.uuid.str copied false) (copyRows m ins rows n last)
      (fun done s => if done.isSome then
          Copying old F b m.uuid.str (copied ++ rows.map OldRow.entry) false s
        else Failed old F b m.uuid.str s) (Stopped old F b) := by
  induction rows generalizing copied n last with
  | nil =>
    unfold copyRows
    refine holds_ask_bind (fun s h => h.stopped) fun n fate _ => holds_pure fun s h => ?_
    simpa using h
  | cons r rs ih =>
    unfold copyRows
    refine holds_ask_bind (fun s h => h.stopped) fun n fate hfate => ?_
    obtain rfl : fate = .ok := hborne n _ fate hfate
    refine holds_ask_bind (fun s h => h.stopped) fun n fate hfate => ?_
    obtain rfl : fate = .ok := hborne n _ fate hfate
    refine holds_bind (holds_insertOld m ins r) fun done => ?_
    cases done with
    | true =>
      simp only [if_true, List.map_cons]
      have hsplit : copied ++ r.entry :: rs.map OldRow.entry =
          (copied ++ [r.entry]) ++ rs.map OldRow.entry := by simp
      rw [hsplit]
      exact ih _ _
    | false => exact holds_pure fun s h => h

/-- `set_meta` inside the transaction, where it does not take it back. -/
theorem holds_setMeta_copying {call : SqlCall} (hborne : ∀ n, fates n call ≠ some .rolledBack)
    (key : MetaKey) (value : Option MetaValue) :
    Holds fates (Copying old F b uuid copied false) (setMeta call uuid key value)
      (fun _ => Copying old F b uuid copied false) (Stopped old F b) := by
  unfold setMeta
  refine holds_ask_bind (fun s h => h.stopped) fun n fate hfate => ?_
  cases fate with
  | ok =>
    refine holds_update fun s h => ?_
    have hwrite : Copying old F b uuid (copied ++ []) false
        { s with store := s.store.setMeta uuid key value } :=
      h.write (fun c => (List.append_nil _).symm) fun _ _ hmarks => by cases hmarks
    rw [List.append_nil] at hwrite
    exact hwrite
  | fail => exact holds_pure fun s h => h
  | rolledBack => exact absurd hfate (hborne n)

/-- The mark is set. -/
theorem holds_setMigrated (hborne : AllBorne fates) :
    Holds fates (Copying old F b uuid copied false)
      (setMeta .setMigrated uuid .migrated (some (.text (CString.lit "1"))))
      (fun _ => Copying old F b uuid copied true) (Stopped old F b) := by
  unfold setMeta
  refine holds_ask_bind (fun s h => h.stopped) fun n fate hfate => ?_
  obtain rfl : fate = .ok := hborne n _ fate hfate
  refine holds_update fun s h => ?_
  have hwrite : Copying old F b uuid (copied ++ []) true
      { s with store := s.store.setMeta uuid .migrated migratedMark } :=
    h.write (fun c => (List.append_nil _).symm) fun c _ _ => by simp
  rw [List.append_nil] at hwrite
  exact hwrite

theorem not_rolledBack (hborne : AllBorne fates) {call : SqlCall}
    (hcall : ¬Borne call .rolledBack) (n : ℕ) : fates n call ≠ some .rolledBack :=
  fun hfate => hcall (hborne n call _ hfate)

/-- What a module's migration leaves: the module is marked, or nothing is changed. -/
def Migrated (old : OldFile) (F : Set CString) (b : Bool) (uuid : CString) (rows : Option ℕ)
    (s : Moving) : Prop :=
  if rows.isSome then Rest old (insert uuid F) b s else Rest old F b s

/-- A call on the transaction that has to succeed. -/
theorem holds_endTxn {P P' : Moving → Prop} {call : SqlCall}
    {f : TxnFile ModFile → TxnFile ModFile} (hborne : ∀ n fate, fates n call = some fate → fate = .ok)
    (hstop : ∀ s, P s → Stopped old F b s)
    (hf : ∀ s, P s → P' { s with store := s.store.onFile uuid f }) :
    Holds fates P (endTxn call uuid f) (fun _ => P') (Stopped old F b) := by
  unfold endTxn
  refine holds_ask_bind hstop fun n fate hfate => ?_
  obtain rfl : fate = .ok := hborne n fate hfate
  exact holds_update hf

theorem holds_markRetired (hborne : AllBorne fates) (d : OldDevice) (wasRegistered : Bool)
    (last : Double) :
    Holds fates (Copying old F b d.id copied false) (markRetired d wasRegistered last)
      (fun _ => Copying old F b d.id copied false) (Stopped old F b) := by
  unfold markRetired
  refine holds_ite (fun _ => holds_pure fun s h => h) fun _ => ?_
  exact holds_setMeta_copying (not_rolledBack hborne (by simp [Borne])) _ _

theorem holds_leaveModule (d : OldDevice) (wasRegistered : Bool) (i : Fin mfHistoryMaxModules) :
    Holds fates (Rest old F b) (leaveModule d wasRegistered i) (fun _ => Rest old F b)
      (Stopped old F b) := by
  unfold leaveModule
  refine holds_ask_bind (fun s h => h.stopped) fun n fate _ => ?_
  refine holds_ite (fun _ => holds_pure fun s h => h) fun _ => ?_
  exact holds_update fun s h => (h.rollback d.id).setMod i none

/-- The rows and the mark of a module in one transaction. -/
theorem holds_copyModule (hborne : AllBorne fates) {d : OldDevice} (hnew : d.id ∉ F)
    (i : Fin mfHistoryMaxModules) {m : HistMod} (hm : m.uuid.str = d.id) (ins : List HistCol)
    (wasRegistered : Bool) :
    Holds fates (Rest old F b) (copyModule old d i m ins wasRegistered)
      (Migrated old F b d.id) (Stopped old F b) := by
  have hgive : Holds fates (Rest old F b) (pure none) (Migrated old F b d.id) (Stopped old F b) :=
    holds_pure fun s h => h
  unfold copyModule
  refine holds_ask_bind (fun s h => h.stopped) fun n fate _ => ?_
  cases fate with
  | fail => exact hgive
  | rolledBack => exact hgive
  | ok =>
    refine holds_ask_bind (fun s h => h.stopped) fun n fate hfate => ?_
    obtain rfl : fate = .ok := hborne n _ fate hfate
    refine holds_bind (holds_endTxn (fun n => hborne n .begin) (fun s h => h.stopped)
      fun s h => h.begin d.id) fun _ => ?_
    have hcopy : Holds fates (Copying old F b m.uuid.str [] false)
        (copyRows m ins (old.rows d.id) 0 Double.zero)
        (fun done s => if done.isSome then
            Copying old F b m.uuid.str ([] ++ old.entries d.id) false s
          else Failed old F b m.uuid.str s) (Stopped old F b) := holds_copyRows hborne m ins _ _ _
    rw [hm] at hcopy
    refine holds_bind hcopy fun done => ?_
    cases done with
    | none =>
      refine holds_bind (holds_endTxn (fun n => hborne n .rollback) ?_ ?_) fun _ => hgive
      · rintro s (hrest | ⟨copied, hcopying⟩)
        · exact hrest.stopped
        · exact hcopying.stopped
      · rintro s (hrest | ⟨copied, hcopying⟩)
        · exact hrest.rollback d.id
        · exact hcopying.rollback
    | some result =>
      obtain ⟨count, last⟩ := result
      simp only [Option.isSome_some, if_true, List.nil_append]
      refine holds_bind (holds_setMeta_copying (not_rolledBack hborne (by simp [Borne])) _ _)
        fun _ => ?_
      refine holds_bind (holds_markRetired hborne d wasRegistered last) fun _ => ?_
      refine holds_bind (holds_setMigrated hborne) fun _ => ?_
      refine holds_bind (holds_endTxn (fun n => hborne n .commit) (fun s h => h.stopped)
        fun s h => h.commit hnew) fun _ => ?_
      have hleave : Holds fates (Rest old (insert d.id F) b) (leaveModule d wasRegistered i)
          (fun _ => Rest old (insert d.id F) b) (Stopped old (insert d.id F) b) :=
        holds_leaveModule d wasRegistered i
      have hmore : ∀ s, Stopped old (insert d.id F) b s → Stopped old F b s := by
        rintro s ⟨G, hG, hheld⟩
        exact ⟨G, (Set.subset_insert d.id F).trans hG, hheld⟩
      refine holds_bind (hleave.weaken (fun _ h => h) (fun _ _ h => h) hmore) fun _ => ?_
      exact holds_pure fun s h => h

/-! ## Modules -/

/-- The mark is read. -/
theorem holds_isMigrated (hborne : AllBorne fates) (uuid : CString) :
    Holds fates (Rest old F b) (isMigrated uuid)
      (fun flag s => Rest old F b s ∧ (flag = true ↔ uuid ∈ F)) (Stopped old F b) := by
  unfold isMigrated getMeta
  refine holds_bind (R := fun flag s => Rest old F b s ∧ (flag = migratedMark ↔ uuid ∈ F)) ?_
    fun flag => holds_pure fun s h => ⟨h.1, by simpa [migratedMark] using h.2⟩
  refine holds_ask_bind (fun s h => h.stopped) fun n fate hfate => ?_
  obtain rfl : fate = .ok := hborne n _ fate hfate
  refine holds_read_bind fun s h => holds_pure fun s' heq => ?_
  rw [heq]
  refine ⟨h, ?_⟩
  rw [h.held.marked uuid, Marked, ← TxnFile.view_of_closed (h.quiet uuid)]
  rfl

theorem holds_statement (e : HistEnv) (i : Fin mfHistoryMaxModules) (m : HistMod) :
    Holds fates (Rest old F b) (statement e i m) (fun _ => Rest old F b) (Stopped old F b) := by
  unfold statement
  split
  · exact holds_pure fun s h => h
  · refine holds_bind (holds_syncColumns e i m) fun done => ?_
    cases done <;> exact holds_pure fun s h => h

theorem holds_migrateModule (hborne : AllBorne fates) (e : HistEnv) {d : OldDevice}
    (i : Fin mfHistoryMaxModules) {m : HistMod} (hm : m.uuid.str = d.id) (wasRegistered : Bool) :
    Holds fates (Rest old F b) (migrateModule old e d i m wasRegistered)
      (Migrated old F b d.id) (Stopped old F b) := by
  unfold migrateModule
  refine holds_bind (holds_isMigrated hborne m.uuid.str) fun flag => ?_
  rw [hm]
  cases flag with
  | true =>
    refine holds_pure fun s h => ?_
    have hmem : d.id ∈ F := h.2.mp rfl
    rw [Migrated, Option.isSome_some, if_pos rfl, Set.insert_eq_of_mem hmem]
    exact h.1
  | false =>
    refine holds_of_state fun s h => ?_
    have hnew : d.id ∉ F := fun hmem => Bool.false_ne_true (h.2.mpr hmem)
    refine Holds.weaken (P := Rest old F b) (holds_bind (holds_statement e i m) fun ins => ?_)
      (fun s' heq => ?_) (fun _ _ h => h) fun _ h => h
    · cases ins with
      | some ins => exact holds_copyModule hborne hnew i hm ins wasRegistered
      | none => exact holds_pure fun s h => h
    · rw [heq]
      exact h.1

/-- A listed module is migrated, or nothing is changed. -/
theorem holds_migrateOne (hborne : AllBorne fates) (e : HistEnv) (d : OldDevice) (spec : CString) :
    Holds fates (Rest old F b) (migrateOne old e d spec) (Migrated old F b d.id)
      (Stopped old F b) := by
  have hgive : Holds fates (Rest old F b) (pure none) (Migrated old F b d.id) (Stopped old F b) :=
    holds_pure fun s h => h
  have hregister (wasRegistered : Bool) : Holds fates (Rest old F b)
      (registerUnless wasRegistered d spec e) (fun _ => Rest old F b) (Stopped old F b) :=
    holds_ite (fun _ => holds_pure fun s h => h) fun _ => holds_register _ _ _ _ _ e
  unfold migrateOne
  refine holds_read_keep fun s _ => ?_
  refine holds_bind (hregister _) fun registered => ?_
  cases registered with
  | false => exact hgive
  | true =>
    refine holds_read_keep fun s' _ => ?_
    split
    · exact hgive
    · next i hfind =>
      obtain ⟨m, hm, hu⟩ := exists_of_findMod hfind
      rw [hm]
      exact holds_migrateModule hborne e i hu _

theorem holds_specOf (specFor : CString → CString → CString) (d : OldDevice) :
    Holds fates (Rest old F b) (specOf specFor d) (fun _ => Rest old F b) (Stopped old F b) := by
  unfold specOf
  refine holds_read_keep fun s _ => ?_
  split
  · refine holds_bind (holds_getMeta_rest _ _ _) fun spec => ?_
    split <;> exact holds_pure fun s h => h
  · exact holds_pure fun s h => h

/-- What is marked behind some of the listed modules: more than before, and all of
them when none failed. -/
structure MarkedAll (old : OldFile) (F : Set CString) (b : Bool) (ds : List OldDevice)
    (failed : Bool) (done : ℕ × Bool) (s : Moving) : Prop where
  marked : ∃ G, F ⊆ G ∧ Rest old G b s ∧ (done.2 = false → ∀ d ∈ ds, d.id ∈ G)
  stays : failed = true → done.2 = true

theorem stopped_mono {F G : Set CString} (h : F ⊆ G) (hs : Stopped old G b s) :
    Stopped old F b s := by
  obtain ⟨G', hG, hheld⟩ := hs
  exact ⟨G', h.trans hG, hheld⟩

/-- The listed modules are migrated in turn. -/
theorem holds_migrateAll (hborne : AllBorne fates) (specFor : CString → CString → CString)
    (e : HistEnv) (ds : List OldDevice) (total : ℕ) (failed : Bool) :
    Holds fates (Rest old F b) (migrateAll old specFor e ds total failed)
      (MarkedAll old F b ds failed) (Stopped old F b) := by
  induction ds generalizing F total failed with
  | nil =>
    unfold migrateAll
    refine holds_ask_bind (fun s h => h.stopped) fun n fate _ => holds_pure fun s h => ?_
    exact ⟨⟨F, subset_rfl, h, fun _ d hd => by cases hd⟩, fun hfailed => hfailed⟩
  | cons d ds ih =>
    unfold migrateAll
    refine holds_ask_bind (fun s h => h.stopped) fun n fate hfate => ?_
    obtain rfl : fate = .ok := hborne n _ fate hfate
    refine holds_bind (holds_specOf specFor d) fun spec => ?_
    refine holds_bind (holds_migrateOne hborne e d spec) fun rows => ?_
    cases rows with
    | some count =>
      have hrest : Holds fates (Rest old (insert d.id F) b)
          (migrateAll old specFor e ds (total + count) failed)
          (MarkedAll old (insert d.id F) b ds failed) (Stopped old (insert d.id F) b) := ih _ _
      refine hrest.weaken (fun s h => h) (fun done s h => ?_)
        fun s h => stopped_mono (Set.subset_insert d.id F) h
      obtain ⟨⟨G, hG, hG', hall⟩, hstays⟩ := h
      refine ⟨⟨G, (Set.subset_insert d.id F).trans hG, hG', fun hdone d' hd' => ?_⟩, hstays⟩
      rcases List.mem_cons.mp hd' with rfl | hd'
      · exact hG (Set.mem_insert _ F)
      · exact hall hdone d' hd'
    | none =>
      have hrest : Holds fates (Rest old F b) (migrateAll old specFor e ds total true)
          (MarkedAll old F b ds true) (Stopped old F b) := ih _ _
      refine hrest.weaken (fun s h => h) (fun done s h => ?_) fun s h => h
      obtain ⟨⟨G, hG, hG', hall⟩, hstays⟩ := h
      refine ⟨⟨G, hG, hG', fun hdone => ?_⟩, fun _ => hstays rfl⟩
      rw [hstays rfl] at hdone
      cases hdone

/-! ## Runs -/

/-- What holds between the events. -/
structure MovingInv (old : OldFile) (s : Moving) : Prop where
  rest : Rest old {uuid | Marked s uuid} s.moved s
  all : s.moved = true → ∀ d ∈ old.devices, Marked s d.id

theorem Rest.exact (h : Rest old F b s) : Rest old {uuid | Marked s uuid} s.moved s :=
  ⟨⟨h.held.whole, fun _ => Iff.rfl, rfl⟩, h.quiet⟩

theorem Rest.mem_iff (h : Rest old F b s) (uuid : CString) : uuid ∈ F ↔ Marked s uuid :=
  h.held.marked uuid

/-- A process that ended: what is durable is kept. -/
theorem rest_ended (h : Held old F b s) : Rest old F b (ended s) :=
  ⟨⟨h.whole, h.marked, h.moved⟩, fun _ => rfl⟩

/-- A program that keeps the moved state leaves the invariant, also when it is stopped. -/
theorem inv_runProg {α : Type} {p : MigProg α} (h : MovingInv old s)
    (hp : Holds fates (Rest old {uuid | Marked s uuid} s.moved) p
      (fun _ s' => MovingInv old s' ) (Stopped old {uuid | Marked s uuid} s.moved)) :
    MovingInv old (runProg p fates s) := by
  obtain ⟨hdone, hstop⟩ := hp (s, 0) h.rest
  unfold runProg
  rcases hrun : p fates (s, 0) with ⟨_ | a, s', n⟩
  · rw [hrun] at hstop
    obtain ⟨G, hG, hheld⟩ := hstop rfl
    have hrest := rest_ended hheld
    refine ⟨hrest.exact, fun hmoved d hd => ?_⟩
    have hsame : s.moved = true := hheld.moved.symm.trans hmoved
    exact (hrest.mem_iff d.id).mp (hG (h.all hsame d hd))
  · rw [hrun] at hdone
    exact hdone a rfl

theorem inv_of_rest (h : MovingInv old s) {s' : Moving}
    (h' : Rest old {uuid | Marked s uuid} s.moved s') : MovingInv old s' := by
  refine ⟨h'.exact, fun hmoved d hd => ?_⟩
  exact (h'.mem_iff d.id).mp (h.all (h'.held.moved.symm.trans hmoved) d hd)

/-- Before the old file is renamed the invariant is only about the files. -/
theorem inv_of_unmoved {G : Set CString} (h : Rest old G b s) (hb : b = false) :
    MovingInv old s := by
  refine ⟨h.exact, fun hmoved => ?_⟩
  rw [h.held.moved, hb] at hmoved
  cases hmoved

/-- The old file is renamed when every listed module is marked. -/
theorem inv_rename {G : Set CString} (h : Rest old G b s) (hall : ∀ d ∈ old.devices, d.id ∈ G) :
    MovingInv old { s with moved := true } := by
  have hrenamed : Rest old G true { s with moved := true } :=
    ⟨⟨h.held.whole, h.held.marked, rfl⟩, h.quiet⟩
  exact ⟨hrenamed.exact, fun _ d hd => (hrenamed.mem_iff d.id).mp (hall d hd)⟩

/-- The whole migration. -/
theorem inv_migrate (h : MovingInv old s) (hborne : AllBorne fates)
    (specFor : CString → CString → CString) (e : HistEnv) :
    MovingInv old (runProg (migrate old specFor e) fates s) := by
  refine inv_runProg h ?_
  have hgive (r : Option ℕ) : Holds fates (Rest old {uuid | Marked s uuid} s.moved) (pure r)
      (fun _ s' => MovingInv old s') (Stopped old {uuid | Marked s uuid} s.moved) :=
    holds_pure fun s' h' => inv_of_rest h h'
  unfold migrate
  refine holds_read_keep fun s' h' => holds_ite (fun _ => hgive (some 0)) fun hgo => ?_
  have hunmoved : s.moved = false := by
    rw [← h'.held.moved]
    simpa using (not_or.mp hgo).2
  refine holds_ask_bind (fun s h => h.stopped) fun n opened _ => ?_
  cases opened with
  | fail => exact hgive none
  | rolledBack => exact hgive none
  | ok =>
    refine holds_ask_bind (fun s h => h.stopped) fun n prepared _ => ?_
    cases prepared with
    | fail => exact hgive none
    | rolledBack => exact hgive none
    | ok =>
      refine holds_bind (holds_migrateAll hborne specFor e old.devices 0 false) fun done => ?_
      obtain ⟨total, failed⟩ := done
      have hstop : ∀ s', MarkedAll old {uuid | Marked s uuid} s.moved old.devices false
          (total, failed) s' → Stopped old {uuid | Marked s uuid} s.moved s' := by
        rintro s' ⟨⟨G, hG, hrest, -⟩, -⟩
        exact ⟨G, hG, hrest.held⟩
      have hkeep (r : Option ℕ) : Holds fates (MarkedAll old {uuid | Marked s uuid} s.moved
          old.devices false (total, failed)) (pure r) (fun _ s' => MovingInv old s')
          (Stopped old {uuid | Marked s uuid} s.moved) := by
        refine holds_pure ?_
        rintro s' ⟨⟨G, -, hrest, -⟩, -⟩
        exact inv_of_unmoved hrest hunmoved
      refine holds_ask_bind hstop fun n fate _ => ?_
      refine holds_ite (fun _ => hkeep none) fun hgood => ?_
      have hgood : failed = false := by simpa using hgood
      refine holds_ask_bind hstop fun n renamed _ => ?_
      cases renamed with
      | fail => exact hkeep none
      | rolledBack => exact hkeep none
      | ok =>
        refine holds_bind (holds_update ?_) fun _ => holds_pure fun s' h' => h'
        rintro s' ⟨⟨G, -, hrest, hall⟩, -⟩
        exact inv_rename hrest (hall hgood)

/-- Rows added inside a transaction. -/
theorem addRows_open (rows : List Row) {f : TxnFile ModFile} {c : ModFile}
    (hc : f.working = some c) : rows.foldl (fun f row => Store.addRow row f) f =
      ⟨f.durable, some { c with samples := c.samples ++ rows.map (Row.keptIn c.columns) }⟩ := by
  induction rows generalizing f c with
  | nil =>
    rw [List.foldl_nil, List.map_nil, List.append_nil, ← hc]
  | cons row rows ih =>
    have hrow : (Store.addRow row f).working =
        some { c with samples := c.samples ++ [row.keptIn c.columns] } := by
      rw [Store.addRow, TxnFile.write, hc]
    rw [List.foldl_cons, ih hrow, Store.addRow, TxnFile.durable_write hc]
    simp

/-- A slice's samples are stored beside the old rows. -/
theorem inv_storeRows (h : MovingInv old s) (uuid : CString) (rows : List Row) :
    MovingInv old (storeRows uuid rows s) := by
  unfold storeRows
  split
  · dsimp only
    have hquiet := h.rest.quiet uuid
    have hbegin : (fileOf s uuid).begin.working = some (fileOf s uuid).durable := by
      rw [TxnFile.begin, TxnFile.view_of_closed hquiet]
    have hcommit : (rows.foldl (fun f row => Store.addRow row f) (fileOf s uuid).begin).commit =
        TxnFile.closed { (fileOf s uuid).durable with
          samples := (fileOf s uuid).durable.samples ++
            rows.map (Row.keptIn (fileOf s uuid).durable.columns) } := by
      rw [addRows_open rows hbegin]
      rfl
    generalize hs' : ({ s with
      store := s.store.onFile uuid fun f =>
        (rows.foldl (fun f row => Store.addRow row f) f.begin).commit
      others := Function.update s.others uuid
        (s.others uuid ++ rows.map fun row => (row.ts, row.online, row.reading)) } : Moving) = s'
    have hfile : ∀ v, fileOf s' v = if v = uuid then TxnFile.closed
        { (fileOf s uuid).durable with
          samples := (fileOf s uuid).durable.samples ++
            rows.map (Row.keptIn (fileOf s uuid).durable.columns) }
        else fileOf s v := by
      intro v
      rw [← hcommit, ← hs']
      exact fileOf_onFile s uuid _ v
    have hmark : ∀ v, Marked s' v ↔ Marked s v := by
      intro v
      rw [Marked, Marked, hfile]
      split
      · next hv => rw [hv]; exact Iff.rfl
      · exact Iff.rfl
    have hmoved : s'.moved = s.moved := by rw [← hs']
    have hothers : s'.others = Function.update s.others uuid
        (s.others uuid ++ rows.map Row.entry) := by
      rw [← hs']
      rfl
    refine ⟨⟨⟨fun v => ?_, fun _ => Iff.rfl, rfl⟩, fun v => ?_⟩, fun hm d hd => ?_⟩
    · have hwhole := h.rest.held.whole v
      simp only [hmark]
      rw [hfile, hothers, Function.update_apply]
      by_cases hv : v = uuid
      · rw [if_pos hv, if_pos hv]
        rw [hv] at hwhole ⊢
        have hentries : (rows.map (Row.keptIn (fileOf s uuid).durable.columns)).map Row.entry =
            rows.map Row.entry := by
          rw [List.map_map]
          rfl
        have hadded : (TxnFile.closed { (fileOf s uuid).durable with
            samples := (fileOf s uuid).durable.samples ++
              rows.map (Row.keptIn (fileOf s uuid).durable.columns) }).durable.entries =
            (fileOf s uuid).durable.entries ++ rows.map Row.entry := by
          rw [← hentries]
          exact List.map_append
        rw [hadded, List.append_assoc]
        refine (hwhole.append_right _).trans ?_
        rw [List.append_assoc]
        exact List.perm_append_comm.append_left _
      · rw [if_neg hv, if_neg hv]
        exact hwhole
    · rw [hfile]
      split
      · rfl
      · exact h.rest.quiet v
    · exact (hmark d.id).mpr (h.all (hmoved ▸ hm) d hd)
  · exact h

/-- Every event keeps the invariant under its condition. -/
theorem inv_moveStep (h : MovingInv old s) {ev : MoveEvent} (hborne : FatesBorne ev) :
    MovingInv old (moveStep old s ev) := by
  cases ev with
  | migrate specFor e fates => exact inv_migrate h hborne specFor e
  | register uuid name kind driver capture e fates =>
    refine inv_runProg h ?_
    refine (holds_register uuid name kind driver capture e).weaken (fun s h => h) (fun _ s' h' => ?_)
      fun s h => h
    exact inv_of_rest h h'
  | store uuid rows => exact inv_storeRows h uuid rows
  | restart => exact inv_of_rest h (rest_ended h.rest.held)

theorem MovingInv.movedOnce (h : MovingInv old s) : MovedOnce old s := by
  intro hmoved d hd
  have hwhole := h.rest.held.whole d.id
  rw [if_pos (h.all hmoved d hd)] at hwhole
  exact hwhole

/-- A history over files of which none was migrated. -/
def unmigrated (dir : CBuf 256) (files : FileId → ModFile) : Moving :=
  { store := { closedStore files with dir := dir, isOpen := true }
    moved := false
    others := fun uuid => (files (dir.str, uuid)).entries }

theorem inv_unmigrated (old : OldFile) (dir : CBuf 256) {files : FileId → ModFile}
    (hfresh : ∀ file, (files file).info .migrated ≠ migratedMark) :
    MovingInv old (unmigrated dir files) := by
  have hunmarked : ∀ uuid, ¬Marked (unmigrated dir files) uuid :=
    fun uuid => hfresh (dir.str, uuid)
  refine ⟨⟨⟨fun uuid => ?_, fun _ => Iff.rfl, rfl⟩, fun _ => rfl⟩, fun hmoved => ?_⟩
  · rw [if_neg (hunmarked uuid), List.append_nil]
    exact List.Perm.refl _
  · cases hmoved

/-- In every run of migrations, registrations, slices and ends of the process the old
file is renamed only when each row of every module it lists is in that module's file,
once, if no call fails whose result the code does not look at. -/
theorem rows_moved_once (old : OldFile) (dir : CBuf 256) {files : FileId → ModFile}
    (hfresh : ∀ file, (files file).info .migrated ≠ migratedMark) {evs : List MoveEvent}
    (hborne : ∀ ev ∈ evs, FatesBorne ev) :
    Always (moveStep old) (MovedOnce old) (unmigrated dir files) evs := by
  have hstep : ∀ s ev, MovingInv old s → FatesBorne ev → MovingInv old (moveStep old s ev) :=
    fun _ _ h hev => inv_moveStep h hev
  exact always_of_along hstep (fun _ h => h.movedOnce) (inv_unmigrated old dir hfresh)
    (along_of_mem _ hborne)

/-- One module with one row. -/
def oneRow : OldFile :=
  { devices := [⟨CString.lit "a1", CString.lit "Old", CString.lit "battery", CString.lit "jk",
      Double.ofInt 100, Double.zero⟩]
    rows := fun uuid => if uuid = CString.lit "a1" then
      [⟨Double.ofInt 100, 1, CString.lit "\x7b\x7d", .null, .null, .null, .null⟩] else [] }

/-- Every call gets through but one kind of call, which ends as given. -/
def allBut (bad : SqlCall) (fate : Option Fate) : Fates SqlCall :=
  fun _ call => if call = bad then fate else some .ok

/-- The commits of a run fail. -/
def commitFails : Fates SqlCall := allBut .commit (some .fail)

theorem allBorne_allBut {bad : SqlCall} {fate : Option Fate} (h : ∀ f ∈ fate, Borne bad f) :
    AllBorne (allBut bad fate) := by
  intro n call f hf
  unfold allBut at hf
  split at hf
  next hbad =>
    subst hbad
    exact h f hf
  next =>
    obtain rfl := Option.some.inj hf
    cases call <;> first | rfl | trivial | exact fun hfate => by cases hfate

/-- A migration with the fates of its calls. -/
def migrateWith (fates : Fates SqlCall) : MoveEvent :=
  .migrate (fun _ _ => CString.lit "\x7b\"retention_days\":30\x7d")
    { now := Double.ofInt 200, jsonExtract := fun _ _ => none } fates

/-- A run whose insertions fail, one that ends in front of its commit, a sample of the
module since it was configured again, and a run that cannot rename the old file before
one that can. -/
def fourMigrations : List MoveEvent :=
  [migrateWith (allBut .insert (some .fail)), migrateWith (allBut .commit none),
    .register (CString.lit "a1") (CString.lit "Old") (CString.lit "battery") (CString.lit "jk")
      (CString.lit "\x7b\"retention_days\":30\x7d")
      { now := Double.ofInt 200, jsonExtract := fun _ _ => none } (allBut .begin (some .ok)),
    .store (CString.lit "a1") [⟨Double.ofInt 200, 1, CString.lit "\x7b\x7d", []⟩],
    migrateWith (allBut .rename (some .fail)), migrateWith (allBut .rename (some .ok))]

/-- The row is moved once, by the third of the runs, and the old file renamed by the
fourth. -/
theorem rows_moved_once_ok :
    Always (moveStep oneRow) (MovedOnce oneRow)
      (unmigrated (CBuf.copy 256 (CString.lit "/h")) fun _ => ModFile.fresh) fourMigrations := by
  refine rows_moved_once oneRow _ (fun _ => by decide) ?_
  simp only [fourMigrations, List.forall_mem_cons]
  refine ⟨?_, ?_, ?_, trivial, ?_, ?_, List.forall_mem_nil _⟩ <;>
    exact allBorne_allBut (by simp [Borne])

example : ((fourMigrations.foldl (moveStep oneRow)
    (unmigrated (CBuf.copy 256 (CString.lit "/h")) fun _ => ModFile.fresh)).moved,
    (fourMigrations.take 5 |>.foldl (moveStep oneRow)
      (unmigrated (CBuf.copy 256 (CString.lit "/h")) fun _ => ModFile.fresh)).moved) =
    (true, false) := by decide +kernel

/-- The old file is renamed although its row was not committed. -/
theorem row_lost_by_commit :
    ¬Always (moveStep oneRow) (MovedOnce oneRow)
      (unmigrated (CBuf.copy 256 (CString.lit "/h")) fun _ => ModFile.fresh)
      [migrateWith commitFails] := by
  rintro ⟨hmoved, -⟩
  have hperm := hmoved (by decide +kernel) _ List.mem_cons_self
  have hlength := hperm.length_eq
  revert hlength
  decide +kernel

end MoonFlare.History
