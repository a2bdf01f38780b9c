import MoonFlare.History
import MoonFlare.Runs

/-!
# Every sample once

A sample that was put in the ring is stored once in its own module's file, in the
order of the ring, or it is evicted as the oldest of a full ring. Retiring a module
drains the ring first; closing the history does not.
-/

namespace MoonFlare.History

open Runs

/-! ## What is to hold -/

/-- What identifies a sample in its file. -/
abbrev Entry := Double × ℤ × CString

/-- The entry of a row. -/
def Row.entry (r : Row) : Entry := (r.ts, r.online, r.reading)

@[simp] theorem Row.entry_keptIn (columns : List HistCol) (r : Row) :
    (r.keptIn columns).entry = r.entry := rfl

/-- The entry that a sample is to have. -/
def Sample.entry (s : Sample) : Entry := (s.ts, s.online, readingText s.reading.str)

/-- What was put in the ring for a file and not evicted. -/
def kept (log : List Logged) (file : FileId) : List Entry :=
  (log.filter fun l => decide (l.file = file) && !l.evicted).map fun l => l.sample.entry

namespace Store

/-- What is durable in a file. -/
def stored (st : Store) (file : FileId) : List Entry :=
  (st.files file).durable.samples.map Row.entry

/-- What the connection to a file sees. -/
def seen (st : Store) (file : FileId) : List Entry :=
  (st.files file).view.samples.map Row.entry

/-- A sample of the ring, as it was recorded. -/
def logged (st : Store) (s : Sample) : Logged := ⟨st.fileId s.uuid.str, s, false⟩

/-- What is queued for a file. -/
def queued (st : Store) (file : FileId) : List Entry := kept (st.ring.contents.map st.logged) file

end Store

/-- At most the oldest sample of a full ring is marked as evicted, and nothing else of
the record changes but its end. -/
def EvictsOldest (st st' : Store) : Prop :=
  ∀ (k : ℕ) (l : Logged), st.log[k]? = some l → st'.log[k]? = some l ∨
    st.ring.count = mfHistoryRingCap ∧ k + st.ring.count = st.log.length ∧
      st'.log[k]? = some { l with evicted := true }

/-- What is promised of a call, given what the files held at first. -/
structure StoredOnce (before : FileId → List Entry) (st : Store) (call : HistCall) : Prop where
  conserved : ∀ file, (histStep st call).stored file ++ (histStep st call).queued file =
    before file ++ kept (histStep st call).log file
  evicts : EvictsOldest st (histStep st call)

/-- The condition: nothing is queued when the history is closed, also by opening it
again. -/
def DrainedBeforeClose (st : Store) : HistCall → Prop
  | .close => st.ring.count = 0
  | .open_ dir _ => dir.nonempty = true → st.ring.count = 0
  | _ => True

/-! ## Records -/

variable {before : FileId → List Entry} {st : Store}

@[simp] theorem kept_nil (file : FileId) : kept [] file = [] := rfl

@[simp] theorem kept_append (log log' : List Logged) (file : FileId) :
    kept (log ++ log') file = kept log file ++ kept log' file := by
  simp [kept]

theorem kept_cons (l : Logged) (log : List Logged) (file : FileId) :
    kept (l :: log) file = kept [l] file ++ kept log file := kept_append [l] log file

theorem kept_evicted (l : Logged) (file : FileId) : kept [{ l with evicted := true }] file = [] := by
  simp [kept]

theorem kept_of_file (l : Logged) (h : l.evicted = false) :
    kept [l] l.file = [l.sample.entry] := by
  simp [kept, h]

theorem kept_of_ne {l : Logged} {file : FileId} (h : l.file ≠ file) : kept [l] file = [] := by
  simp [kept, h]

/-! ## Searching -/

theorem exists_of_findMod {uuid : CString} {i : Fin mfHistoryMaxModules}
    (h : st.findMod uuid = some i) : ∃ m, st.mods i = some m ∧ m.uuid.str = uuid := by
  have hfound := List.find?_some h
  simpa [Option.any_eq_true_iff_get, Option.eq_some_iff_get_eq] using hfound

theorem findMod_of_exists {uuid : CString} {i : Fin mfHistoryMaxModules} {m : HistMod}
    (h : st.mods i = some m) (hu : m.uuid.str = uuid) : ∃ j, st.findMod uuid = some j := by
  refine Option.isSome_iff_exists.mp (List.find?_isSome.mpr ⟨i, List.mem_finRange i, ?_⟩)
  simp [h, hu]

/-! ## The invariant -/

/-- What holds of the history, inside a slice too. -/
structure Sound (before : FileId → List Entry) (st : Store) : Prop where
  /-- A module's statement is prepared. -/
  ready : ∀ i m, st.mods i = some m → m.ins.isSome = true
  opened : ∀ i m, st.mods i = some m → st.isOpen = true
  /-- A queued sample's module is there. -/
  found : ∀ s ∈ st.ring.contents, ∃ i m, st.mods i = some m ∧ m.uuid.str = s.uuid.str
  room : st.ring.count ≤ mfHistoryRingCap
  /-- The record ends with the queue; what is before it is in the files. -/
  split : ∃ gone, st.log = gone ++ st.ring.contents.map st.logged ∧
    ∀ file, st.seen file = before file ++ kept gone file

/-- No transaction is open. -/
structure Idle (st : Store) : Prop where
  files : ∀ file, (st.files file).working = none
  mods : ∀ i m, st.mods i = some m → m.inTxn = false

/-- What holds between the calls. -/
structure Inv (before : FileId → List Entry) (st : Store) : Prop where
  sound : Sound before st
  idle : Idle st

theorem Idle.stored_eq (h : Idle st) (file : FileId) : st.stored file = st.seen file := by
  rw [Store.stored, Store.seen, TxnFile.view_of_closed (h.files file)]

/-- The promise between the calls. -/
theorem Inv.conserved (h : Inv before st) (file : FileId) :
    st.stored file ++ st.queued file = before file ++ kept st.log file := by
  obtain ⟨gone, hlog, hseen⟩ := h.sound.split
  rw [h.idle.stored_eq, hseen, hlog, kept_append, List.append_assoc, Store.queued]

/-! ## Changes that leave the queue alone -/

/-- A slot is written with the same module. -/
theorem Sound.setMod (h : Sound before st) {i : Fin mfHistoryMaxModules} {m' : HistMod}
    (hsame : ∀ m, st.mods i = some m → m.uuid = m'.uuid) (hopen : st.isOpen = true)
    (hins : m'.ins.isSome = true) : Sound before (st.setMod i (some m')) := by
  have hmods : ∀ j m, (st.setMod i (some m')).mods j = some m →
      j = i ∧ m = m' ∨ st.mods j = some m := by
    intro j m hj
    simp only [Store.setMod, Function.update_apply] at hj
    split at hj
    · next heq => exact Or.inl ⟨heq, (Option.some.inj hj).symm⟩
    · exact Or.inr hj
  refine ⟨?_, fun _ _ _ => hopen, ?_, h.room, h.split⟩
  · intro j m hj
    rcases hmods j m hj with ⟨-, rfl⟩ | hold
    · exact hins
    · exact h.ready j m hold
  · intro s hs
    obtain ⟨j, m, hj, hu⟩ := h.found s hs
    by_cases heq : j = i
    · subst heq
      refine ⟨j, m', Function.update_self _ _ _, ?_⟩
      rw [← hsame m hj]
      exact hu
    · exact ⟨j, m, (Function.update_of_ne heq _ _).trans hj, hu⟩

/-- A file is changed without changing its entries. -/
theorem Sound.onFile (h : Sound before st) (uuid : CString) {f : TxnFile ModFile → TxnFile ModFile}
    (hf : ∀ file, (f file).view.samples.map Row.entry = file.view.samples.map Row.entry) :
    Sound before (st.onFile uuid f) := by
  have hseen : ∀ file, (st.onFile uuid f).seen file = st.seen file := by
    intro file
    simp only [Store.seen, Store.onFile, Function.update_apply]
    split
    · next heq => rw [hf, heq]
    · rfl
  obtain ⟨gone, hlog, hgone⟩ := h.split
  exact ⟨h.ready, h.opened, h.found, h.room, gone, hlog, fun file => (hseen file).trans (hgone file)⟩

theorem Sound.setMeta (h : Sound before st) (uuid : CString) (key : MetaKey)
    (value : Option MetaValue) : Sound before (st.setMeta uuid key value) :=
  h.onFile uuid fun file => by rw [TxnFile.view_write]

theorem Idle.setMod (h : Idle st) (i : Fin mfHistoryMaxModules) {m' : HistMod}
    (hm : m'.inTxn = false) : Idle (st.setMod i (some m')) := by
  refine ⟨h.files, fun j m hj => ?_⟩
  simp only [Store.setMod, Function.update_apply] at hj
  split at hj
  · rw [← Option.some.inj hj]
    exact hm
  · exact h.mods j m hj

theorem Idle.write (h : Idle st) (uuid : CString) (change : ModFile → ModFile) :
    Idle (st.onFile uuid fun f => f.write change) := by
  refine ⟨fun file => ?_, h.mods⟩
  simp only [Store.onFile, Function.update_apply]
  split
  · exact TxnFile.working_write (h.files _) change
  · exact h.files file

theorem Inv.setMeta (h : Inv before st) (uuid : CString) (key : MetaKey)
    (value : Option MetaValue) : Inv before (st.setMeta uuid key value) :=
  ⟨h.sound.setMeta uuid key value, h.idle.write uuid _⟩

/-! ## Registering -/

theorem entries_extendColumn (c : HistCol) (f : ModFile) :
    (Store.extendColumn c f).samples.map Row.entry = f.samples.map Row.entry := by
  simp only [Store.extendColumn, List.map_map]
  rfl

theorem entries_backfillColumn (e : HistEnv) (c : HistCol) (f : ModFile) :
    (Store.backfillColumn e c f).samples.map Row.entry = f.samples.map Row.entry := by
  simp only [Store.backfillColumn, List.map_map]
  refine List.map_congr_left fun row _ => ?_
  simp only [Function.comp_apply]
  split <;> rfl

theorem entries_addColumn (e : HistEnv) (f : ModFile) (c : HistCol) :
    (Store.addColumn e f c).samples.map Row.entry = f.samples.map Row.entry := by
  unfold Store.addColumn
  split
  · rfl
  · rw [entries_backfillColumn, entries_extendColumn]

theorem entries_addColumns (e : HistEnv) (cols : List HistCol) (f : ModFile) :
    (cols.foldl (Store.addColumn e) f).samples.map Row.entry = f.samples.map Row.entry := by
  induction cols generalizing f with
  | nil => rfl
  | cons c cols ih => rw [List.foldl_cons, ih, entries_addColumn]

theorem Inv.syncColumns (h : Inv before st) (e : HistEnv) {i : Fin mfHistoryMaxModules}
    {m' : HistMod} (hsame : ∀ m, st.mods i = some m → m.uuid = m'.uuid) (hopen : st.isOpen = true)
    (hidle : m'.inTxn = false) : Inv before (st.syncColumns e i m') := by
  have hsound : Sound before (st.onFile m'.uuid.str fun f =>
      f.write fun c => m'.cols.foldl (Store.addColumn e) c) :=
    h.sound.onFile _ fun file => by rw [TxnFile.view_write, entries_addColumns]
  exact ⟨hsound.setMod hsame hopen rfl, (h.idle.write _ _).setMod i hidle⟩

theorem takeSpec_same (m : HistMod) (kind : CString) (spec : Option HistSpec) :
    (Store.dueNow (Store.takeSpec m kind spec)).uuid = m.uuid ∧
      (Store.dueNow (Store.takeSpec m kind spec)).inTxn = m.inTxn := by
  cases spec <;> exact ⟨rfl, rfl⟩

theorem Inv.describe (h : Inv before st) (uuid name kind driver capture : CString) (e : HistEnv) :
    Inv before (st.describe uuid name kind driver capture e) := by
  have hmeta := ((((h.setMeta uuid .uuid (some (.text uuid))).setMeta uuid .name
    (some (.text name))).setMeta uuid .kind (some (.text kind))).setMeta uuid .driver
    (some (.text driver)))
  have hlast := (hmeta.setMeta uuid .capture
    (if capture.nonempty then some (.text capture) else none)).setMeta uuid .retiredTs none
  unfold Store.describe
  exact iteInduction (fun _ => hlast.setMeta uuid .createdTs _) fun _ => hlast

theorem Inv.registerAt (h : Inv before st) {i : Fin mfHistoryMaxModules} {m' : HistMod}
    (hsame : ∀ m, st.mods i = some m → m.uuid = m'.uuid) (hopen : st.isOpen = true)
    (hidle : m'.inTxn = false) (uuid name kind driver capture : CString) (e : HistEnv) :
    Inv before (st.registerAt i m' uuid name kind driver capture e) := by
  obtain ⟨huuid, htxn⟩ := takeSpec_same m' kind (parseSpec capture)
  have hsync := h.syncColumns e (fun m hm => (hsame m hm).trans huuid.symm) hopen
    (htxn.trans hidle)
  exact hsync.describe uuid name kind driver capture e

theorem inv_register (h : Inv before st) (uuid name kind driver capture : CString) (e : HistEnv) :
    Inv before (st.register uuid name kind driver capture e).1 := by
  unfold Store.register
  split
  · exact h
  · next hbad =>
    have hopen : st.isOpen = true := by
      by_contra hclosed
      exact hbad (Or.inl (by simpa using hclosed))
    split
    · split
      · next i _ _ m hm =>
        refine h.registerAt ?_ hopen (h.idle.mods i m hm) uuid name kind driver capture e
        intro m' hm'
        rw [Option.some.inj (hm.symm.trans hm')]
      · exact h
    · split
      · next i hfree =>
        have hnone : (st.mods i).isNone = true := by simpa using List.find?_some hfree
        refine h.registerAt ?_ hopen rfl uuid name kind driver capture e
        intro m hm
        rw [hm] at hnone
        cases hnone
      · exact h

/-! ## Enqueuing -/

/-- Changing the element behind a prefix of a list. -/
theorem modify_append_cons {α : Type*} (gone : List α) (x : α) (rest : List α) (f : α → α) :
    (gone ++ x :: rest).modify gone.length f = gone ++ f x :: rest := by
  induction gone with
  | nil => rfl
  | cons a gone ih => simp [ih]

/-- The oldest sample leaves the ring as evicted. -/
theorem Sound.dropOldest (h : Sound before st) (hfull : 0 < st.ring.count) :
    Sound before st.dropOldest := by
  have hcons := RingBuffer.contents_eq_cons hfull
  obtain ⟨gone, hlog, hgone⟩ := h.split
  have hplace : st.log.length - st.ring.count = gone.length := by
    rw [hlog, List.length_append, List.length_map, RingBuffer.length_contents]
    omega
  have hmarked : st.dropOldest.log = (gone ++ [{ st.logged st.ring.front with evicted := true }]) ++
      st.ring.popFront.contents.map st.logged := by
    unfold Store.dropOldest
    dsimp only
    rw [hplace, hlog, hcons, List.map_cons, modify_append_cons, List.append_assoc]
    rfl
  refine ⟨h.ready, h.opened, fun s hs => ?_, ?_, _, hmarked, fun file => ?_⟩
  · exact h.found s (hcons ▸ List.mem_cons_of_mem _ hs)
  · have hroom := h.room
    exact (Nat.sub_le _ _).trans hroom
  · rw [kept_append, kept_evicted, List.append_nil]
    exact hgone file

/-- A sample of a module that is there enters the ring. -/
theorem Sound.putSample (h : Sound before st) {s : Sample} (hroom : st.ring.count < mfHistoryRingCap)
    {i : Fin mfHistoryMaxModules} {m : HistMod} (hm : st.mods i = some m)
    (hu : m.uuid.str = s.uuid.str) : Sound before (st.putSample s) := by
  have hpush := RingBuffer.contents_pushBack hroom s
  obtain ⟨gone, hlog, hgone⟩ := h.split
  refine ⟨h.ready, h.opened, ?_, hroom, gone, ?_, hgone⟩
  · intro s' hs'
    have hs' : s' ∈ st.ring.contents ++ [s] := hpush ▸ hs'
    rcases List.mem_append.mp hs' with hold | hnew
    · exact h.found s' hold
    · rw [List.mem_singleton.mp hnew]
      exact ⟨i, m, hm, hu⟩
  · have hsplit : st.log ++ [st.logged s] = gone ++ (st.ring.contents ++ [s]).map st.logged := by
      rw [hlog, List.map_append, List.append_assoc]
      rfl
    exact hsplit.trans (by rw [← hpush]; rfl)

theorem inv_enqueue (h : Inv before st) (s : Sample) : Inv before (st.enqueue s).1 := by
  unfold Store.enqueue
  split
  · exact h
  · next hgo =>
    split
    · exact h
    · next i hfind =>
      split
      · exact h
      · next m hm =>
        obtain ⟨m', hm', hu⟩ := exists_of_findMod hfind
        obtain rfl := Option.some.inj (hm.symm.trans hm')
        have hsame : ∀ m', st.mods i = some m' → m'.uuid = m.uuid := fun m' h' => by
          rw [Option.some.inj (hm.symm.trans h')]
        have hset : Sound before (st.setMod i (some { m with lastTs := s.ts })) :=
          h.sound.setMod hsame (h.sound.opened i m hm) (h.sound.ready i m hm)
        have hidle : Idle (st.setMod i (some { m with lastTs := s.ts })) :=
          h.idle.setMod i (h.idle.mods i m hm)
        have hthere : (st.setMod i (some { m with lastTs := s.ts })).mods i =
            some { m with lastTs := s.ts } := Function.update_self _ _ _
        split
        · exact h
        split
        · exact h
        · dsimp only
          generalize st.setMod i (some { m with lastTs := s.ts }) = d at hset hidle hthere ⊢
          split
          · next hfull =>
            have hcount : 0 < d.ring.count := by
              rw [hfull]
              decide
            have hroom : d.dropOldest.ring.count < mfHistoryRingCap := by
              have hpop : d.dropOldest.ring.count = d.ring.count - 1 := rfl
              omega
            exact ⟨(hset.dropOldest hcount).putSample hroom hthere hu, hidle.files, hidle.mods⟩
          · next hspace =>
            have hroom := hset.room
            exact ⟨hset.putSample (by omega) hthere hu, hidle.files, hidle.mods⟩

/-! ## Flushing -/

/-- What a slice has open: the files of modules in the slots that are not committed
yet. -/
structure Slice (l : List (Fin mfHistoryMaxModules)) (st : Store) : Prop where
  files : ∀ file, (st.files file).working ≠ none →
    ∃ i ∈ l, ∃ m, st.mods i = some m ∧ m.inTxn = true ∧ st.fileId m.uuid.str = file
  mods : ∀ i m, st.mods i = some m → m.inTxn = true → i ∈ l

theorem Idle.slice (h : Idle st) (l : List (Fin mfHistoryMaxModules)) : Slice l st := by
  refine ⟨fun file hopen => absurd (h.files file) hopen, fun i m hm htxn => ?_⟩
  rw [h.mods i m hm] at htxn
  cases htxn

theorem Slice.idle (h : Slice [] st) : Idle st := by
  refine ⟨fun file => ?_, fun i m hm => ?_⟩
  · by_contra hopen
    obtain ⟨i, hi, -⟩ := h.files file hopen
    cases hi
  · by_contra htxn
    cases h.mods i m hm (by simpa using htxn)

namespace Store

/-- Beginning a transaction changes nothing else. -/
theorem begun_same (st : Store) (m : HistMod) :
    (st.begun m).mods = st.mods ∧ (st.begun m).dir = st.dir ∧ (st.begun m).ring = st.ring ∧
      (st.begun m).log = st.log ∧ (st.begun m).isOpen = st.isOpen := by
  unfold begun
  split <;> exact ⟨rfl, rfl, rfl, rfl, rfl⟩

theorem seen_begun (st : Store) (m : HistMod) (file : FileId) :
    (st.begun m).seen file = st.seen file := by
  unfold begun
  split
  · rfl
  · simp only [seen, onFile, Function.update_apply]
    split
    · next heq => rw [TxnFile.view_begin, heq]
    · rfl

theorem fileId_begun (st : Store) (m : HistMod) (uuid : CString) :
    (st.begun m).fileId uuid = st.fileId uuid := by
  rw [fileId, (begun_same st m).2.1, fileId]

/-- What a row adds to what is seen. -/
theorem seen_addRow (st : Store) (uuid : CString) (row : Row) (file : FileId) :
    (st.onFile uuid (addRow row)).seen file =
      st.seen file ++ if file = st.fileId uuid then [row.entry] else [] := by
  simp only [seen, onFile, Function.update_apply]
  split
  · next heq => simp [addRow, heq]
  · simp

/-- A file that is in a transaction behind a sample was in one before, or is that of
the sample. -/
theorem working_addRow (st : Store) (m : HistMod) (row : Row) {file : FileId}
    (h : file ≠ st.fileId m.uuid.str) :
    (((st.begun m).onFile m.uuid.str (addRow row)).files file).working =
      (st.files file).working := by
  have hne : file ≠ (st.begun m).fileId m.uuid.str := by rwa [fileId_begun]
  simp only [onFile, Function.update_of_ne hne]
  unfold begun
  split
  · rfl
  · simp only [onFile, Function.update_of_ne h]

end Store

/-- One sample of a slice goes to its module's file. -/
theorem flushOne_eq (h : Sound before st) (hmore : 0 < st.ring.count) :
    ∃ i m ins, st.mods i = some m ∧ m.uuid.str = st.ring.front.uuid.str ∧ m.ins = some ins ∧
      st.flushOne = ((st.begun m).insertSample i m ins st.ring.front).popSample := by
  have hmem : st.ring.front ∈ st.ring.contents := by
    rw [RingBuffer.contents_eq_cons hmore]
    exact List.mem_cons_self
  obtain ⟨j, n, hn, hnu⟩ := h.found _ hmem
  obtain ⟨i, hi⟩ := findMod_of_exists hn hnu
  obtain ⟨m, hm, hu⟩ := exists_of_findMod hi
  obtain ⟨ins, hins⟩ := Option.isSome_iff_exists.mp (h.ready i m hm)
  refine ⟨i, m, ins, hm, hu, hins, ?_⟩
  unfold Store.flushOne
  simp only [hi, hm, hins]

theorem Sound.flushOne (h : Sound before st) (hmore : 0 < st.ring.count) :
    Sound before st.flushOne := by
  obtain ⟨i, m, ins, hm, hu, hins, heq⟩ := flushOne_eq h hmore
  obtain ⟨hmods, hdir, hring, hlog, -⟩ := Store.begun_same st m
  have hcons := RingBuffer.contents_eq_cons hmore
  have hmoved : Sound before ((st.begun m).setMod i (some (Store.fedMod m st.ring.front))) := by
    have hbegin : Sound before (st.begun m) := by
      unfold Store.begun
      split
      · exact h
      · exact h.onFile _ fun file => by rw [TxnFile.view_begin]
    have hthere : (st.begun m).mods i = some m := by rw [hmods, hm]
    refine hbegin.setMod (fun n hn => ?_) (hbegin.opened i m hthere) (by simp [Store.fedMod, hins])
    rw [← Option.some.inj (hthere.symm.trans hn)]
    rfl
  have hseen : ∀ file, st.flushOne.seen file =
      st.seen file ++ kept [st.logged st.ring.front] file := by
    intro file
    rw [heq]
    refine (Store.seen_addRow (st.begun m) m.uuid.str _ file).trans ?_
    rw [Store.fileId_begun, Store.seen_begun, hu]
    split
    · next hfile =>
      rw [hfile]
      exact congrArg _ (kept_of_file (st.logged st.ring.front) rfl).symm
    · next hfile => rw [kept_of_ne fun heq => hfile heq.symm]
  have hkeep : st.flushOne.mods = ((st.begun m).setMod i (some (Store.fedMod m st.ring.front))).mods ∧
      st.flushOne.ring = st.ring.popFront ∧ st.flushOne.log = st.log ∧
      st.flushOne.dir = st.dir ∧ st.flushOne.isOpen = (st.begun m).isOpen := by
    rw [heq, ← hdir, ← hlog]
    refine ⟨rfl, ?_, rfl, rfl, rfl⟩
    rw [← hring]
    rfl
  obtain ⟨hmods', hring', hlog', hdir', hopen'⟩ := hkeep
  have hlogged : st.flushOne.logged = st.logged := by
    funext s
    simp only [Store.logged, Store.fileId, hdir']
  obtain ⟨gone, hsplit, hgone⟩ := h.split
  refine ⟨?_, ?_, ?_, ?_, gone ++ [st.logged st.ring.front], ?_, fun file => ?_⟩
  · rw [hmods']
    exact hmoved.ready
  · rw [hmods', hopen']
    exact hmoved.opened
  · rw [hring', hmods']
    intro s hs
    refine hmoved.found s ?_
    have hmem : s ∈ st.ring.contents := hcons ▸ List.mem_cons_of_mem _ hs
    rwa [← hring] at hmem
  · rw [hring']
    exact (Nat.sub_le _ _).trans h.room
  · rw [hlog', hring', hlogged, hsplit, hcons]
    simp
  · rw [hseen, hgone, kept_append, List.append_assoc]

/-- A slice's transactions behind one more sample. -/
theorem Slice.flushOne (hslice : Slice (List.finRange mfHistoryMaxModules) st)
    (h : Sound before st) (hmore : 0 < st.ring.count) :
    Slice (List.finRange mfHistoryMaxModules) st.flushOne := by
  obtain ⟨i, m, ins, hm, hu, hins, heq⟩ := flushOne_eq h hmore
  obtain ⟨hmods, hdir, -⟩ := Store.begun_same st m
  refine ⟨fun file hopen => ?_, fun j n _ _ => List.mem_finRange j⟩
  have hself : st.flushOne.mods i = some (Store.fedMod m st.ring.front) := by
    rw [heq]
    exact Function.update_self _ _ _
  have hdir' : st.flushOne.dir = st.dir := by
    rw [heq, ← hdir]
    rfl
  by_cases hfile : file = st.fileId m.uuid.str
  · refine ⟨i, List.mem_finRange i, _, hself, rfl, ?_⟩
    rw [hfile, Store.fileId, hdir']
    rfl
  · have hbefore : (st.files file).working ≠ none := by
      rw [← Store.working_addRow st m
        (sampleRow ins m.cols st.ring.front.ts st.ring.front.online st.ring.front.reading.str [])
        hfile]
      rw [heq] at hopen
      exact hopen
    obtain ⟨j, -, n, hn, htxn, hid⟩ := hslice.files file hbefore
    have hother : j ≠ i := by
      intro hji
      rw [hji, hm] at hn
      rw [← Option.some.inj hn] at hid
      exact hfile hid.symm
    have hkeep : st.flushOne.mods j = some n := by
      rw [heq]
      refine (Function.update_of_ne hother _ _).trans ?_
      rw [← hn, ← hmods]
      rfl
    refine ⟨j, List.mem_finRange j, n, hkeep, htxn, ?_⟩
    rw [← hid, Store.fileId, Store.fileId, hdir']

/-- What a sample of a slice does to the ring and to the record. -/
theorem flushOne_queue (h : Sound before st) (hmore : 0 < st.ring.count) :
    st.flushOne.ring = st.ring.popFront ∧ st.flushOne.log = st.log := by
  obtain ⟨i, m, ins, -, -, -, heq⟩ := flushOne_eq h hmore
  obtain ⟨-, -, hring, hlog, -⟩ := Store.begun_same st m
  rw [heq, ← hring, ← hlog]
  exact ⟨rfl, rfl⟩

/-- The samples of a slice leave the ring for their files. -/
theorem flushLoop_spec (rows : ℕ) (h : Sound before st)
    (hslice : Slice (List.finRange mfHistoryMaxModules) st) :
    Sound before (Store.flushLoop rows st) ∧
      Slice (List.finRange mfHistoryMaxModules) (Store.flushLoop rows st) ∧
      (Store.flushLoop rows st).ring.count = st.ring.count - rows ∧
      (Store.flushLoop rows st).log = st.log := by
  induction rows generalizing st with
  | zero => exact ⟨h, hslice, rfl, rfl⟩
  | succ rows ih =>
    rw [Store.flushLoop]
    split
    · next hempty => exact ⟨h, hslice, by omega, rfl⟩
    · next hsome =>
      have hmore : 0 < st.ring.count := by omega
      obtain ⟨hring, hlog⟩ := flushOne_queue h hmore
      obtain ⟨hsound, hnext, hcount, hkept⟩ := ih (h.flushOne hmore) (hslice.flushOne h hmore)
      refine ⟨hsound, hnext, ?_, hkept.trans hlog⟩
      rw [hcount, hring, RingBuffer.count_popFront]
      omega

/-- Committing a slot's transaction. -/
theorem commitSlot_spec {i : Fin mfHistoryMaxModules} {l : List (Fin mfHistoryMaxModules)}
    (h : Sound before st) (hslice : Slice (i :: l) st) :
    Sound before (st.commitSlot i) ∧ Slice l (st.commitSlot i) ∧
      (st.commitSlot i).ring = st.ring ∧ (st.commitSlot i).log = st.log := by
  have hskip : (∀ m, st.mods i = some m → m.inTxn = false) → Slice l st := by
    intro hidle
    refine ⟨fun file hopen => ?_, fun j m hm htxn => ?_⟩
    · obtain ⟨j, hj, m, hm, htxn, hid⟩ := hslice.files file hopen
      rcases List.mem_cons.mp hj with rfl | hj
      · rw [hidle m hm] at htxn
        cases htxn
      · exact ⟨j, hj, m, hm, htxn, hid⟩
    · rcases List.mem_cons.mp (hslice.mods j m hm htxn) with rfl | hj
      · rw [hidle m hm] at htxn
        cases htxn
      · exact hj
  unfold Store.commitSlot
  split
  · next m hm =>
    split
    · have hcommit : Sound before (st.onFile m.uuid.str TxnFile.commit) :=
        h.onFile _ fun file => by rw [TxnFile.view_commit]
      have hsame : ∀ n, (st.onFile m.uuid.str TxnFile.commit).mods i = some n →
          n.uuid = m.uuid := fun n hn => by rw [Option.some.inj (hm.symm.trans hn)]
      refine ⟨hcommit.setMod hsame (h.opened i m hm) (h.ready i m hm), ⟨?_, ?_⟩, rfl, rfl⟩
      · intro file hopen
        have hne : file ≠ st.fileId m.uuid.str := by
          rintro rfl
          refine hopen ?_
          simp [Store.setMod, Store.onFile, TxnFile.commit, TxnFile.closed]
        have hbefore : (st.files file).working ≠ none := by
          simpa [Store.setMod, Store.onFile, Function.update_of_ne hne] using hopen
        obtain ⟨j, hj, n, hn, htxn, hid⟩ := hslice.files file hbefore
        have hother : j ≠ i := by
          intro hji
          rw [hji, hm] at hn
          rw [← Option.some.inj hn] at hid
          exact hne hid.symm
        refine ⟨j, List.mem_of_ne_of_mem hother hj, n, ?_, htxn, hid⟩
        exact (Function.update_of_ne hother _ _).trans hn
      · intro j n hn htxn
        simp only [Store.setMod, Function.update_apply] at hn
        split at hn
        · rw [← Option.some.inj hn] at htxn
          cases htxn
        · next hother => exact List.mem_of_ne_of_mem hother (hslice.mods j n hn htxn)
    · next hidle =>
      refine ⟨h, hskip fun n hn => ?_, rfl, rfl⟩
      rw [← Option.some.inj (hm.symm.trans hn)]
      simpa using hidle
  · next hnone =>
    refine ⟨h, hskip fun n hn => ?_, rfl, rfl⟩
    rw [hnone] at hn
    cases hn

/-- Committing the slots in turn. -/
theorem commitSlots_spec (l : List (Fin mfHistoryMaxModules)) (h : Sound before st)
    (hslice : Slice l st) :
    Inv before (l.foldl Store.commitSlot st) ∧ (l.foldl Store.commitSlot st).ring = st.ring ∧
      (l.foldl Store.commitSlot st).log = st.log := by
  induction l generalizing st with
  | nil => exact ⟨⟨h, hslice.idle⟩, rfl, rfl⟩
  | cons i l ih =>
    obtain ⟨hsound, hrest, hring, hlog⟩ := commitSlot_spec h hslice
    obtain ⟨hinv, hring', hlog'⟩ := ih hsound hrest
    exact ⟨hinv, hring'.trans hring, hlog'.trans hlog⟩

/-- A slice takes the oldest samples to their files and leaves the record. -/
theorem flushSlice_spec (h : Inv before st) (maxRows : ℤ) :
    Inv before (st.flushSlice maxRows).1 ∧ (st.flushSlice maxRows).1.log = st.log ∧
      (st.isOpen = true → (st.flushSlice maxRows).1.ring.count = st.ring.count - maxRows.toNat) := by
  unfold Store.flushSlice
  split
  · next hnot =>
    refine ⟨h, rfl, fun hopen => ?_⟩
    have hrows : maxRows ≤ 0 := hnot.resolve_left (by simp [hopen])
    have hzero : maxRows.toNat = 0 := Int.toNat_of_nonpos hrows
    simp [hzero]
  · obtain ⟨hsound, hslice, hcount, hlog⟩ := flushLoop_spec maxRows.toNat h.sound
      (h.idle.slice (List.finRange mfHistoryMaxModules))
    obtain ⟨hinv, hring, hlog'⟩ := commitSlots_spec _ hsound hslice
    refine ⟨hinv, hlog'.trans hlog, fun _ => ?_⟩
    rw [hring, hcount]

/-! ## Retiring and closing -/

/-- Retiring a module drains the ring first. -/
theorem retire_spec (h : Inv before st) (uuid : CString) (retiredTs : Double) :
    Inv before (st.retire uuid retiredTs).1 ∧ (st.retire uuid retiredTs).1.log = st.log := by
  unfold Store.retire
  split
  · exact ⟨h, rfl⟩
  · next i hfind =>
    obtain ⟨m, hm, -⟩ := exists_of_findMod hfind
    obtain ⟨hflush, hlog, hcount⟩ := flushSlice_spec h mfHistoryRingCap
    dsimp only
    have hmeta := hflush.setMeta uuid .retiredTs (some (.number retiredTs))
    have hring : ((st.flushSlice mfHistoryRingCap).1.setMeta uuid .retiredTs
        (some (.number retiredTs))).ring.count = 0 := by
      have hroom := h.sound.room
      have hdrained := hcount (h.sound.opened i m hm)
      rw [Int.toNat_natCast] at hdrained
      have hsame : ((st.flushSlice mfHistoryRingCap).1.setMeta uuid .retiredTs
        (some (.number retiredTs))).ring = (st.flushSlice mfHistoryRingCap).1.ring := rfl
      rw [hsame]
      omega
    refine ⟨?_, hlog⟩
    generalize (st.flushSlice mfHistoryRingCap).1.setMeta uuid .retiredTs
      (some (.number retiredTs)) = d at hmeta hring ⊢
    have hnone : d.ring.contents = [] := RingBuffer.contents_of_count_zero hring
    have hslot : ∀ j n, (d.closeMod i).mods j = some n → d.mods j = some n := by
      intro j n hn
      simp only [Store.closeMod, Store.setMod, Function.update_apply] at hn
      split at hn
      · cases hn
      · exact hn
    refine ⟨⟨?_, ?_, ?_, hmeta.sound.room, hmeta.sound.split⟩, hmeta.idle.files, ?_⟩
    · exact fun j n hn => hmeta.sound.ready j n (hslot j n hn)
    · exact fun j n hn => hmeta.sound.opened j n (hslot j n hn)
    · intro s hs
      have hs : s ∈ d.ring.contents := hs
      rw [hnone] at hs
      cases hs
    · exact fun j n hn => hmeta.idle.mods j n (hslot j n hn)

/-- Closing with nothing queued. -/
theorem inv_close (h : Inv before st) (hdrained : st.ring.count = 0) : Inv before st.close := by
  obtain ⟨gone, hlog, hgone⟩ := h.sound.split
  have hnone := RingBuffer.contents_of_count_zero hdrained
  have hmods : ∀ i, st.close.mods i = none := fun _ => rfl
  have hcount : st.close.ring.count = 0 := rfl
  have hclosed : st.close.ring.contents = [] := RingBuffer.contents_of_count_zero hcount
  have hseen : ∀ file, st.close.seen file = st.seen file := fun _ => rfl
  refine ⟨⟨?_, ?_, ?_, ?_, gone, ?_, ?_⟩, h.idle.files, ?_⟩
  · intro i m hm
    rw [hmods] at hm
    cases hm
  · intro i m hm
    rw [hmods] at hm
    cases hm
  · intro s hs
    rw [hclosed] at hs
    cases hs
  · omega
  · rw [hclosed]
    rw [hnone] at hlog
    exact hlog
  · exact fun file => (hseen file).trans (hgone file)
  · intro i m hm
    rw [hmods] at hm
    cases hm

/-- Closing loses what is queued. -/
theorem drained_of_close (h : Inv before st)
    (hkept : ∀ file, st.close.stored file ++ st.close.queued file =
      before file ++ kept st.close.log file) : st.ring.count = 0 := by
  by_contra hsome
  have hmore : 0 < st.ring.count := by omega
  have hcons := RingBuffer.contents_eq_cons hmore
  obtain ⟨gone, hlog, hgone⟩ := h.sound.split
  have hfile := hkept (st.fileId st.ring.front.uuid.str)
  have hqueued : st.close.queued (st.fileId st.ring.front.uuid.str) = [] := by
    rw [Store.queued, Store.close, RingBuffer.contents_clear]
    rfl
  have hstored : st.close.stored (st.fileId st.ring.front.uuid.str) =
      st.seen (st.fileId st.ring.front.uuid.str) := h.idle.stored_eq _
  have hclosed : st.close.log = st.log := rfl
  rw [hqueued, hstored, hgone, hclosed, hlog, hcons, List.map_cons, kept_append, kept_cons,
    List.append_nil, ← List.append_assoc] at hfile
  have hfront := kept_of_file (st.logged st.ring.front) rfl
  have hlen := congrArg List.length hfile
  simp only [List.length_append] at hlen
  have hone : (kept [st.logged st.ring.front] (st.fileId st.ring.front.uuid.str)).length = 1 :=
    congrArg List.length hfront
  omega

/-- A directory is opened with no module there and nothing queued. -/
theorem inv_reopen (h : Inv before st) (hmods : ∀ i, st.mods i = none)
    (hring : st.ring.contents = []) (dir : CBuf 256) (isOpen : Bool) :
    Inv before { st with dir := dir, isOpen := isOpen } := by
  obtain ⟨gone, hlog, hgone⟩ := h.sound.split
  rw [hring] at hlog
  refine ⟨⟨h.sound.ready, fun i m hm => ?_, h.sound.found, h.sound.room, gone, ?_, hgone⟩,
    h.idle.files, h.idle.mods⟩
  · rw [hmods] at hm
    cases hm
  · rw [hring]
    exact hlog

theorem inv_open (h : Inv before st) (dir : CString) (made : Bool)
    (hdrained : dir.nonempty = true → st.ring.count = 0) : Inv before (st.open_ dir made).1 := by
  unfold Store.open_
  split
  · next hdir =>
    have hclose := inv_close h (hdrained hdir)
    have hring : st.close.ring.contents = [] := RingBuffer.contents_of_count_zero rfl
    split
    · exact inv_reopen hclose (fun _ => rfl) hring (CBuf.copy 256 dir) true
    · exact inv_reopen hclose (fun _ => rfl) hring (CBuf.copy 256 dir) st.close.isOpen
  · exact h

/-- Opening a directory loses what closing loses. -/
theorem open_same {dir : CString} (hdir : dir.nonempty = true) (made : Bool) (file : FileId) :
    (st.open_ dir made).1.stored file = st.close.stored file ∧
      (st.open_ dir made).1.queued file = st.close.queued file ∧
      (st.open_ dir made).1.log = st.close.log := by
  unfold Store.open_
  rw [if_pos hdir]
  cases made <;> exact ⟨rfl, rfl, rfl⟩

/-! ## The record -/

theorem evicts_of_log {st' : Store} (h : st'.log = st.log) : EvictsOldest st st' :=
  fun k l hk => Or.inl (by rw [h, hk])

theorem log_setMeta (uuid : CString) (key : MetaKey) (value : Option MetaValue) :
    (st.setMeta uuid key value).log = st.log := rfl

theorem log_registerAt (i : Fin mfHistoryMaxModules) (m : HistMod)
    (uuid name kind driver capture : CString) (e : HistEnv) :
    (st.registerAt i m uuid name kind driver capture e).log = st.log := by
  have hsync : (st.syncColumns e i
      (Store.dueNow (Store.takeSpec m kind (parseSpec capture)))).log = st.log := rfl
  rw [← hsync, Store.registerAt]
  generalize st.syncColumns e i (Store.dueNow (Store.takeSpec m kind (parseSpec capture))) = d
  unfold Store.describe
  dsimp only
  rw [apply_ite Store.log]
  simp only [log_setMeta, ite_self]

theorem log_register (uuid name kind driver capture : CString) (e : HistEnv) :
    (st.register uuid name kind driver capture e).1.log = st.log := by
  unfold Store.register
  split
  · rfl
  · split
    · split
      · exact log_registerAt ..
      · rfl
    · split
      · exact log_registerAt ..
      · rfl

theorem evicts_enqueue (h : Inv before st) (s : Sample) : EvictsOldest st (st.enqueue s).1 := by
  have hlen : st.ring.count ≤ st.log.length := by
    obtain ⟨gone, hlog, -⟩ := h.sound.split
    rw [hlog, List.length_append, List.length_map, RingBuffer.length_contents]
    omega
  have hkeep : ∀ l : Logged, EvictsOldest st { st with log := st.log ++ [l] } := by
    intro l k l' hk
    have hlt : k < st.log.length := (List.getElem?_eq_some_iff.mp hk).1
    exact Or.inl ((List.getElem?_append_left hlt).trans hk)
  have hdrop : st.ring.count = mfHistoryRingCap → ∀ l : Logged,
      EvictsOldest st { st with log := st.dropOldest.log ++ [l] } := by
    intro hfull l k l' hk
    have hlt : k < st.log.length := (List.getElem?_eq_some_iff.mp hk).1
    have hlt' : k < st.dropOldest.log.length := by
      rw [Store.dropOldest, List.length_modify]
      exact hlt
    have hat : (st.dropOldest.log ++ [l])[k]? = st.dropOldest.log[k]? :=
      List.getElem?_append_left hlt'
    by_cases holdest : st.log.length - st.ring.count = k
    · refine Or.inr ⟨hfull, by omega, hat.trans ?_⟩
      rw [Store.dropOldest, holdest, List.getElem?_modify_eq, hk]
      rfl
    · refine Or.inl (hat.trans ?_)
      rw [Store.dropOldest, List.getElem?_modify_ne _ _ holdest, hk]
  unfold Store.enqueue
  split
  · exact evicts_of_log rfl
  split
  · exact evicts_of_log rfl
  split
  · exact evicts_of_log rfl
  split
  · exact evicts_of_log rfl
  split
  · exact evicts_of_log rfl
  · dsimp only
    split
    · next hfull => exact hdrop hfull _
    · exact hkeep _

/-! ## Runs -/

/-- A call keeps the invariant when nothing is queued at a close. -/
theorem inv_histStep (h : Inv before st) {call : HistCall} (hdrained : DrainedBeforeClose st call) :
    Inv before (histStep st call) := by
  cases call with
  | open_ dir made => exact inv_open h dir made hdrained
  | register uuid name kind driver capture e => exact inv_register h uuid name kind driver capture e
  | enqueue s => exact inv_enqueue h s
  | flushSlice maxRows => exact (flushSlice_spec h maxRows).1
  | retire uuid retiredTs => exact (retire_spec h uuid retiredTs).1
  | close => exact inv_close h hdrained

theorem evicts_histStep (h : Inv before st) (call : HistCall) :
    EvictsOldest st (histStep st call) := by
  cases call with
  | open_ dir made =>
    refine evicts_of_log ?_
    by_cases hdir : dir.nonempty = true
    · exact (open_same hdir made (dir, dir)).2.2
    · have hsame : st.open_ dir made = (st, false) := if_neg hdir
      rw [histStep, hsame]
  | register uuid name kind driver capture e => exact evicts_of_log (log_register ..)
  | enqueue s => exact evicts_enqueue h s
  | flushSlice maxRows => exact evicts_of_log (flushSlice_spec h maxRows).2.1
  | retire uuid retiredTs => exact evicts_of_log (retire_spec h uuid retiredTs).2
  | close => exact evicts_of_log rfl

/-- A call keeps its promise exactly when nothing is queued at a close. -/
theorem storedOnce_iff (h : Inv before st) (call : HistCall) :
    StoredOnce before st call ↔ DrainedBeforeClose st call := by
  constructor
  · intro hstored
    cases call with
    | open_ dir made =>
      intro hdir
      refine drained_of_close h fun file => ?_
      obtain ⟨hfiles, hqueue, hlog⟩ := @open_same st dir hdir made file
      rw [← hfiles, ← hqueue, ← hlog]
      exact hstored.conserved file
    | close => exact drained_of_close h hstored.conserved
    | _ => trivial
  · exact fun hdrained => ⟨(inv_histStep h hdrained).conserved, evicts_histStep h call⟩

/-- A sample of zeros. -/
def noSample : Sample := ⟨CBuf.zero 40, Double.zero, 0, CBuf.zero 4096, Double.zero⟩

/-- The history before it is opened, over files that are there already. -/
def closedStore (files : FileId → ModFile) : Store :=
  { dir := CBuf.zero 256, isOpen := false, mods := fun _ => none
    ring := { slots := fun _ => noSample, head := ⟨0, mfHistoryRingCap_pos⟩, count := 0 }
    files := fun file => TxnFile.closed (files file), log := [] }

theorem inv_closedStore (files : FileId → ModFile) :
    Inv (fun file => (files file).samples.map Row.entry) (closedStore files) := by
  have hnone : (closedStore files).ring.contents = [] := RingBuffer.contents_of_count_zero rfl
  have hmods : ∀ i, (closedStore files).mods i = none := fun _ => rfl
  have hcount : (closedStore files).ring.count = 0 := rfl
  refine ⟨⟨?_, ?_, ?_, by omega, [], ?_, fun file => ?_⟩, fun _ => rfl, ?_⟩
  · intro i m hm
    rw [hmods] at hm
    cases hm
  · intro i m hm
    rw [hmods] at hm
    cases hm
  · intro s hs
    rw [hnone] at hs
    cases hs
  · rw [hnone]
    rfl
  · rw [kept_nil, List.append_nil]
    rfl
  · intro i m hm
    rw [hmods] at hm
    cases hm

/-- In every run each sample put in the ring is in its module's file once and in the
order of the ring, still queued, or evicted as the oldest of a full ring, exactly when
nothing is queued whenever the history is closed. -/
theorem every_sample_once_iff (files : FileId → ModFile) (calls : List HistCall) :
    Along histStep (StoredOnce fun file => (files file).samples.map Row.entry)
        (closedStore files) calls ↔
      Along histStep DrainedBeforeClose (closedStore files) calls := by
  have hstep : ∀ st call, Inv (fun file => (files file).samples.map Row.entry) st → True →
      DrainedBeforeClose st call →
      Inv (fun file => (files file).samples.map Row.entry) (histStep st call) :=
    fun _ _ h _ hdrained => inv_histStep h hdrained
  have hiff : ∀ st call, Inv (fun file => (files file).samples.map Row.entry) st → True →
      (StoredOnce (fun file => (files file).samples.map Row.entry) st call ↔
        DrainedBeforeClose st call) := fun _ call h _ => storedOnce_iff h call
  exact @along_congr _ _ _ (Inv fun file => (files file).samples.map Row.entry) _ _
    (fun _ => True) hstep hiff _ (inv_closedStore files) _ fun _ _ => trivial

/-- A sample is queued and the history is closed. -/
def closeBeforeFlush : List HistCall :=
  [.open_ (CString.lit "/h") true,
    .register (CString.lit "a1") CString.empty CString.empty CString.empty
      (CString.lit "\x7b\"retention_days\":30\x7d")
      { now := Double.ofInt 100, jsonExtract := fun _ _ => none },
    .enqueue
      { uuid := CBuf.copy 40 (CString.lit "a1"), ts := Double.ofInt 100, online := 1
        reading := CBuf.copy 4096 (CString.lit "\x7b\x7d"), captureIntervalS := Double.ofInt 10 },
    .close]

/-- The sample is discarded. -/
theorem close_discards_sample :
    ¬Along histStep (StoredOnce fun _ => []) (closedStore fun _ => ModFile.fresh)
      closeBeforeFlush := by
  rintro ⟨-, -, -, hclose, -⟩
  have hlost := hclose.conserved (CString.lit "/h", CString.lit "a1")
  revert hlost
  decide +kernel

end MoonFlare.History
