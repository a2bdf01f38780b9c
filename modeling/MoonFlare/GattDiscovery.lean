import MoonFlare.GattHelper
import MoonFlare.Runs

/-!
# The owner of the discovery

The discovery belongs to a client that is connected and searching, and nobody else
stops it, as long as clients do not wait for their devices while another one
searches, scan while somebody searches, or disconnect or connect elsewhere while they
search themselves.
-/

namespace MoonFlare.Gatt

open Runs

/-! ## What is to hold -/

/-- The owner of the discovery is connected and searching, and its discovery has not
been stopped; nobody stopped a discovery that another client owned. -/
structure Owned (w : World) : Prop where
  owner : ∀ i, w.scanOwner = some i →
    (w.cli i).fd = true ∧ (w.cli i).sess = .scan ∧ w.searching = true
  stops : ∀ s ∈ w.stops, s.owner = none ∨ s.owner = some s.client

/-- The condition on an event. -/
def Undisturbing (w : World) : Event → Prop
  | .line i .scan _ => (w.cli i).fd = true → w.bus = true → w.scanOwner = none
  | .line i (.connect address) e =>
    address.str.nonempty = true → macTaken w address.str i = false → w.bus = true →
      w.scanOwner = some i →
      e.inObjects (macToPath w.adapterPath (CBuf.copy 32 address.str)).str = true →
      e.connects = false
  | .line i (.disconnect address) _ => mismatch (w.cli i) address = false → w.scanOwner ≠ some i
  | .advance i e => (w.cli i).fd = true → (w.cli i).sess = .scan →
    e.inObjects (w.cli i).devPath.str = true ∨ (w.cli i).deadline < e.now →
      w.scanOwner = none ∨ w.scanOwner = some i
  | _ => True

/-- The condition, while the process runs. -/
def Calm (w : World) (ev : Event) : Prop := w.exited = false → Undisturbing w ev

/-! ## Small steps -/

@[simp] theorem set_scanOwner (w : World) (i : Idx) (c : Cli) :
    (w.set i c).scanOwner = w.scanOwner := rfl

@[simp] theorem set_searching (w : World) (i : Idx) (c : Cli) :
    (w.set i c).searching = w.searching := rfl

@[simp] theorem set_stops (w : World) (i : Idx) (c : Cli) : (w.set i c).stops = w.stops := rfl

@[simp] theorem set_same (w : World) (i : Idx) (c : Cli) : (w.set i c).cli i = c := if_pos rfl

theorem set_other (w : World) {i j : Idx} (h : j ≠ i) (c : Cli) : (w.set i c).cli j = w.cli j :=
  if_neg h

/-- All but a client is as it should be. -/
structure OwnedBut (i : Idx) (w : World) : Prop where
  owner : ∀ j, j ≠ i → w.scanOwner = some j →
    (w.cli j).fd = true ∧ (w.cli j).sess = .scan ∧ w.searching = true
  stops : ∀ s ∈ w.stops, s.owner = none ∨ s.owner = some s.client

variable {w : World} {i : Idx}

theorem Owned.but (h : Owned w) (i : Idx) : OwnedBut i w := ⟨fun j _ => h.owner j, h.stops⟩

theorem OwnedBut.set (h : OwnedBut i w) (c : Cli) : OwnedBut i (w.set i c) where
  owner j hj hown := by
    rw [set_other w hj]
    exact h.owner j hj hown
  stops := h.stops

/-- It is as it should be with a client that does not own the discovery. -/
theorem OwnedBut.owned (h : OwnedBut i w) (hother : w.scanOwner ≠ some i) : Owned w where
  owner j hown := h.owner j (fun hj => hother (hj ▸ hown)) hown
  stops := h.stops

/-- A client that searches on may change. -/
theorem Owned.set (h : Owned w) {c : Cli}
    (hc : w.scanOwner = some i → c.fd = true ∧ c.sess = .scan) : Owned (w.set i c) where
  owner j hown := by
    by_cases hj : j = i
    · subst hj
      rw [set_same]
      exact ⟨(hc hown).1, (hc hown).2, (h.owner j hown).2.2⟩
    · rw [set_other w hj]
      exact h.owner j hown
  stops := h.stops

/-- A client keeps its socket and its session. -/
theorem Owned.keep (h : Owned w) {c : Cli} (hfd : c.fd = (w.cli i).fd)
    (hsess : c.sess = (w.cli i).sess) : Owned (w.set i c) := by
  refine h.set fun hown => ?_
  rw [hfd, hsess]
  exact ⟨(h.owner i hown).1, (h.owner i hown).2.1⟩

/-- A client stops its own discovery, or one that nobody owns. -/
theorem OwnedBut.stop (h : OwnedBut i w) (hfree : w.scanOwner = none ∨ w.scanOwner = some i) :
    Owned { stopDiscovery w i with scanOwner := none } where
  owner _ hown := by cases hown
  stops s hs := by
    rcases List.mem_append.mp hs with hold | hnew
    · exact h.stops s hold
    · obtain rfl := List.mem_singleton.mp hnew
      exact hfree

/-- Giving up the discovery leaves everything as it should be. -/
theorem OwnedBut.dropScan (h : OwnedBut i w) : Owned (Gatt.dropScan w i) := by
  unfold Gatt.dropScan
  by_cases hown : w.scanOwner = some i
  · rw [if_pos hown]
    exact h.stop (Or.inr hown)
  · rw [if_neg hown]
    exact h.owned hown

theorem dropScan_scanOwner (w : World) (i : Idx) : (dropScan w i).scanOwner ≠ some i := by
  unfold dropScan
  by_cases hown : w.scanOwner = some i
  · rw [if_pos hown]
    nofun
  · rw [if_neg hown]
    exact hown

theorem OwnedBut.sessFail (h : OwnedBut i w) (msg : String) (now : ℚ) :
    Owned (Gatt.sessFail w i msg now) :=
  h.dropScan.set fun hown => absurd hown (dropScan_scanOwner w i)

theorem OwnedBut.cliClose (h : OwnedBut i w) : Owned (Gatt.cliClose w i) :=
  h.dropScan.set fun hown => absurd hown (dropScan_scanOwner w i)

/-- Going on to connect is right exactly when the client does not keep the
discovery. -/
theorem OwnedBut.connectDevice_iff (h : OwnedBut i w) (e : Bluez) :
    Owned (connectDevice w i e) ↔ (w.scanOwner = some i → e.connects = false) := by
  unfold connectDevice
  cases hconnects : e.connects with
  | false =>
    rw [if_neg Bool.false_ne_true]
    exact iff_of_true ((h.set _).sessFail _ _) fun _ => rfl
  | true =>
    rw [if_pos rfl]
    constructor
    · intro howned hown
      have hsess := (howned.owner i hown).2.1
      rw [set_same] at hsess
      cases hsess
    · exact fun hfree => (h.set _).owned fun hown => Bool.noConfusion (hfree hown)

/-! ## Stops stay on record -/

theorem stops_dropScan (w : World) (i : Idx) : w.stops ⊆ (dropScan w i).stops := by
  unfold dropScan
  split
  · exact List.subset_append_left _ _
  · exact List.Subset.refl _

theorem stops_sessFail (w : World) (i : Idx) (msg : String) (now : ℚ) :
    w.stops ⊆ (sessFail w i msg now).stops :=
  stops_dropScan w i

theorem stops_connectDevice (w : World) (i : Idx) (e : Bluez) :
    w.stops ⊆ (connectDevice w i e).stops := by
  unfold connectDevice
  split
  · exact List.Subset.refl _
  · exact stops_sessFail (w.set i _) i _ _

/-- A discovery that another client owned was stopped. -/
theorem not_owned_of_stop {w' : World} (hstops : (stopDiscovery w i).stops ⊆ w'.stops)
    (hother : ¬(w.scanOwner = none ∨ w.scanOwner = some i)) : ¬Owned w' := fun h =>
  hother (h.stops ⟨i, w.scanOwner⟩ (hstops (List.mem_append_right _ List.mem_cons_self)))

/-! ## Each event -/

/-- Beginning to connect is right unless the client goes on to a device that is there
while it owns the discovery. -/
theorem owned_beginConnect_iff (h : Owned w) (i : Idx) (hfd : (w.cli i).fd = true) (e : Bluez) :
    Owned (beginConnect w i e) ↔ (w.bus = true → w.scanOwner = some i →
      e.inObjects (macToPath w.adapterPath (w.cli i).mac).str = true → e.connects = false) := by
  unfold beginConnect
  dsimp only
  cases hbus : w.bus with
  | false =>
    rw [Bool.not_false, if_pos rfl]
    exact iff_of_true (h.keep rfl rfl) nofun
  | true =>
    rw [Bool.not_true, if_neg Bool.false_ne_true]
    by_cases hwait : w.scanOwner ≠ none ∧ w.scanOwner ≠ some i
    · rw [if_pos hwait]
      exact iff_of_true ((h.but i).set _ |>.owned hwait.2) fun _ hown => absurd hown hwait.2
    · rw [if_neg hwait]
      by_cases hthere : e.inObjects (macToPath w.adapterPath (w.cli i).mac).str = true
      · rw [if_pos hthere, ((h.but i).set _).connectDevice_iff]
        exact ⟨fun hfree _ hown _ => hfree hown, fun hfree hown => hfree rfl hown hthere⟩
      · rw [if_neg hthere]
        refine iff_of_true ?_ fun _ _ hobj => absurd hobj hthere
        cases hdiscovers : e.discovers with
        | false =>
          rw [if_neg Bool.false_ne_true, startDiscovery, if_neg (by simp [hdiscovers])]
          refine OwnedBut.sessFail (w := { w.set i _ with scanOwner := some i })
            ⟨fun j hj hown => ?_, h.stops⟩ _ _
          exact absurd (Option.some.inj hown).symm hj
        | true =>
          rw [if_pos rfl, startDiscovery, if_pos hdiscovers]
          refine ⟨fun j hown => ?_, h.stops⟩
          obtain rfl := Option.some.inj hown
          exact ⟨by simp [World.set, Cli.queueState, Cli.queueLine, hfd],
            by simp [World.set, Cli.queueState, Cli.queueLine], rfl⟩

/-- A session goes on rightly unless it stops another client's discovery. -/
theorem owned_sessAdvance_iff (h : Owned w) (i : Idx) (e : Bluez) :
    Owned (sessAdvance w i e) ↔ ((w.cli i).sess = .scan →
      e.inObjects (w.cli i).devPath.str = true ∨ (w.cli i).deadline < e.now →
        w.scanOwner = none ∨ w.scanOwner = some i) := by
  unfold sessAdvance
  dsimp only
  cases hsess : (w.cli i).sess with
  | scan =>
    dsimp only
    by_cases hfree : w.scanOwner = none ∨ w.scanOwner = some i
    · refine iff_of_true ?_ fun _ _ => hfree
      have hstop := (h.but i).stop hfree
      have hclear : (if (stopDiscovery w i).scanOwner = some i then
          { stopDiscovery w i with scanOwner := none } else stopDiscovery w i) =
          { stopDiscovery w i with scanOwner := none } := by
        split
        · rfl
        · next hother =>
          have hnone : w.scanOwner = none := hfree.resolve_right hother
          simp [stopDiscovery, hnone]
      rw [hclear]
      split
      · exact (((hstop.but i).set _).connectDevice_iff e).mpr fun hcond => by cases hcond
      split
      · exact (hstop.but i).sessFail _ _
      · exact h
    · have hclear : (if (stopDiscovery w i).scanOwner = some i then
          { stopDiscovery w i with scanOwner := none } else stopDiscovery w i) =
          stopDiscovery w i := if_neg fun hown => hfree (Or.inr hown)
      rw [hclear]
      split
      · next hthere =>
        refine iff_of_false ?_ fun hcond => hfree (hcond rfl (Or.inl hthere))
        exact not_owned_of_stop (stops_connectDevice (World.set (stopDiscovery w i) i _) i e) hfree
      · next hgone =>
        split
        · next hlate =>
          refine iff_of_false ?_ fun hcond => hfree (hcond rfl (Or.inr hlate))
          exact not_owned_of_stop (stops_sessFail (stopDiscovery w i) i _ _) hfree
        · next hearly =>
          exact iff_of_true h fun _ hcond => absurd hcond (not_or.mpr ⟨hgone, hearly⟩)
  | waitGatt =>
    have hother : w.scanOwner ≠ some i := fun hown => by
      rw [(h.owner i hown).2.1] at hsess
      cases hsess
    refine iff_of_true ?_ fun hcond => by cases hcond
    dsimp only
    split
    · split
      · exact ((h.but i).set _).sessFail _ _
      · split
        · exact ((h.but i).set _).owned hother
        · exact ((h.but i).set _).sessFail _ _
    · exact h
  | idle => exact iff_of_true h fun hcond => by cases hcond
  | connect => exact iff_of_true h fun hcond => by cases hcond
  | ready => exact iff_of_true h fun hcond => by cases hcond

theorem owned_handleScan_iff (h : Owned w) (i : Idx) (e : Bluez) :
    Owned (handleScan w i e) ↔ (w.bus = true → w.scanOwner = none) := by
  unfold handleScan
  dsimp only
  cases hbus : w.bus with
  | false =>
    rw [if_neg Bool.false_ne_true]
    exact iff_of_true (h.keep rfl rfl) nofun
  | true =>
    rw [if_pos rfl]
    have hstart : (startDiscovery w e).scanOwner = w.scanOwner ∧
        (startDiscovery w e).stops = w.stops := by
      unfold startDiscovery
      split <;> exact ⟨rfl, rfl⟩
    constructor
    · intro howned _
      have hnone (j : Idx) : w.scanOwner ≠ some j := fun hown => by
        have hsearching := (howned.owner j (hstart.1.trans hown)).2.2
        cases hsearching
      cases hown : w.scanOwner with
      | none => rfl
      | some j => exact absurd hown (hnone j)
    · intro hfree
      refine ⟨fun j hown => ?_, fun s hs => ?_⟩
      · have hown' : w.scanOwner = some j := hstart.1.symm.trans hown
        rw [hfree rfl] at hown'
        cases hown'
      · rcases List.mem_append.mp hs with hold | hnew
        · exact h.stops s (hstart.2 ▸ hold)
        · obtain rfl := List.mem_singleton.mp hnew
          exact Or.inl (hstart.1.trans (hfree rfl))

theorem owned_handleDisconnect_iff (h : Owned w) (i : Idx) (address : CBuf 40) :
    Owned (handleDisconnect w i address) ↔
      (mismatch (w.cli i) address = false → w.scanOwner ≠ some i) := by
  unfold handleDisconnect
  dsimp only
  cases mismatch (w.cli i) address with
  | true =>
    rw [if_pos rfl]
    exact iff_of_true (h.keep rfl rfl) nofun
  | false =>
    rw [if_neg Bool.false_ne_true]
    constructor
    · intro howned _ hown
      have hsess := (howned.owner i hown).2.1
      rw [set_same] at hsess
      cases hsess
    · exact fun hother => ((h.but i).set _).owned (hother rfl)

theorem owned_handleConnect_iff (h : Owned w) {i : Idx} (hfd : (w.cli i).fd = true)
    (address : CBuf 40) (e : Bluez) : Owned (handleConnect w i address e) ↔
      Undisturbing w (.line i (.connect address) e) := by
  unfold handleConnect Undisturbing
  dsimp only
  cases haddress : address.str.nonempty with
  | false =>
    rw [Bool.not_false, if_pos rfl]
    exact iff_of_true (h.keep rfl rfl) nofun
  | true =>
    rw [Bool.not_true, if_neg Bool.false_ne_true]
    cases htaken : macTaken w address.str i with
    | true =>
      rw [if_pos rfl]
      exact iff_of_true (h.keep rfl rfl) nofun
    | false =>
      have hbound : Owned (w.set i { w.cli i with
          mac := CBuf.copy 32 address.str, bound := true, acked := false }) := h.keep rfl rfl
      rw [if_neg Bool.false_ne_true,
        owned_beginConnect_iff hbound i (by rw [set_same]; exact hfd), set_same]
      exact ⟨fun hcond _ _ => hcond, fun hcond => hcond rfl rfl⟩

theorem owned_handleWrite (h : Owned w) (i : Idx) (address : CBuf 40) (e : Bluez) :
    Owned (handleWrite w i address e) := by
  unfold handleWrite
  dsimp only
  split
  · exact h.keep rfl rfl
  split
  · exact h.keep rfl rfl
  split
  · exact h.keep rfl rfl
  split
  · exact h.keep rfl rfl
  · exact h.keep rfl rfl
  · exact (h.but i).sessFail _ _

/-- Every event leaves the discovery to its owner exactly under the condition. -/
theorem owned_step_iff (h : Owned w) (ev : Event) : Owned (step w ev) ↔ Calm w ev := by
  unfold step Calm
  cases hexited : w.exited with
  | true =>
    rw [if_pos rfl]
    exact iff_of_true h nofun
  | false =>
    have hruns : (false = false → Undisturbing w ev) ↔ Undisturbing w ev :=
      ⟨fun hcond => hcond rfl, fun hcond _ => hcond⟩
    rw [if_neg Bool.false_ne_true, hruns]
    cases ev with
    | accept =>
      refine iff_of_true ?_ trivial
      dsimp only
      split
      · next i hfree =>
        have hfd : (w.cli i).fd = false := by simpa using List.find?_some hfree
        refine ((h.but i).set _).owned fun hown => ?_
        rw [(h.owner i hown).1] at hfd
        cases hfd
      · exact h
    | line i cmd e =>
      dsimp only
      cases hfd : (w.cli i).fd with
      | false =>
        have hother : w.scanOwner ≠ some i := fun hown => by
          rw [(h.owner i hown).1] at hfd
          cases hfd
        rw [if_neg Bool.false_ne_true]
        refine iff_of_true h ?_
        cases cmd with
        | scan => exact fun hopen => by rw [hfd] at hopen; cases hopen
        | connect address => exact fun _ _ _ hown => absurd hown hother
        | disconnect address => exact fun _ => hother
        | _ => trivial
      | true =>
        rw [if_pos rfl]
        cases cmd with
        | quit => exact iff_of_true ⟨h.owner, h.stops⟩ trivial
        | scan =>
          refine (owned_handleScan_iff h i e).trans ⟨fun hcond _ => hcond, fun hcond => hcond hfd⟩
        | connect address => exact owned_handleConnect_iff h hfd address e
        | write address => exact iff_of_true (owned_handleWrite h i address e) trivial
        | disconnect address => exact owned_handleDisconnect_iff h i address
        | other => exact iff_of_true h trivial
    | hangUp i =>
      refine iff_of_true ?_ trivial
      dsimp only
      split
      · exact (h.but i).cliClose
      · exact h
    | reconnect i e =>
      refine iff_of_true ?_ trivial
      dsimp only
      split
      · next hcond =>
        refine (owned_beginConnect_iff h i hcond.1 e).mpr fun _ hown => ?_
        have hidle := hcond.2.2.2.1
        rw [(h.owner i hown).2.1] at hidle
        cases hidle
      · exact h
    | advance i e =>
      dsimp only
      cases hfd : (w.cli i).fd with
      | false =>
        rw [if_neg Bool.false_ne_true]
        exact iff_of_true h fun hopen => by rw [hfd] at hopen; cases hopen
      | true =>
        rw [if_pos rfl, owned_sessAdvance_iff h i e]
        exact ⟨fun hcond _ => hcond, fun hcond => hcond hfd⟩
    | gone i now =>
      refine iff_of_true ?_ trivial
      dsimp only
      split
      · exact (h.but i).sessFail _ _
      · exact h

/-! ## Runs -/

theorem owned_init (bus : Bool) (adapterPath : CBuf 64) : Owned (init bus adapterPath) :=
  ⟨nofun, nofun⟩

/-- In every run the discovery stays with its owner exactly as long as every event
meets the condition. -/
theorem discovery_owned_iff (bus : Bool) (adapterPath : CBuf 64) (evs : List Event) :
    Always step Owned (init bus adapterPath) evs ↔
      Along step Calm (init bus adapterPath) evs := by
  have hstep : ∀ w ev, Owned w → True → Calm w ev → Owned (step w ev) :=
    fun _ ev h _ hcalm => (owned_step_iff h ev).mpr hcalm
  have hiff : ∀ w ev, Owned w → True → (Owned (step w ev) ↔ Calm w ev) :=
    fun _ ev h _ => owned_step_iff h ev
  exact @along_congr _ _ _ Owned _ _ (fun _ => True) hstep hiff _ (owned_init bus adapterPath) _
    fun _ _ => trivial

/-- BlueZ when a search goes on: nothing is there yet. -/
def searchingBluez (now : ℚ) : Bluez :=
  { now := now, inObjects := fun _ => false, connects := false, discovers := true
    resolved := false, ffe1 := none, notifies := false, write := .ok }

/-- One client searches for its device, another one scans. -/
def scanWhileSearching : List Event :=
  [.accept, .line 0 (.connect (CBuf.copy 40 (CString.lit "C8:47:80:00:00:01"))) (searchingBluez 1),
    .accept, .line 1 .scan (searchingBluez 2)]

/-- The scan of the second client ends the search of the first, who goes on owning
a discovery that was stopped. -/
theorem scan_ends_search :
    ¬Always step Owned (init true (CBuf.copy 64 (CString.lit "/org/bluez/hci0")))
        scanWhileSearching := by
  rintro ⟨-, -, -, howned, -⟩
  have hstop := howned.stops ⟨1, some 0⟩ (by decide +kernel)
  revert hstop
  decide +kernel

end MoonFlare.Gatt
