import MoonFlare.ClassicCharger
import MoonFlare.Runs

/-!
# The failover between unit ids

A module asks for its registers under one of a few unit ids, and goes to the
next id when an exchange fails. When an id has worked, every connection starts
with that id again, so the next id is never asked; and a connection that fails
passes over the id it was for. Only runs of failures are looked at here: no
step has a good reply.
-/

namespace MoonFlare.Classic

open Runs

/-! ## Steps -/

/-- The state after a step. -/
def stepTo (c : ClassicCtx) (e : ClassicEnv) : ClassicCtx := (pump e c).1

/-- The step ends with a good reply. -/
def Answered (c : ClassicCtx) (e : ClassicEnv) : Prop := (pump e c).2 = .updated

/-- The connection comes up in the step. -/
def comesUp (c : ClassicCtx) (e : ClassicEnv) : Bool :=
  decide (c.state = .connecting) && decide (e.now ≤ c.ioDeadline) &&
    decide (e.connectReady = .ready)

/-- The poll of a held connection is due and the connection not yet old. -/
def pollsHeld (c : ClassicCtx) (e : ClassicEnv) : Bool :=
  decide (c.state = .hold) && decide (c.nextPoll ≤ e.now) && decide (e.now - c.lastOk < reconnectS)

/-- The id the step puts in a request, if it makes one. -/
def asked (c : ClassicCtx) (e : ClassicEnv) : Option ℤ :=
  if comesUp c e || pollsHeld c e then some (currentUnit (preferUnitOk c)) else none

/-- The connection attempts of the step do not fail: not at once, not when the
socket is ready, and not by their time running out. -/
def ConnectsFine (c : ClassicCtx) (e : ClassicEnv) : Prop :=
  e.connectError = none ∧
    (c.state = .connecting → e.now ≤ c.ioDeadline ∧ ∀ text, e.connectReady ≠ .failed text)

variable {c c' : ClassicCtx} {e : ClassicEnv}

/-- When the connection comes up the request for the preferred id is made and sent. -/
theorem pump_comesUp (h : comesUp c e = true) :
    pump e c = sendLoop e e.sends (buildFc3 e (preferUnitOk c)) := by
  simp only [comesUp, Bool.and_eq_true, decide_eq_true_eq] at h
  obtain ⟨⟨hstate, hnow⟩, hready⟩ := h
  simp only [pump, hstate, exchange, hready]
  rw [if_neg (not_lt.mpr hnow)]

/-- On a held connection too, when its poll is due. -/
theorem pump_pollsHeld (h : pollsHeld c e = true) :
    pump e c = exchange e (buildFc3 e (preferUnitOk c)) := by
  simp only [pollsHeld, Bool.and_eq_true, decide_eq_true_eq] at h
  obtain ⟨⟨hstate, hdue⟩, hold⟩ := h
  simp only [pump, hstate]
  rw [if_neg (not_lt.mpr hdue), if_neg (not_le.mpr hold)]

/-- The byte of the request that names the unit. -/
theorem tx_unit (e : ClassicEnv) (c : ClassicCtx) :
    (buildFc3 e c).tx[6]? = some (UInt8.ofNat (currentUnit c % 256).toNat) := rfl

/-! ## What an exchange leaves -/

/-- The ids and the one that worked are as before. -/
structure Keeps (c c' : ClassicCtx) : Prop where
  /-- The configured id. -/
  cfg : c'.unitCfg = c.unitCfg
  /-- The ids to try. -/
  units : c'.unitTry = c.unitTry
  /-- The id that worked. -/
  worked : c'.unitOk = c.unitOk

/-- The exchange goes on under the same id. -/
structure Stays (c c' : ClassicCtx) : Prop extends Keeps c c' where
  /-- The id. -/
  index : c'.itry = c.itry
  /-- A request is on its way. -/
  state : c'.state = .send ∨ c'.state = .recv

/-- The exchange failed and the next id is up. -/
structure Moved (e : ClassicEnv) (c c' : ClassicCtx) : Prop extends Keeps c c' where
  /-- After the last id everything starts over. -/
  last : c.unitTry.length ≤ c.itry + 1 → c'.itry = 0 ∧ c'.state = .disconnected
  /-- Else the next id gets a connection of its own. -/
  next : c.itry + 1 < c.unitTry.length → c'.itry = c.itry + 1 ∧
    c'.state = if e.connectError = none then .connecting else .disconnected

/-- The exchange ended with a good reply. -/
structure Good (c c' : ClassicCtx) : Prop where
  /-- The configured id. -/
  cfg : c'.unitCfg = c.unitCfg
  /-- The ids to try. -/
  units : c'.unitTry = c.unitTry
  /-- The id asked is the one that works. -/
  worked : c'.unitOk = currentUnit c
  /-- It stays the current one. -/
  index : c'.itry = c.itry
  /-- The connection is held. -/
  state : c'.state = .hold

/-- A connection attempt keeps the ids and the place among them. -/
theorem startConnect_keeps (e : ClassicEnv) (c : ClassicCtx) :
    Keeps c (startConnect e c).1 ∧ (startConnect e c).1.itry = c.itry ∧
      ((startConnect e c).1.state =
        if e.connectError = none then .connecting else .disconnected) ∧
      ((startConnect e c).2 = true ↔ e.connectError ≠ none) := by
  unfold startConnect
  cases he : e.connectError with
  | none => exact ⟨⟨rfl, rfl, rfl⟩, rfl, (if_pos rfl).symm, by simp⟩
  | some text => exact ⟨⟨rfl, rfl, rfl⟩, rfl, by simp [sockClose], by simp⟩

/-- Every failed exchange goes to the next id. -/
theorem failStep_moved (e : ClassicEnv) (c : ClassicCtx) : Moved e c (failStep e c).1 := by
  unfold failStep nextUnitOrReconnect
  by_cases hlast : c.unitTry.length ≤ c.itry + 1
  · have hclosed : (sockClose c).unitTry.length ≤ (sockClose c).itry + 1 := hlast
    simp only [if_pos hclosed]
    exact ⟨⟨rfl, rfl, rfl⟩, fun _ => ⟨rfl, rfl⟩, fun h => absurd hlast (by omega)⟩
  · have hclosed : ¬(sockClose c).unitTry.length ≤ (sockClose c).itry + 1 := hlast
    simp only [if_neg hclosed]
    obtain ⟨hkeeps, hindex, hstate, -⟩ :=
      startConnect_keeps e { sockClose c with itry := (sockClose c).itry + 1 }
    exact ⟨⟨hkeeps.cfg, hkeeps.units, hkeeps.worked⟩, fun h => absurd h hlast,
      fun _ => ⟨hindex, hstate⟩⟩

/-- How a loop ends: with a good reply, or under way or failed. -/
def Ends (e : ClassicEnv) (c : ClassicCtx) (r : ClassicCtx × MfStep) : Prop :=
  r.2 = .updated ∧ Good c r.1 ∨ r.2 ≠ .updated ∧ (Stays c r.1 ∨ Moved e c r.1)

/-- A failed exchange ends a loop. -/
theorem ends_failStep {d : ClassicCtx} (hkeeps : Keeps c d) (hindex : d.itry = c.itry) :
    Ends e c (failStep e d) := by
  have h := failStep_moved e d
  refine Or.inr ⟨by simp [failStep], Or.inr ⟨⟨?_, ?_, ?_⟩, fun hl => h.last ?_, fun hl => ?_⟩⟩
  · rw [h.cfg, hkeeps.cfg]
  · rw [h.units, hkeeps.units]
  · rw [h.worked, hkeeps.worked]
  · rw [hkeeps.units, hindex]
    exact hl
  · rw [← hindex]
    refine h.next ?_
    rw [hkeeps.units, hindex]
    exact hl

/-- A reply that is not good changes neither the ids nor the place among them. -/
theorem parseFc3_keeps (h : (parseFc3 e c).2 ≠ .ok) :
    Keeps c (parseFc3 e c).1 ∧ (parseFc3 e c).1.itry = c.itry ∧
      (parseFc3 e c).1.state = c.state := by
  unfold parseFc3 at h ⊢
  split at h
  · split at h
    · exact absurd rfl h
    · exact ⟨⟨rfl, rfl, rfl⟩, rfl, rfl⟩
  · exact ⟨⟨rfl, rfl, rfl⟩, rfl, rfl⟩

/-- How the receive loop ends. -/
theorem recvLoop_ends (recvs : List RecvResult) {d : ClassicCtx} (hkeeps : Keeps c d)
    (hindex : d.itry = c.itry) (hstate : d.state = .recv) : Ends e c (recvLoop e recvs d) := by
  induction recvs generalizing d with
  | nil =>
    rw [recvLoop]
    split_ifs
    · exact ends_failStep hkeeps hindex
    · exact Or.inr ⟨by simp, Or.inl ⟨hkeeps, hindex, Or.inr hstate⟩⟩
  | cons r recvs ih =>
    rw [recvLoop.eq_def]
    dsimp only
    split_ifs
    · exact ends_failStep hkeeps hindex
    · cases r with
      | wouldBlock => exact Or.inr ⟨by simp, Or.inl ⟨hkeeps, hindex, Or.inr hstate⟩⟩
      | closed => exact ends_failStep hkeeps hindex
      | failed text =>
        exact ends_failStep ⟨hkeeps.cfg, hkeeps.units, hkeeps.worked⟩ hindex
      | chunk b =>
        have hreply := @parseFc3_keeps (receive d b) e
        have hgood : (parseFc3 e (receive d b)).2 = .ok →
            (parseFc3 e (receive d b)).1.unitCfg = d.unitCfg ∧
              (parseFc3 e (receive d b)).1.unitTry = d.unitTry ∧
              (parseFc3 e (receive d b)).1.unitOk = currentUnit d ∧
              (parseFc3 e (receive d b)).1.itry = d.itry := by
          unfold parseFc3
          split
          · split
            · exact fun _ => ⟨rfl, rfl, rfl, rfl⟩
            · exact fun h => by cases h
          · exact fun h => absurd h (by assumption)
        dsimp only
        cases hp : parseFc3 e (receive d b) with
        | mk d' r =>
          rw [hp] at hreply hgood
          dsimp only at hreply hgood ⊢
          cases r with
          | needMore =>
            obtain ⟨hk, hi, hs⟩ := hreply (by simp)
            exact ih ⟨hk.cfg.trans hkeeps.cfg, hk.units.trans hkeeps.units,
              hk.worked.trans hkeeps.worked⟩ (hi.trans hindex) (hs.trans hstate)
          | bad =>
            obtain ⟨hk, hi, -⟩ := hreply (by simp)
            exact ends_failStep ⟨hk.cfg.trans hkeeps.cfg, hk.units.trans hkeeps.units,
              hk.worked.trans hkeeps.worked⟩ (hi.trans hindex)
          | exception =>
            obtain ⟨hk, hi, -⟩ := hreply (by simp)
            exact ends_failStep ⟨hk.cfg.trans hkeeps.cfg, hk.units.trans hkeeps.units,
              hk.worked.trans hkeeps.worked⟩ (hi.trans hindex)
          | ok =>
            obtain ⟨hcfg, hunits, hok, hi⟩ := hgood rfl
            have hcurrent : currentUnit d = currentUnit c := by
              unfold currentUnit
              rw [hkeeps.units, hindex]
            exact Or.inl ⟨rfl, hcfg.trans hkeeps.cfg, hunits.trans hkeeps.units,
              hok.trans hcurrent, hi.trans hindex, rfl⟩

/-- How the send loop ends. -/
theorem sendLoop_ends (sends : List SendResult) {d : ClassicCtx} (hkeeps : Keeps c d)
    (hindex : d.itry = c.itry) (hstate : d.state = .send) : Ends e c (sendLoop e sends d) := by
  have hreceives : ∀ d : ClassicCtx, Keeps c d → d.itry = c.itry →
      Ends e c (recvLoop e e.recvs
        { d with state := .recv, rx := [], ioDeadline := e.now + ioTimeoutS }) :=
    fun d hk hi => recvLoop_ends e.recvs ⟨hk.cfg, hk.units, hk.worked⟩ hi rfl
  induction sends generalizing d with
  | nil =>
    rw [sendLoop]
    split_ifs
    · exact hreceives d hkeeps hindex
    · exact Or.inr ⟨by simp, Or.inl ⟨hkeeps, hindex, Or.inl hstate⟩⟩
  | cons r sends ih =>
    rw [sendLoop.eq_def]
    dsimp only
    split_ifs
    · exact hreceives d hkeeps hindex
    · cases r with
      | wouldBlock => exact Or.inr ⟨by simp, Or.inl ⟨hkeeps, hindex, Or.inl hstate⟩⟩
      | failed text => exact ends_failStep ⟨hkeeps.cfg, hkeeps.units, hkeeps.worked⟩ hindex
      | sent n =>
        cases n with
        | zero => exact ends_failStep hkeeps hindex
        | succ n => exact ih ⟨hkeeps.cfg, hkeeps.units, hkeeps.worked⟩ hindex hstate

/-- A request on its way goes on, fails, or gets its reply. -/
theorem exchange_ends (h : c.state = .send ∨ c.state = .recv) : Ends e c (exchange e c) := by
  unfold exchange
  split_ifs
  · exact ends_failStep ⟨rfl, rfl, rfl⟩ rfl
  · rcases h with h | h
    · simp only [h]
      exact sendLoop_ends e.sends ⟨rfl, rfl, rfl⟩ rfl h
    · simp only [h]
      exact recvLoop_ends e.recvs ⟨rfl, rfl, rfl⟩ rfl h

/-! ## The states a module can be in -/

/-- What holds of a module at any time. -/
structure Valid (c : ClassicCtx) : Prop where
  /-- The ids are those of the configured one. -/
  units : c.unitTry = buildUnitList c.unitCfg
  /-- The current one is among them. -/
  index : c.itry < c.unitTry.length
  /-- So is the one that worked. -/
  worked : c.unitOk = 0 ∨ c.unitOk ∈ c.unitTry
  /-- A connection is held after a good reply only. -/
  held : c.state = .hold → c.unitOk ≠ 0

/-- The state of a module after some steps. -/
def Reachable (c : ClassicCtx) : Prop :=
  ∃ spec opening es, c = run stepTo (classicOpened spec opening) es

/-- Ids are not zero. -/
theorem unit_ne_zero {cfg u : ℤ} (h : u ∈ buildUnitList cfg) : u ≠ 0 := by
  unfold buildUnitList at h
  simp only [List.mem_append] at h
  rcases h with (h | h) | h <;> split_ifs at h <;> simp at h <;> omega

/-- No id is tried twice in a round. -/
theorem nodup_buildUnitList (cfg : ℤ) : (buildUnitList cfg).Nodup := by
  unfold buildUnitList
  split_ifs <;> simp <;> omega

/-- There are at least two ids. -/
theorem two_le_length (cfg : ℤ) : 2 ≤ (buildUnitList cfg).length := by
  unfold buildUnitList
  split_ifs <;> simp <;> omega

/-- The current id is one of those to try. -/
theorem currentUnit_mem (h : c.itry < c.unitTry.length) : currentUnit c ∈ c.unitTry := by
  rw [currentUnit, List.getD_eq_getElem _ _ h]
  exact List.getElem_mem h

/-- However an exchange ends, the module is as it should be. -/
theorem valid_of_ends {r : ClassicCtx × MfStep} (h : Valid c) (hends : Ends e c r) :
    Valid r.1 ∧ (r.2 ≠ .updated → Keeps c r.1) := by
  have hkeeps : ∀ c' : ClassicCtx, Keeps c c' → c'.itry < c.unitTry.length → c'.state ≠ .hold →
      Valid c' := by
    intro c' hk hi hs
    refine ⟨?_, ?_, ?_, fun hh => absurd hh hs⟩
    · rw [hk.units, hk.cfg]
      exact h.units
    · rw [hk.units]
      exact hi
    · rw [hk.worked, hk.units]
      exact h.worked
  rcases hends with ⟨hup, hgood⟩ | ⟨-, hstays | hmoved⟩
  · have hmem := currentUnit_mem h.index
    refine ⟨⟨?_, ?_, ?_, fun _ => ?_⟩, fun hne => absurd hup hne⟩
    · rw [hgood.units, hgood.cfg]
      exact h.units
    · rw [hgood.index, hgood.units]
      exact h.index
    · rw [hgood.worked, hgood.units]
      exact Or.inr hmem
    · rw [hgood.worked]
      rw [h.units] at hmem
      exact unit_ne_zero hmem
  · refine ⟨hkeeps _ hstays.toKeeps (hstays.index ▸ h.index) ?_, fun _ => hstays.toKeeps⟩
    rcases hstays.state with hs | hs <;> rw [hs] <;> simp
  · refine ⟨?_, fun _ => hmoved.toKeeps⟩
    by_cases hlast : c.unitTry.length ≤ c.itry + 1
    · obtain ⟨hi, hs⟩ := hmoved.last hlast
      have hpos := h.index
      exact hkeeps _ hmoved.toKeeps (by omega) (by rw [hs]; simp)
    · obtain ⟨hi, hs⟩ := hmoved.next (by omega)
      refine hkeeps _ hmoved.toKeeps (by omega) ?_
      rw [hs]
      split_ifs <;> simp

/-- Preferring the id that worked changes the current id alone. -/
theorem preferUnitOk_spec (c : ClassicCtx) :
    Keeps c (preferUnitOk c) ∧ (preferUnitOk c).state = c.state ∧
      (c.unitOk = 0 → preferUnitOk c = c) ∧
      (c.unitOk ≠ 0 → c.unitOk ∈ c.unitTry →
        (preferUnitOk c).itry < c.unitTry.length ∧ currentUnit (preferUnitOk c) = c.unitOk) := by
  unfold preferUnitOk
  split_ifs with h
  · have hlt : c.unitTry.idxOf c.unitOk < c.unitTry.length := List.idxOf_lt_length_of_mem h.2
    refine ⟨⟨rfl, rfl, rfl⟩, rfl, fun hz => absurd hz h.1, fun _ _ => ⟨hlt, ?_⟩⟩
    rw [currentUnit, List.getD_eq_getElem _ _ hlt]
    exact List.getElem_idxOf hlt
  · exact ⟨⟨rfl, rfl, rfl⟩, rfl, fun _ => rfl, fun hne hmem => absurd ⟨hne, hmem⟩ h⟩

/-- A request made for the preferred id. -/
theorem valid_buildFc3 (h : Valid c) (e : ClassicEnv) :
    Valid (buildFc3 e (preferUnitOk c)) ∧ Keeps c (buildFc3 e (preferUnitOk c)) := by
  obtain ⟨hk, -, hzero, hsome⟩ := preferUnitOk_spec c
  refine ⟨⟨?_, ?_, ?_, fun hs => by cases hs⟩, ⟨hk.cfg, hk.units, hk.worked⟩⟩
  · show (preferUnitOk c).unitTry = buildUnitList (preferUnitOk c).unitCfg
    rw [hk.units, hk.cfg]
    exact h.units
  · show (preferUnitOk c).itry < (preferUnitOk c).unitTry.length
    rw [hk.units]
    rcases h.worked with hz | hmem
    · rw [hzero hz]
      exact h.index
    · by_cases hz : c.unitOk = 0
      · rw [hzero hz]
        exact h.index
      · exact (hsome hz hmem).1
  · show (preferUnitOk c).unitOk = 0 ∨ (preferUnitOk c).unitOk ∈ (preferUnitOk c).unitTry
    rw [hk.worked, hk.units]
    exact h.worked

/-- A connection attempt from the start of the round. -/
theorem reconnect_spec (e : ClassicEnv) (c : ClassicCtx) :
    Keeps c (reconnect e c).1 ∧ (reconnect e c).1.itry = 0 ∧
      ((reconnect e c).1.state =
        if e.connectError = none then .connecting else .disconnected) ∧
      (reconnect e c).2 ≠ .updated := by
  obtain ⟨hk, hi, hs, -⟩ := startConnect_keeps e { c with itry := 0 }
  refine ⟨⟨hk.cfg, hk.units, hk.worked⟩, hi, hs, ?_⟩
  unfold reconnect
  dsimp only
  split_ifs <;> simp

/-- Every step keeps the module as it should be, and without a good reply the ids too. -/
theorem pump_valid (h : Valid c) (e : ClassicEnv) :
    Valid (stepTo c e) ∧ (¬Answered c e → Keeps c (stepTo c e)) := by
  have hreconnect : ∀ d : ClassicCtx, Keeps c d → Valid (reconnect e d).1 ∧
      Keeps c (reconnect e d).1 := by
    intro d hd
    obtain ⟨hk, hi, hs, -⟩ := reconnect_spec e d
    have hkeeps : Keeps c (reconnect e d).1 :=
      ⟨hk.cfg.trans hd.cfg, hk.units.trans hd.units, hk.worked.trans hd.worked⟩
    have hpos := h.index
    refine ⟨⟨?_, ?_, ?_, fun hh => ?_⟩, hkeeps⟩
    · rw [hkeeps.units, hkeeps.cfg]
      exact h.units
    · rw [hi, hkeeps.units]
      omega
    · rw [hkeeps.worked, hkeeps.units]
      exact h.worked
    · rw [hs] at hh
      split_ifs at hh
  have hbuilt : ∀ r : ClassicCtx × MfStep, Ends e (buildFc3 e (preferUnitOk c)) r →
      Valid r.1 ∧ (r.2 ≠ .updated → Keeps c r.1) := by
    intro r hr
    obtain ⟨hvalid, hk⟩ := valid_buildFc3 h e
    obtain ⟨hv, hkeeps⟩ := valid_of_ends hvalid hr
    refine ⟨hv, fun hne => ?_⟩
    have hl := hkeeps hne
    exact ⟨hl.cfg.trans hk.cfg, hl.units.trans hk.units, hl.worked.trans hk.worked⟩
  unfold stepTo Answered
  cases hs : c.state with
  | disconnected =>
    simp only [pump, hs]
    obtain ⟨hv, hk⟩ := hreconnect c ⟨rfl, rfl, rfl⟩
    exact ⟨hv, fun _ => hk⟩
  | hold =>
    simp only [pump, hs]
    split_ifs
    · exact ⟨h, fun _ => ⟨rfl, rfl, rfl⟩⟩
    · obtain ⟨hv, hk⟩ := hreconnect (sockClose c) ⟨rfl, rfl, rfl⟩
      exact ⟨hv, fun _ => hk⟩
    · exact hbuilt _ (exchange_ends (Or.inl rfl))
  | send =>
    simp only [pump, hs]
    exact valid_of_ends h (exchange_ends (Or.inl hs))
  | recv =>
    simp only [pump, hs]
    exact valid_of_ends h (exchange_ends (Or.inr hs))
  | connecting =>
    simp only [pump, hs, exchange]
    split_ifs
    · exact valid_of_ends h (ends_failStep ⟨rfl, rfl, rfl⟩ rfl)
    · cases e.connectReady with
      | notYet => exact ⟨h, fun _ => ⟨rfl, rfl, rfl⟩⟩
      | failed text => exact valid_of_ends h (ends_failStep ⟨rfl, rfl, rfl⟩ rfl)
      | ready => exact hbuilt _ (sendLoop_ends e.sends ⟨rfl, rfl, rfl⟩ rfl rfl)

/-- A connection attempt keeps the module as it should be. -/
theorem valid_startConnect (h : Valid c) (e : ClassicEnv) : Valid (startConnect e c).1 := by
  obtain ⟨hk, hi, hs, -⟩ := startConnect_keeps e c
  refine ⟨?_, ?_, ?_, fun hh => ?_⟩
  · rw [hk.units, hk.cfg]
    exact h.units
  · rw [hi, hk.units]
    exact h.index
  · rw [hk.worked, hk.units]
    exact h.worked
  · rw [hs] at hh
    split_ifs at hh

/-- A module just opened is as it should be. -/
theorem valid_opened (spec : ClassicSpec) (opening : ClassicEnv) :
    Valid (classicOpened spec opening) := by
  have hlen : 0 < (buildUnitList spec.unitId).length := by
    have htwo := two_le_length spec.unitId
    omega
  exact valid_startConnect ⟨rfl, hlen, Or.inl rfl, fun h => by cases h⟩ opening

/-- And so it is after any steps. -/
theorem valid_of_reachable (h : Reachable c) : Valid c := by
  obtain ⟨spec, opening, es, rfl⟩ := h
  have hstep : ∀ c e, Valid c → True → Valid (stepTo c e) := fun c e hc _ => (pump_valid hc e).1
  exact invariant_run hstep (valid_opened spec opening) (along_of_mem _ fun _ _ => trivial)

/-! ## Runs of failures -/

/-- The ids put in requests in a run, in their order. -/
def requests : ClassicCtx → List ClassicEnv → List ℤ
  | _, [] => []
  | c, e :: es => (asked c e).toList ++ requests (stepTo c e) es

/-- How often the connection comes up in a run. -/
def ups : ClassicCtx → List ClassicEnv → ℕ
  | _, [] => 0
  | c, e :: es => (if comesUp c e = true then 1 else 0) + ups (stepTo c e) es

/-- Requests of a run in two parts. -/
theorem requests_append (c : ClassicCtx) (es fs : List ClassicEnv) :
    requests c (es ++ fs) = requests c es ++ requests (run stepTo c es) fs := by
  induction es generalizing c with
  | nil => rfl
  | cons e es ih => rw [List.cons_append, requests, requests, ih, run_cons, List.append_assoc]

/-- Connections of a run in two parts. -/
theorem ups_append (c : ClassicCtx) (es fs : List ClassicEnv) :
    ups c (es ++ fs) = ups c es + ups (run stepTo c es) fs := by
  induction es generalizing c with
  | nil => exact (Nat.zero_add _).symm
  | cons e es ih => rw [List.cons_append, ups, ups, ih, run_cons, Nat.add_assoc]

/-- A step without a good reply that meets a condition. -/
def Fails (ok : ClassicCtx → ClassicEnv → Prop) (c : ClassicCtx) (e : ClassicEnv) : Prop :=
  ¬Answered c e ∧ ok c e

/-- A run of failures under a condition is a run of failures. -/
theorem fails_any {ok : ClassicCtx → ClassicEnv → Prop} {es : List ClassicEnv}
    (h : Along stepTo (Fails ok) c es) : Along stepTo (Fails fun _ _ => True) c es := by
  have himp : ∀ c e, True → Fails ok c e → Fails (fun _ _ => True) c e :=
    fun _ _ _ hf => ⟨hf.1, trivial⟩
  exact along_imp (fun _ _ _ _ => trivial) himp trivial h

/-- The clock is read in the order of these steps and does not go back, from a time on. -/
def Onward : ℚ → List ClassicEnv → Prop
  | _, [] => True
  | now, e :: es =>
    now ≤ e.now ∧ e.now ≤ e.buildNow ∧ e.buildNow ≤ e.replyNow ∧ e.replyNow ≤ e.connectNow ∧
      Onward e.connectNow es

/-- When such a run ends. -/
def lastTime : ℚ → List ClassicEnv → ℚ
  | now, [] => now
  | _, e :: es => lastTime e.connectNow es

theorem onward_append {now : ℚ} {es fs : List ClassicEnv} :
    Onward now (es ++ fs) ↔ Onward now es ∧ Onward (lastTime now es) fs := by
  induction es generalizing now with
  | nil => simp [Onward, lastTime]
  | cons e es ih => simp only [List.cons_append, Onward, lastTime, ih, and_assoc]

/-- From a time on, there is a number of connections within which every run of failures
that meets a condition puts every id in a request. -/
def Covers (ok : ClassicCtx → ClassicEnv → Prop) (now : ℚ) (c : ClassicCtx) : Prop :=
  ∃ bound, ∀ es, Onward now es → Along stepTo (Fails ok) c es → bound ≤ ups c es →
    ∀ u ∈ c.unitTry, u ∈ requests c es

/-- A connection attempt that is under way has time left. -/
def Fresh (now : ℚ) (c : ClassicCtx) : Prop := c.state = .connecting → now ≤ c.ioDeadline

/-! ## Before an id has worked -/

/-- The place of the id that the next connection is for. -/
def nextIndex (c : ClassicCtx) : ℕ :=
  match c.state with
  | .connecting => c.itry
  | .disconnected => 0
  | _ => (c.itry + 1) % c.unitTry.length

/-- After a failed exchange the next connection is for the next id. -/
theorem nextIndex_moved (hindex : c.itry < c.unitTry.length) (hfine : e.connectError = none)
    (h : Moved e c c') : nextIndex c' = (c.itry + 1) % c.unitTry.length := by
  by_cases hlast : c.unitTry.length ≤ c.itry + 1
  · have hlen : c.itry + 1 = c.unitTry.length := by omega
    rw [nextIndex, (h.last hlast).2, hlen, Nat.mod_self]
  · obtain ⟨hi, hs⟩ := h.next (by omega)
    rw [if_pos hfine] at hs
    have hnext : nextIndex c' = c'.itry := by rw [nextIndex, hs]
    rw [hnext, hi, Nat.mod_eq_of_lt (by omega)]

/-- And while it goes on. -/
theorem nextIndex_stays (h : Stays c c') : nextIndex c' = (c.itry + 1) % c.unitTry.length := by
  rw [← h.units, ← h.index]
  rcases h.state with hs | hs <;> rw [nextIndex, hs]

/-- An exchange that has no good reply goes on or fails. -/
theorem nextIndex_ends {r : ClassicCtx × MfStep} (hindex : c.itry < c.unitTry.length)
    (hfine : e.connectError = none) (h : Ends e c r) (hfail : r.2 ≠ .updated) :
    nextIndex r.1 = (c.itry + 1) % c.unitTry.length := by
  rcases h with ⟨hup, -⟩ | ⟨-, hstays | hmoved⟩
  · exact absurd hup hfail
  · exact nextIndex_stays hstays
  · exact nextIndex_moved hindex hfine hmoved

/-- Before an id has worked, a step in which no connection attempt fails asks
the id that is next if the connection comes up, and else asks nothing. -/
theorem step_before (hvalid : Valid c) (hzero : c.unitOk = 0) (h : Fails ConnectsFine c e) :
    asked c e = (if comesUp c e = true then some (c.unitTry.getD (nextIndex c) 10) else none) ∧
      nextIndex (stepTo c e) =
        if comesUp c e = true then (nextIndex c + 1) % c.unitTry.length else nextIndex c := by
  obtain ⟨hfail, hfine, hconnecting⟩ := h
  have hprefer : preferUnitOk c = c := (preferUnitOk_spec c).2.2.1 hzero
  have hnotHeld : c.state ≠ .hold := fun hs => hvalid.held hs hzero
  have hpolls : pollsHeld c e = false := by simp [pollsHeld, hnotHeld]
  unfold asked
  rw [hpolls, Bool.or_false, hprefer]
  by_cases hup : comesUp c e = true
  · have hstate : c.state = .connecting := by
      simp only [comesUp, Bool.and_eq_true, decide_eq_true_eq] at hup
      exact hup.1.1
    have hnext : nextIndex c = c.itry := by rw [nextIndex, hstate]
    rw [if_pos hup, if_pos hup, if_pos hup, hnext]
    refine ⟨rfl, ?_⟩
    unfold Answered at hfail
    unfold stepTo
    rw [pump_comesUp hup, hprefer] at hfail ⊢
    exact nextIndex_ends (e := e) (c := buildFc3 e c) hvalid.index hfine
      (sendLoop_ends e.sends ⟨rfl, rfl, rfl⟩ rfl rfl) hfail
  · rw [if_neg hup, if_neg hup, if_neg hup]
    refine ⟨rfl, ?_⟩
    unfold Answered at hfail
    unfold stepTo
    cases hs : c.state with
    | hold => exact absurd hs hnotHeld
    | disconnected =>
      obtain ⟨-, hi, hst, -⟩ := reconnect_spec e c
      simp only [pump, hs]
      rw [if_pos hfine] at hst
      have hnow : nextIndex c = 0 := by rw [nextIndex, hs]
      rw [nextIndex, hst, hnow]
      exact hi
    | connecting =>
      obtain ⟨hnow, hready⟩ := hconnecting hs
      have hcr : e.connectReady = .notYet := by
        cases hr : e.connectReady with
        | notYet => rfl
        | failed text => exact absurd hr (hready text)
        | ready => exact absurd (by simp [comesUp, hs, hnow, hr]) hup
      simp only [pump, hs, exchange, hcr]
      rw [if_neg (not_lt.mpr hnow)]
    | send =>
      have hnow : nextIndex c = (c.itry + 1) % c.unitTry.length := by rw [nextIndex, hs]
      simp only [pump, hs] at hfail ⊢
      rw [hnow]
      exact nextIndex_ends hvalid.index hfine (exchange_ends (Or.inl hs)) hfail
    | recv =>
      have hnow : nextIndex c = (c.itry + 1) % c.unitTry.length := by rw [nextIndex, hs]
      simp only [pump, hs] at hfail ⊢
      rw [hnow]
      exact nextIndex_ends hvalid.index hfine (exchange_ends (Or.inr hs)) hfail

/-- Before an id has worked, the connections of such a run go round the ids. -/
theorem requests_before {es : List ClassicEnv} (hvalid : Valid c) (hzero : c.unitOk = 0)
    (h : Along stepTo (Fails ConnectsFine) c es) :
    requests c es = (List.range (ups c es)).map fun i =>
      c.unitTry.getD ((nextIndex c + i) % c.unitTry.length) 10 := by
  induction es generalizing c with
  | nil => rfl
  | cons e es ih =>
    obtain ⟨hfails, hrest⟩ := h
    obtain ⟨hasked, hnext⟩ := step_before hvalid hzero hfails
    obtain ⟨hvalid', hkeeps⟩ := pump_valid hvalid e
    have hk := hkeeps hfails.1
    have hrun := ih hvalid' (hk.worked.trans hzero) hrest
    rw [requests, ups, hrun, hasked, hnext, hk.units]
    split_ifs with hup
    · have hlt : nextIndex c < c.unitTry.length := by
        have hpos := hvalid.index
        unfold nextIndex
        split
        · exact hpos
        · omega
        · exact Nat.mod_lt _ (by omega)
      have hmod : (nextIndex c + 0) % c.unitTry.length = nextIndex c := Nat.mod_eq_of_lt hlt
      rw [Nat.add_comm 1, List.range_succ_eq_map, List.map_cons, List.map_map, Option.toList_some,
        List.singleton_append, hmod]
      congr 1
      refine List.map_congr_left fun i _ => ?_
      show c.unitTry.getD (((nextIndex c + 1) % c.unitTry.length + i) % c.unitTry.length) 10 =
        c.unitTry.getD ((nextIndex c + (i + 1)) % c.unitTry.length) 10
      rw [Nat.mod_add_mod, Nat.add_assoc, Nat.add_comm 1 i]
    · rw [Nat.zero_add]
      rfl

/-- So as many connections as there are ids ask every id. -/
theorem covers_before {es : List ClassicEnv} (hvalid : Valid c) (hzero : c.unitOk = 0)
    (h : Along stepTo (Fails ConnectsFine) c es) (hups : c.unitTry.length ≤ ups c es) {u : ℤ}
    (hu : u ∈ c.unitTry) : u ∈ requests c es := by
  obtain ⟨j, hj, rfl⟩ := List.mem_iff_getElem.mp hu
  rw [requests_before hvalid hzero h, List.mem_map]
  have hpos : 0 < c.unitTry.length := by omega
  have hlt : nextIndex c % c.unitTry.length < c.unitTry.length := Nat.mod_lt _ hpos
  refine ⟨(j + (c.unitTry.length - nextIndex c % c.unitTry.length)) % c.unitTry.length, ?_, ?_⟩
  · rw [List.mem_range]
    exact lt_of_lt_of_le (Nat.mod_lt _ hpos) hups
  · have hsum : (nextIndex c + (j + (c.unitTry.length - nextIndex c % c.unitTry.length)) %
        c.unitTry.length) % c.unitTry.length = j := by
      have hshift : nextIndex c % c.unitTry.length +
          (j + (c.unitTry.length - nextIndex c % c.unitTry.length)) = j + c.unitTry.length := by
        omega
      rw [Nat.add_mod_mod, ← Nat.mod_add_mod, hshift, Nat.add_mod_right, Nat.mod_eq_of_lt hj]
    rw [hsum, List.getD_eq_getElem _ _ hj]

/-! ## After an id has worked -/

/-- Once an id has worked, no other is asked. -/
theorem asked_after (hvalid : Valid c) (hne : c.unitOk ≠ 0) {u : ℤ} (h : asked c e = some u) :
    u = c.unitOk := by
  unfold asked at h
  split_ifs at h
  have hmem := hvalid.worked.resolve_left hne
  rw [← Option.some.inj h]
  exact ((preferUnitOk_spec c).2.2.2 hne hmem).2

/-- Nor is it in a run of failures. -/
theorem requests_after {ok : ClassicCtx → ClassicEnv → Prop} {es : List ClassicEnv}
    (hvalid : Valid c) (hne : c.unitOk ≠ 0) (h : Along stepTo (Fails ok) c es) :
    ∀ u ∈ requests c es, u = c.unitOk := by
  induction es generalizing c with
  | nil => exact fun u hu => by cases hu
  | cons e es ih =>
    obtain ⟨hfails, hrest⟩ := h
    obtain ⟨hvalid', hkeeps⟩ := pump_valid hvalid e
    have hk := hkeeps hfails.1
    intro u hu
    rcases List.mem_append.mp hu with hu | hu
    · exact asked_after hvalid hne (Option.mem_toList.mp hu)
    · rw [← hk.worked]
      exact ih hvalid' (by rw [hk.worked]; exact hne) hrest u hu

/-! ## Runs that come up as often as one likes -/

/-- A step at some time, in which everything the socket is asked fails. -/
def lostEnv (now : ℚ) (found : ConnectReady) : ClassicEnv :=
  { now := now, connectNow := now, buildNow := now, replyNow := now, connectError := none
    connectReady := found, sends := [.failed CString.empty], recvs := [] }

theorem onward_lost {now t : ℚ} {found : ConnectReady} {es : List ClassicEnv} (h : now ≤ t)
    (hes : Onward t es) : Onward now (lostEnv t found :: es) :=
  ⟨h, le_rfl, le_rfl, le_rfl, hes⟩

/-- The attempt that a failed exchange starts has all its time. -/
theorem fresh_startConnect (e : ClassicEnv) (c : ClassicCtx) :
    Fresh e.connectNow (startConnect e c).1 := by
  intro hs
  unfold startConnect at hs ⊢
  cases he : e.connectError with
  | none =>
    change e.connectNow ≤ e.connectNow + ioTimeoutS
    exact le_add_of_nonneg_right (by norm_num [ioTimeoutS])
  | some text =>
    rw [he] at hs
    cases hs

theorem fresh_failStep (e : ClassicEnv) (c : ClassicCtx) :
    Fresh e.connectNow (failStep e c).1 := by
  unfold failStep nextUnitOrReconnect
  dsimp only
  split
  · intro hs
    cases hs
  · exact fresh_startConnect e _

/-- A connection that comes up and fails at once goes to the next id. -/
theorem lost_connecting {t : ℚ} (hstate : c.state = .connecting) (ht : Fresh t c) :
    comesUp c (lostEnv t .ready) = true ∧ Fails ConnectsFine c (lostEnv t .ready) ∧
      Fresh t (stepTo c (lostEnv t .ready)) := by
  have hnow : t ≤ c.ioDeadline := ht hstate
  have hup : comesUp c (lostEnv t .ready) = true := by
    simp [comesUp, hstate, lostEnv, hnow]
  have hpump : ∃ d, pump (lostEnv t .ready) c = failStep (lostEnv t .ready) d := by
    refine ⟨{ buildFc3 (lostEnv t .ready) (preferUnitOk c) with
      err := CBuf.copy 96 (CString.lit "send: " ++ CString.empty) }, ?_⟩
    rw [pump_comesUp hup, sendLoop.eq_def]
    dsimp only
    rw [if_neg]
    · rfl
    · simp [buildFc3, putBe16]
  obtain ⟨d, hpump⟩ := hpump
  refine ⟨hup, ⟨?_, rfl, fun _ => ⟨hnow, fun text h => by cases h⟩⟩, ?_⟩
  · unfold Answered
    rw [hpump]
    simp [failStep]
  · unfold stepTo
    rw [hpump]
    exact fresh_failStep (lostEnv t .ready) d

/-- Without a connection the next step is an attempt. -/
theorem lost_disconnected (hstate : c.state = .disconnected) (t : ℚ) :
    Fails ConnectsFine c (lostEnv t .notYet) ∧
      (stepTo c (lostEnv t .notYet)).state = .connecting ∧
      Fresh t (stepTo c (lostEnv t .notYet)) ∧ asked c (lostEnv t .notYet) = none := by
  obtain ⟨-, -, hs, hr⟩ := reconnect_spec (lostEnv t .notYet) c
  refine ⟨⟨?_, rfl, fun h => ?_⟩, ?_, ?_, ?_⟩
  · unfold Answered
    simp only [pump, hstate]
    exact hr
  · rw [hstate] at h
    cases h
  · unfold stepTo
    simp only [pump, hstate]
    exact hs
  · unfold stepTo
    simp only [pump, hstate]
    exact fresh_startConnect (lostEnv t .notYet) { c with itry := 0 }
  · simp [asked, comesUp, pollsHeld, hstate]

/-- A request whose time runs out goes to the next id. -/
theorem lost_asking {t : ℚ} (hstate : c.state = .send ∨ c.state = .recv)
    (hlate : c.ioDeadline < t) :
    Fails ConnectsFine c (lostEnv t .notYet) ∧
      Moved (lostEnv t .notYet) c (stepTo c (lostEnv t .notYet)) ∧
      Fresh t (stepTo c (lostEnv t .notYet)) ∧ asked c (lostEnv t .notYet) = none := by
  have hpump : pump (lostEnv t .notYet) c =
      failStep (lostEnv t .notYet) { c with
        err := CBuf.copy 96 (CString.lit "io timeout unit " ++ intText (currentUnit c)) } := by
    have hlate' : c.ioDeadline < (lostEnv t .notYet).now := hlate
    rcases hstate with hs | hs <;> simp only [pump, hs, exchange] <;> rw [if_pos hlate']
  have hmoved := failStep_moved (lostEnv t .notYet) { c with
    err := CBuf.copy 96 (CString.lit "io timeout unit " ++ intText (currentUnit c)) }
  refine ⟨⟨?_, rfl, fun h => ?_⟩, ?_, ?_, ?_⟩
  · unfold Answered
    rw [hpump]
    simp [failStep]
  · rcases hstate with hs | hs <;> rw [hs] at h <;> cases h
  · unfold stepTo
    rw [hpump]
    exact ⟨⟨hmoved.cfg, hmoved.units, hmoved.worked⟩, hmoved.last, hmoved.next⟩
  · unfold stepTo
    rw [hpump]
    exact fresh_failStep (lostEnv t .notYet) _
  · rcases hstate with hs | hs <;> simp [asked, comesUp, pollsHeld, hs]

/-- When a held connection is old the module connects again. -/
theorem lost_held {t : ℚ} (hstate : c.state = .hold) (hdue : c.nextPoll ≤ t)
    (hold : c.lastOk + reconnectS ≤ t) :
    Fails ConnectsFine c (lostEnv t .notYet) ∧
      (stepTo c (lostEnv t .notYet)).state = .connecting ∧
      Fresh t (stepTo c (lostEnv t .notYet)) ∧ asked c (lostEnv t .notYet) = none := by
  have hdue' : ¬(lostEnv t .notYet).now < c.nextPoll := not_lt.mpr hdue
  have hold' : reconnectS ≤ (lostEnv t .notYet).now - c.lastOk := by
    show reconnectS ≤ t - c.lastOk
    linarith
  have hpump : pump (lostEnv t .notYet) c = reconnect (lostEnv t .notYet) (sockClose c) := by
    simp only [pump, hstate]
    rw [if_neg hdue', if_pos hold']
  obtain ⟨-, -, hs, hr⟩ := reconnect_spec (lostEnv t .notYet) (sockClose c)
  refine ⟨⟨?_, rfl, fun h => ?_⟩, ?_, ?_, ?_⟩
  · unfold Answered
    rw [hpump]
    exact hr
  · rw [hstate] at h
    cases h
  · unfold stepTo
    rw [hpump]
    exact hs
  · unfold stepTo
    rw [hpump]
    exact fresh_startConnect (lostEnv t .notYet) { sockClose c with itry := 0 }
  · simp [asked, comesUp, pollsHeld, hstate, not_lt.mpr hold']

/-- From any state some failing steps lead to a connection under way, without a request. -/
theorem exists_connecting {now : ℚ} (hfresh : Fresh now c) :
    ∃ es, Onward now es ∧ Along stepTo (Fails ConnectsFine) c es ∧
      (run stepTo c es).state = .connecting ∧ Fresh (lastTime now es) (run stepTo c es) ∧
      requests c es = [] := by
  have hask : ∀ {e : ClassicEnv}, asked c e = none → requests c [e] = [] := by
    intro e he
    rw [requests, he]
    rfl
  have hasking : c.state = .send ∨ c.state = .recv → ∃ es, Onward now es ∧
      Along stepTo (Fails ConnectsFine) c es ∧ (run stepTo c es).state = .connecting ∧
      Fresh (lastTime now es) (run stepTo c es) ∧ requests c es = [] := by
    intro hs
    obtain ⟨t, hnow, hlate⟩ : ∃ t, now ≤ t ∧ c.ioDeadline < t :=
      ⟨max now (c.ioDeadline + 1), le_max_left _ _,
        lt_of_lt_of_le (lt_add_one _) (le_max_right _ _)⟩
    obtain ⟨hf, hmoved, hnew, ha⟩ := lost_asking hs hlate
    by_cases hlast : c.unitTry.length ≤ c.itry + 1
    · obtain ⟨hf', hnext, hnew', ha'⟩ := lost_disconnected (hmoved.last hlast).2 t
      refine ⟨[_, _], onward_lost hnow (onward_lost le_rfl trivial), ⟨hf, hf', trivial⟩, hnext,
        hnew', ?_⟩
      rw [requests, requests, ha, ha']
      rfl
    · exact ⟨[_], onward_lost hnow trivial, ⟨hf, trivial⟩, (hmoved.next (by omega)).2, hnew,
        hask ha⟩
  cases hs : c.state with
  | connecting => exact ⟨[], trivial, trivial, hs, hfresh, rfl⟩
  | disconnected =>
    obtain ⟨hf, hnext, hnew, ha⟩ := lost_disconnected hs now
    exact ⟨[_], onward_lost le_rfl trivial, ⟨hf, trivial⟩, hnext, hnew, hask ha⟩
  | hold =>
    obtain ⟨t, hnow, hdue, hold⟩ : ∃ t, now ≤ t ∧ c.nextPoll ≤ t ∧ c.lastOk + reconnectS ≤ t :=
      ⟨max now (max c.nextPoll (c.lastOk + reconnectS)), le_max_left _ _,
        (le_max_left _ _).trans (le_max_right _ _), (le_max_right _ _).trans (le_max_right _ _)⟩
    obtain ⟨hf, hnext, hnew, ha⟩ := lost_held hs hdue hold
    exact ⟨[_], onward_lost hnow trivial, ⟨hf, trivial⟩, hnext, hnew, hask ha⟩
  | send => exact hasking (Or.inl hs)
  | recv => exact hasking (Or.inr hs)

/-- A module stays as it should be along any run. -/
theorem valid_run (hvalid : Valid c) (es : List ClassicEnv) : Valid (run stepTo c es) := by
  have hstep : ∀ c e, Valid c → True → Valid (stepTo c e) := fun c e hc _ => (pump_valid hc e).1
  exact invariant_run hstep hvalid (along_of_mem _ fun _ _ => trivial)

/-- A run of failures keeps the ids and the one that worked. -/
theorem keeps_run {ok : ClassicCtx → ClassicEnv → Prop} {es : List ClassicEnv} (hvalid : Valid c)
    (h : Along stepTo (Fails ok) c es) : Keeps c (run stepTo c es) := by
  induction es generalizing c with
  | nil => exact ⟨rfl, rfl, rfl⟩
  | cons e es ih =>
    obtain ⟨hfails, hrest⟩ := h
    obtain ⟨hvalid', hkeeps⟩ := pump_valid hvalid e
    have hk := hkeeps hfails.1
    have hr := ih hvalid' hrest
    exact ⟨hr.cfg.trans hk.cfg, hr.units.trans hk.units, hr.worked.trans hk.worked⟩

/-- In a run of failures the connection can come up any number of times. -/
theorem exists_ups {now : ℚ} (hfresh : Fresh now c) (n : ℕ) :
    ∃ es, Onward now es ∧ Along stepTo (Fails ConnectsFine) c es ∧ n ≤ ups c es := by
  induction n generalizing c now with
  | zero => exact ⟨[], trivial, trivial, Nat.zero_le _⟩
  | succ n ih =>
    obtain ⟨es, htimes, hes, hstate, hnew, -⟩ := exists_connecting hfresh
    obtain ⟨hup, hfails, hnext⟩ := lost_connecting hstate hnew
    obtain ⟨fs, htimes', hfs, hn⟩ := ih hnext
    refine ⟨es ++ _ :: fs, onward_append.mpr ⟨htimes, onward_lost le_rfl htimes'⟩,
      (along_append _ _ _ _).mpr ⟨hes, hfails, hfs⟩, ?_⟩
    rw [ups_append, ups, if_pos hup]
    omega

/-- A connection that fails, or whose time has run out, goes to the next id without a
request. -/
theorem lost_connect (hstate : c.state = .connecting) (t : ℚ) :
    Fails (fun _ _ => True) c (lostEnv t (.failed CString.empty)) ∧
      Moved (lostEnv t (.failed CString.empty)) c
        (stepTo c (lostEnv t (.failed CString.empty))) ∧
      Fresh t (stepTo c (lostEnv t (.failed CString.empty))) ∧
      asked c (lostEnv t (.failed CString.empty)) = none := by
  have hpump : ∃ err, pump (lostEnv t (.failed CString.empty)) c =
      failStep (lostEnv t (.failed CString.empty)) { c with err := err } := by
    simp only [pump, hstate, exchange]
    split_ifs
    · exact ⟨_, rfl⟩
    · exact ⟨_, rfl⟩
  obtain ⟨err, hpump⟩ := hpump
  have hmoved := failStep_moved (lostEnv t (.failed CString.empty)) { c with err := err }
  refine ⟨⟨?_, trivial⟩, ?_, ?_, ?_⟩
  · unfold Answered
    rw [hpump]
    simp [failStep]
  · unfold stepTo
    rw [hpump]
    exact ⟨⟨hmoved.cfg, hmoved.units, hmoved.worked⟩, hmoved.last, hmoved.next⟩
  · unfold stepTo
    rw [hpump]
    exact fresh_failStep (lostEnv t (.failed CString.empty)) _
  · simp [asked, comesUp, pollsHeld, hstate, lostEnv]

/-- So it can when the time of the attempt under way has run out. -/
theorem exists_ups_any (now : ℚ) (c : ClassicCtx) (n : ℕ) :
    ∃ es, Onward now es ∧ Along stepTo (Fails fun _ _ => True) c es ∧ n ≤ ups c es := by
  by_cases hfresh : Fresh now c
  · obtain ⟨es, htimes, hes, hn⟩ := exists_ups hfresh n
    exact ⟨es, htimes, fails_any hes, hn⟩
  · have hstate : c.state = .connecting := (Classical.not_imp.mp hfresh).1
    obtain ⟨hf, -, hnew, -⟩ := lost_connect hstate now
    obtain ⟨es, htimes, hes, hn⟩ := exists_ups hnew n
    refine ⟨_ :: es, onward_lost le_rfl htimes, ⟨hf, fails_any hes⟩, ?_⟩
    rw [ups]
    omega

/-- Runs of failures in which the connection comes up some number of times and the first id
is not asked. -/
def Avoids (now : ℚ) (n : ℕ) (c : ClassicCtx) : Prop :=
  ∃ es, Onward now es ∧ Along stepTo (Fails fun _ _ => True) c es ∧ n ≤ ups c es ∧
    c.unitTry.getD 0 10 ∉ requests c es

/-- A step without a request in front of such a run. -/
theorem Avoids.cons {now t : ℚ} {n : ℕ} {found : ConnectReady} (hnow : now ≤ t)
    (hf : Fails (fun _ _ => True) c (lostEnv t found)) (ha : asked c (lostEnv t found) = none)
    (hunits : (stepTo c (lostEnv t found)).unitTry = c.unitTry)
    (h : Avoids t n (stepTo c (lostEnv t found))) : Avoids now n c := by
  obtain ⟨es, htimes, hes, hn, hnot⟩ := h
  refine ⟨_ :: es, onward_lost hnow htimes, ⟨hf, hes⟩, ?_, ?_⟩
  · rw [ups]
    omega
  · rw [requests, ha, ← hunits]
    exact hnot

/-- A connection for another id that comes up and fails, in front of such a run. -/
theorem Avoids.connected {d : ClassicCtx} {t : ℚ} {n : ℕ} (hd : Valid d) (hz : d.unitOk = 0)
    (hstate : d.state = .connecting) (ht : Fresh t d) (hi : d.itry ≠ 0)
    (h : Avoids t n (stepTo d (lostEnv t .ready))) : Avoids t (n + 1) d := by
  obtain ⟨hup, hfails, -⟩ := lost_connecting hstate ht
  have hk := (pump_valid hd (lostEnv t .ready)).2 hfails.1
  obtain ⟨fs, htimes, hfs, hn, hnot⟩ := h
  have hasked : asked d (lostEnv t .ready) = some (currentUnit d) := by
    rw [asked, hup, Bool.true_or, if_pos rfl, (preferUnitOk_spec d).2.2.1 hz]
  have hpos : 0 < d.unitTry.length := by
    have hindex := hd.index
    omega
  have hne : d.unitTry.getD 0 10 ≠ currentUnit d := by
    have hnodup : d.unitTry.Nodup := hd.units ▸ nodup_buildUnitList d.unitCfg
    rw [currentUnit, List.getD_eq_getElem _ _ hpos, List.getD_eq_getElem _ _ hd.index]
    exact fun heq => hi ((hnodup.getElem_inj_iff).mp heq).symm
  refine ⟨_ :: fs, onward_lost le_rfl htimes, ⟨⟨hfails.1, trivial⟩, hfs⟩, ?_, ?_⟩
  · rw [ups, if_pos hup]
    omega
  · rw [requests, hasked, ← hk.units]
    simp only [Option.toList_some, List.singleton_append, List.mem_cons, not_or]
    rw [hk.units] at hnot ⊢
    exact ⟨hne, hnot⟩

/-- Before an id has worked, the connection can come up any number of times
without the first id being asked: each time it is its turn the connection fails. -/
theorem exists_avoiding_fresh {now : ℚ} (hvalid : Valid c) (hzero : c.unitOk = 0)
    (hfresh : Fresh now c) (n : ℕ) : Avoids now n c := by
  induction n generalizing c now with
  | zero => exact ⟨[], trivial, trivial, Nat.zero_le _, List.not_mem_nil⟩
  | succ n ih =>
    have hother : ∀ (d : ClassicCtx) (t : ℚ), Valid d → d.unitOk = 0 → d.state = .connecting →
        Fresh t d → d.itry ≠ 0 → Avoids t (n + 1) d := by
      intro d t hd hz hstate ht hi
      obtain ⟨-, hfails, hnew⟩ := lost_connecting hstate ht
      obtain ⟨hd', hkeeps⟩ := pump_valid hd (lostEnv t .ready)
      exact Avoids.connected hd hz hstate ht hi (ih hd' ((hkeeps hfails.1).worked.trans hz) hnew)
    obtain ⟨es, htimes, hes, hstate, hnew, hnone⟩ := exists_connecting hfresh
    have hd := valid_run hvalid es
    have hk := keeps_run hvalid hes
    have hz : (run stepTo c es).unitOk = 0 := hk.worked.trans hzero
    have hrest : Avoids (lastTime now es) (n + 1) (run stepTo c es) := by
      by_cases hi : (run stepTo c es).itry = 0
      · -- at the turn of the first id the connection fails
        obtain ⟨hf, hmoved, hnew', ha⟩ := lost_connect hstate (lastTime now es)
        obtain ⟨hd', -⟩ := pump_valid hd (lostEnv (lastTime now es) (.failed CString.empty))
        have htwo : 2 ≤ (run stepTo c es).unitTry.length := by
          rw [hd.units]
          exact two_le_length _
        obtain ⟨hnext, hconnecting⟩ := hmoved.next (by omega)
        have hplace : (stepTo (run stepTo c es)
            (lostEnv (lastTime now es) (.failed CString.empty))).itry ≠ 0 := by
          rw [hnext]
          omega
        exact Avoids.cons le_rfl hf ha hmoved.units
          (hother _ _ hd' (hmoved.worked.trans hz) hconnecting hnew' hplace)
      · exact hother _ _ hd hz hstate hnew hi
    obtain ⟨fs, htimes', hfs, hn, hnot⟩ := hrest
    refine ⟨es ++ fs, onward_append.mpr ⟨htimes, htimes'⟩,
      (along_append _ _ _ _).mpr ⟨fails_any hes, hfs⟩, ?_, ?_⟩
    · rw [ups_append]
      omega
    · rw [requests_append, hnone, List.nil_append, ← hk.units]
      exact hnot

/-- And so it can when the time of the attempt under way has run out. -/
theorem exists_avoiding (hvalid : Valid c) (hzero : c.unitOk = 0) (now : ℚ) (n : ℕ) :
    Avoids now n c := by
  by_cases hfresh : Fresh now c
  · exact exists_avoiding_fresh hvalid hzero hfresh n
  · have hstate : c.state = .connecting := (Classical.not_imp.mp hfresh).1
    obtain ⟨hf, hmoved, hnew, ha⟩ := lost_connect hstate now
    obtain ⟨hd, -⟩ := pump_valid hvalid (lostEnv now (.failed CString.empty))
    exact Avoids.cons le_rfl hf ha hmoved.units
      (exists_avoiding_fresh hd (hmoved.worked.trans hzero) hnew n)

/-! ## Covering the ids -/

/-- Once an id has worked, one of the other ids is never asked. -/
theorem exists_unasked {ok : ClassicCtx → ClassicEnv → Prop} {es : List ClassicEnv}
    (hvalid : Valid c) (hne : c.unitOk ≠ 0) (hes : Along stepTo (Fails ok) c es) :
    ∃ u ∈ c.unitTry, u ∉ requests c es := by
  have htwo : 2 ≤ c.unitTry.length := by
    rw [hvalid.units]
    exact two_le_length _
  have hnodup : c.unitTry.Nodup := hvalid.units ▸ nodup_buildUnitList c.unitCfg
  have hdiff : c.unitTry[0] ≠ c.unitTry[1] := by
    intro heq
    have hidx := (hnodup.getElem_inj_iff).mp heq
    omega
  by_cases hfirst : c.unitTry[0] = c.unitOk
  · refine ⟨c.unitTry[1], List.getElem_mem _, fun hu => hdiff ?_⟩
    rw [hfirst, requests_after hvalid hne hes _ hu]
  · exact ⟨c.unitTry[0], List.getElem_mem _, fun hu => hfirst (requests_after hvalid hne hes _ hu)⟩

/-- So where the connection can come up any number of times, every id is reached only while none
has worked. -/
theorem unitOk_of_covers {ok : ClassicCtx → ClassicEnv → Prop} {now : ℚ} (hvalid : Valid c)
    (hups : ∀ n, ∃ es, Onward now es ∧ Along stepTo (Fails ok) c es ∧ n ≤ ups c es)
    (hcovers : Covers ok now c) : c.unitOk = 0 := by
  by_contra hne
  obtain ⟨bound, hbound⟩ := hcovers
  obtain ⟨es, htimes, hes, hn⟩ := hups bound
  obtain ⟨u, hu, hnot⟩ := exists_unasked hvalid hne hes
  exact hnot (hbound es htimes hes hn u hu)

/-- No run gets through from an attempt that has run out of time. -/
theorem covers_late {now : ℚ} (hstate : c.state = .connecting) (hlate : c.ioDeadline < now) :
    Covers ConnectsFine now c := by
  refine ⟨1, fun es htimes hes hups => ?_⟩
  cases es with
  | nil => cases hups
  | cons e es => exact absurd (htimes.1.trans (hes.1.2.2 hstate).1) (not_le.mpr hlate)

/-- A module with the default id, its first connection under way. -/
def openedCharger : ClassicCtx := classicOpened ⟨CBuf.zero 64, 502, 10, 5⟩ (lostEnv 0 .notYet)

/-- A step in which the connection comes up and a good reply arrives at once. -/
def replyEnv : ClassicEnv :=
  { lostEnv 1 .ready with
    sends := [.sent 12]
    recvs := [.chunk ([0, 1, 0, 0, 0, 229, 10, 3, 226] ++ List.replicate 218 0 ++
      putBe16 expectedName ++ List.replicate 6 0)] }

/-- The module after it. -/
def heldCharger : ClassicCtx := run stepTo openedCharger [replyEnv]

end MoonFlare.Classic
