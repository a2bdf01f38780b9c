import MoonFlare.ClassicProbe

/-!
# Runs of the network probe

Whatever the hosts do, the candidates are started in their order and each once, a host is
asked under its unit ids in their order, and a slot gives a host up only when all ids were
asked, a connection failed at once, or the host answered as a Classic or as something
else. The job ends at the first hit, when nothing is left to ask, or at its time cap.
-/

namespace MoonFlare.Probe

open Binary Classic Runs

/-! ## The log -/

/-- The hosts taken on, in their order. -/
def startsOf (log : List ProbeEvent) : List Host :=
  log.filterMap fun ev => match ev with
    | .start h => some h
    | _ => none

/-- The unit ids a host was asked for, and whether the connection was begun. -/
def connectsOf (log : List ProbeEvent) (h : Host) : List (ℤ × Bool) :=
  log.filterMap fun ev => match ev with
    | .connect h' unit begun => if h' = h then some (unit, begun) else none
    | _ => none

/-- What a host answered. -/
def repliesOf (log : List ProbeEvent) (h : Host) : List (ℤ × Bytes) :=
  log.filterMap fun ev => match ev with
    | .reply h' unit b => if h' = h then some (unit, b) else none
    | _ => none

theorem startsOf_append (a b : List ProbeEvent) : startsOf (a ++ b) = startsOf a ++ startsOf b :=
  List.filterMap_append

theorem connectsOf_append (a b : List ProbeEvent) (h : Host) :
    connectsOf (a ++ b) h = connectsOf a h ++ connectsOf b h := List.filterMap_append

theorem repliesOf_append (a b : List ProbeEvent) (h : Host) :
    repliesOf (a ++ b) h = repliesOf a h ++ repliesOf b h := List.filterMap_append

/-! ## Replies -/

/-- Bytes that wait for more leave room for them. -/
theorem room_of_needMore {b : Bytes} (h : decodeRx b = .needMore) : b.length < rxCap := by
  unfold decodeRx at h
  dsimp only at h
  split_ifs at h with h6 hlen hall hexc hfun hcount
  · unfold rxCap
    omega
  · omega
  · split at h
    next => exact absurd h (by simp)
    next => exact absurd h (by simp)
    next => exact absurd h (by simp)

/-- What is decoded is a frame with the registers of a Classic. -/
theorem decodeRx_ok {b : Bytes} {d : ClassicData} (h : decodeRx b = .ok d) :
    ReplyFrame b ∧ d = (classicDecode (frameRegisters b)).1 := by
  unfold decodeRx at h
  dsimp only at h
  split_ifs at h with h6 hlen hall hexc hfun hcount
  split at h
  next d' hd =>
    obtain rfl : d' = d := Decoded.ok.inj h
    unfold regQty at hcount
    have hthree : (b.getD 7 0).toNat = (3 : UInt8).toNat := not_not.mp hfun
    have hbytes : (b.getD 8 0).toNat = (226 : UInt8).toNat := by
      change _ = 226
      omega
    refine ⟨⟨by omega, by omega, UInt8.toNat_inj.mp hthree, UInt8.toNat_inj.mp hbytes, ?_⟩, ?_⟩
    · rw [hd]
    · rw [hd]
  next => exact absurd h (by simp)
  next => exact absurd h (by simp)

/-! ## What pumping a slot can do -/

/-- Two slots are for one host. -/
structure SameHost (s t : ProbeSlot) : Prop where
  host : t.host = s.host
  ip : t.ip = s.ip
  port : t.port = s.port
  units : t.unitTry = s.unitTry

/-- What pumping can do to a slot in use. -/
inductive PumpCase (s : ProbeSlot) (r : Pumped) : Prop where
  /-- The exchange goes on. -/
  | waits (hsame : SameHost s r.slot) (hitry : r.slot.itry = s.itry)
      (hbusy : r.slot.state ≠ .free)
      (hwait : r.slot.state = .recv → decodeRx r.slot.rx = .needMore)
      (hevents : r.events = []) (hresult : r.result = .inFlight)
  /-- The next unit id is asked. -/
  | next (hsame : SameHost s r.slot) (hmore : s.itry + 1 < s.unitTry.length)
      (hitry : r.slot.itry = s.itry + 1) (hbusy : r.slot.state = .connecting)
      (hevents : r.events = [.connect s.host (s.unitTry.getD (s.itry + 1) 10) true])
      (hresult : r.result = .inFlight)
  /-- The connection for the next unit id fails at once. -/
  | refused (hmore : s.itry + 1 < s.unitTry.length) (hfree : r.slot.state = .free)
      (hevents : r.events = [.connect s.host (s.unitTry.getD (s.itry + 1) 10) false])
      (hresult : r.result = .dead)
  /-- There is no next unit id. -/
  | spent (hlast : s.unitTry.length ≤ s.itry + 1) (hfree : r.slot.state = .free)
      (hevents : r.events = []) (hresult : r.result = .dead)
  /-- The host answers as a Classic. -/
  | classic (d : ClassicData) (b : Bytes) (hsame : SameHost s r.slot)
      (hitry : r.slot.itry = s.itry) (hdecode : decodeRx b = .ok d) (hfree : r.slot.state = .free)
      (hevents : r.events = [.reply s.host (slotUnit s) b]) (hresult : r.result = .decoded d)
  /-- It answers as something else. -/
  | foreign (b : Bytes) (hdecode : decodeRx b = .foreign) (hfree : r.slot.state = .free)
      (hevents : r.events = [.reply s.host (slotUnit s) b]) (hresult : r.result = .dead)

variable {s t : ProbeSlot} {r : Pumped}

theorem SameHost.refl (s : ProbeSlot) : SameHost s s := ⟨rfl, rfl, rfl, rfl⟩

theorem SameHost.trans {u : ProbeSlot} (h : SameHost s t) (h' : SameHost t u) : SameHost s u :=
  ⟨h'.host.trans h.host, h'.ip.trans h.ip, h'.port.trans h.port, h'.units.trans h.units⟩

/-- What it can do depends on the host and the unit id alone. -/
theorem PumpCase.of_same (h : PumpCase t r) (hst : SameHost s t) (hitry : t.itry = s.itry) :
    PumpCase s r := by
  have hunit : slotUnit t = slotUnit s := by
    unfold slotUnit
    rw [hst.units, hitry]
  cases h with
  | waits hsame hi hbusy hwait hev hres =>
    exact .waits (hst.trans hsame) (hi.trans hitry) hbusy hwait hev hres
  | next hsame hmore hi hbusy hev hres =>
    rw [hst.units, hitry] at hmore
    rw [hst.host, hst.units, hitry] at hev
    exact .next (hst.trans hsame) hmore (by rw [hi, hitry]) hbusy hev hres
  | refused hmore hfree hev hres =>
    rw [hst.units, hitry] at hmore
    rw [hst.host, hst.units, hitry] at hev
    exact .refused hmore hfree hev hres
  | spent hlast hfree hev hres =>
    rw [hst.units, hitry] at hlast
    exact .spent hlast hfree hev hres
  | classic d b hsame hi hdec hfree hev hres =>
    rw [hst.host, hunit] at hev
    exact .classic d b (hst.trans hsame) (hi.trans hitry) hdec hfree hev hres
  | foreign b hdec hfree hev hres =>
    rw [hst.host, hunit] at hev
    exact .foreign b hdec hfree hev hres

/-- A connection is begun for the unit id of the slot, or fails at once. -/
theorem slotConnect_spec (connects : Bool) (now : ℚ) (s : ProbeSlot)
    (h : s.itry < s.unitTry.length) :
    SameHost s (slotConnect connects now s).1 ∧ (slotConnect connects now s).1.itry = s.itry ∧
      (slotConnect connects now s).2 = ([.connect s.host (slotUnit s) connects], connects) ∧
      (slotConnect connects now s).1.state = if connects then .connecting else .free := by
  have hmore : ¬(slotClose s).unitTry.length ≤ (slotClose s).itry := not_le.mpr h
  unfold slotConnect
  dsimp only
  rw [if_neg hmore]
  cases connects with
  | true => exact ⟨⟨rfl, rfl, rfl, rfl⟩, rfl, rfl, rfl⟩
  | false => exact ⟨⟨rfl, rfl, rfl, rfl⟩, rfl, rfl, rfl⟩

/-- After an exchange that failed the next unit id is asked, if there is one. -/
theorem nextUnit_case (e : SlotEnv) (s : ProbeSlot) : PumpCase s (nextUnit e s) := by
  unfold nextUnit
  dsimp only
  by_cases hlast : s.unitTry.length ≤ s.itry + 1
  · rw [if_pos hlast]
    exact .spent hlast rfl rfl rfl
  · rw [if_neg hlast]
    have hspec := slotConnect_spec e.connects e.connectNow { s with itry := s.itry + 1 }
      (not_le.mp hlast)
    generalize slotConnect e.connects e.connectNow { s with itry := s.itry + 1 } = r at hspec ⊢
    obtain ⟨t, events, begun⟩ := r
    obtain ⟨hsame, hitry, hlog, hstate⟩ := hspec
    obtain ⟨hevents, hbegun⟩ := Prod.ext_iff.mp hlog
    dsimp only at hevents hbegun hitry hstate hsame
    subst hevents hbegun
    cases hconnects : e.connects with
    | true =>
      rw [hconnects] at hstate
      exact .next ⟨hsame.host, hsame.ip, hsame.port, hsame.units⟩ (not_le.mp hlast) hitry hstate
        rfl rfl
    | false =>
      exact .refused (not_le.mp hlast) rfl rfl rfl

/-- The receive loop. -/
theorem slotRecv_case (e : SlotEnv) (recvs : List RecvResult) (hstate : s.state = .recv)
    (hwait : decodeRx s.rx = .needMore) : PumpCase s (slotRecv e recvs s) := by
  have hbusy : s.state ≠ .free := by
    rw [hstate]
    decide
  induction recvs generalizing s with
  | nil =>
    unfold slotRecv
    rw [if_neg (not_le.mpr (room_of_needMore hwait))]
    exact .waits (.refl s) rfl hbusy (fun _ => hwait) rfl rfl
  | cons r rest ih =>
    unfold slotRecv
    rw [if_neg (not_le.mpr (room_of_needMore hwait))]
    cases r with
    | wouldBlock => exact .waits (.refl s) rfl hbusy (fun _ => hwait) rfl rfl
    | failed text => exact nextUnit_case e s
    | closed => exact nextUnit_case e s
    | chunk b =>
      dsimp only
      generalize hrx : s.rx ++ b.take (rxCap - s.rx.length) = rx
      have hsame : SameHost s { s with rx := rx } := ⟨rfl, rfl, rfl, rfl⟩
      cases hdec : decodeRx rx with
      | needMore => exact (@ih { s with rx := rx } hstate hdec hbusy).of_same hsame rfl
      | ok d => exact .classic d rx ⟨rfl, rfl, rfl, rfl⟩ rfl hdec rfl rfl rfl
      | foreign => exact .foreign rx hdec rfl rfl rfl
      | bad => exact (nextUnit_case e { s with rx := rx }).of_same hsame rfl
      | exception => exact (nextUnit_case e { s with rx := rx }).of_same hsame rfl

/-- When the request is out the slot receives. -/
theorem slotRecv_sent (e : SlotEnv) (s : ProbeSlot) : PumpCase s
    (slotRecv e e.recvs { s with state := .recv, rx := [], deadline := e.now + ioTimeoutS }) := by
  have h := @slotRecv_case { s with state := .recv, rx := [], deadline := e.now + ioTimeoutS } e
    e.recvs rfl (show decodeRx [] = .needMore from if_pos (by decide))
  exact h.of_same ⟨rfl, rfl, rfl, rfl⟩ rfl

/-- The send loop. -/
theorem slotSend_case (e : SlotEnv) (sends : List SendResult) (hstate : s.state = .send) :
    PumpCase s (slotSend e sends s) := by
  have hbusy : s.state ≠ .free ∧ s.state ≠ .recv := by
    rw [hstate]
    decide
  induction sends generalizing s with
  | nil =>
    unfold slotSend
    split_ifs with hsent
    · exact slotRecv_sent e s
    · exact .waits (.refl s) rfl hbusy.1 (fun h => absurd h hbusy.2) rfl rfl
  | cons r rest ih =>
    unfold slotSend
    split_ifs with hsent
    · exact slotRecv_sent e s
    · cases r with
      | wouldBlock => exact .waits (.refl s) rfl hbusy.1 (fun h => absurd h hbusy.2) rfl rfl
      | failed text => exact nextUnit_case e s
      | sent n =>
        cases n with
        | zero => exact nextUnit_case e s
        | succ n =>
          have h := @ih { s with txOff := s.txOff + (n + 1) } hstate hbusy
          exact h.of_same ⟨rfl, rfl, rfl, rfl⟩ rfl

/-- A slot in use. -/
theorem slotPump_case (e : SlotEnv) (hbusy : s.state ≠ .free)
    (hwait : s.state = .recv → decodeRx s.rx = .needMore) : PumpCase s (slotPump e s) := by
  unfold slotPump
  rw [if_neg hbusy]
  split_ifs with hlate
  · exact nextUnit_case e s
  · cases hstate : s.state with
    | free => exact absurd hstate hbusy
    | connecting =>
      dsimp only
      cases e.ready with
      | notYet =>
        exact .waits (.refl s) rfl hbusy (fun h => absurd (hstate.symm.trans h) (by decide)) rfl rfl
      | failed text => exact nextUnit_case e s
      | ready =>
        have h := @slotSend_case { s with
          state := .send, deadline := e.now + ioTimeoutS, txOff := 0 } e e.sends rfl
        exact h.of_same ⟨rfl, rfl, rfl, rfl⟩ rfl
    | send => exact slotSend_case e e.sends hstate
    | recv => exact slotRecv_case e e.recvs hstate (hwait hstate)

/-! ## The pool of slots -/

namespace ProbeJob

/-- The address of a host. -/
def addr (j : ProbeJob) : Host → CBuf 64 × ℤ
  | .lastKnown => (j.lastIp, j.lastPort)
  | .cand k => j.cands.getD k (CBuf.zero 64, 0)

/-- The unit ids of every host. -/
def units (j : ProbeJob) : List ℤ := fillUnits j.unitCfg

/-- A host is in flight. -/
def Busy (j : ProbeJob) (h : Host) : Prop :=
  ∃ i, (j.slots i).state ≠ .free ∧ (j.slots i).host = h

/-- A host was asked under the first unit ids of the list, in their order: under all of them,
or until a connection failed at once or the host answered. -/
def Finished (j : ProbeJob) (h : Host) : Prop :=
  ∃ n, 0 < n ∧ (connectsOf j.log h).map Prod.fst = j.units.take n ∧
    (j.units.length ≤ n ∨ (∃ u, (u, false) ∈ connectsOf j.log h) ∨ repliesOf j.log h ≠ [])

/-- The hosts that are to be taken on so far. -/
def due (j : ProbeJob) : List Host :=
  (if j.lastIp.str.nonempty then [.lastKnown] else []) ++ (List.range j.nextCand).map .cand

/-- A slot in use asks its host under the first unit ids of the list. -/
structure SlotOk (j : ProbeJob) (s : ProbeSlot) : Prop where
  units : s.unitTry = j.units
  index : s.itry < s.unitTry.length
  addr : (s.ip, s.port) = j.addr s.host
  started : s.host ∈ startsOf j.log
  asked : connectsOf j.log s.host = (j.units.take (s.itry + 1)).map fun u => (u, true)
  silent : repliesOf j.log s.host = []
  waits : s.state = .recv → decodeRx s.rx = .needMore

/-- The slots share out the hosts that were taken on. -/
structure Shares (j : ProbeJob) : Prop where
  slots : ∀ i, (j.slots i).state ≠ .free → SlotOk j (j.slots i)
  /-- No two slots are for one host. -/
  apart : ∀ i i', (j.slots i).state ≠ .free → (j.slots i').state ≠ .free →
    (j.slots i).host = (j.slots i').host → i = i'
  fresh : ∀ h, h ∉ startsOf j.log → connectsOf j.log h = [] ∧ repliesOf j.log h = []
  covered : ∀ h ∈ startsOf j.log, Busy j h ∨ Finished j h

/-- The hosts taken on are the ones that are due. -/
structure Pool (j : ProbeJob) : Prop extends Shares j where
  order : startsOf j.log = j.due
  bound : j.nextCand ≤ j.cands.length

/-- Events of one host. -/
structure About (h : Host) (events : List ProbeEvent) : Prop where
  starts : ∀ h' ∈ startsOf events, h' = h
  other : ∀ h', h' ≠ h → connectsOf events h' = [] ∧ repliesOf events h' = []

variable {j : ProbeJob} {i : Fin probeInflight} {s : ProbeSlot} {events : List ProbeEvent}

@[simp] theorem store_log : (j.store i s events).log = j.log ++ events := rfl

@[simp] theorem store_slot : (j.store i s events).slots i = s := Function.update_self ..

theorem store_other {k : Fin probeInflight} (h : k ≠ i) :
    (j.store i s events).slots k = j.slots k := Function.update_of_ne h ..

@[simp] theorem store_units : (j.store i s events).units = j.units := rfl

theorem store_starts (h : startsOf events = []) :
    startsOf (j.store i s events).log = startsOf j.log := by
  rw [store_log, startsOf_append, h, List.append_nil]

/-- Events of one host leave the log of another as it was. -/
theorem About.same {h h' : Host} (ha : About h events) (hne : h' ≠ h) :
    connectsOf (j.store i s events).log h' = connectsOf j.log h' ∧
      repliesOf (j.store i s events).log h' = repliesOf j.log h' := by
  obtain ⟨hc, hr⟩ := ha.other h' hne
  rw [store_log, connectsOf_append, repliesOf_append, hc, hr, List.append_nil, List.append_nil]
  exact ⟨rfl, rfl⟩

theorem Finished.store {h h' : Host} (ha : About h events) (hne : h' ≠ h) (hf : Finished j h') :
    Finished (j.store i s events) h' := by
  obtain ⟨hc, hr⟩ := @About.same j i s events h h' ha hne
  unfold Finished
  rw [hc, hr]
  exact hf

/-- A slot is replaced by one for a host that no other slot is for, or by a free one when
the host is finished. -/
theorem Shares.put {h : Host} (hs : Shares j) (ha : About h events)
    (hother : ∀ k, k ≠ i → (j.slots k).state ≠ .free → (j.slots k).host ≠ h)
    (hown : (j.slots i).state ≠ .free → (j.slots i).host = h)
    (hin : h ∈ startsOf (j.store i s events).log)
    (hslot : s.state ≠ .free → s.host = h ∧ SlotOk (j.store i s events) s)
    (hfree : s.state = .free → Finished (j.store i s events) h) :
    Shares (j.store i s events) := by
  constructor
  · intro k hk
    by_cases hki : k = i
    · subst hki
      rw [store_slot] at hk ⊢
      exact (hslot hk).2
    · rw [store_other hki] at hk ⊢
      obtain ⟨hunits, hindex, haddr, hstart, hasked, hsilent, hwaits⟩ := hs.slots k hk
      obtain ⟨hc, hr⟩ := @About.same j i s events h _ ha (hother k hki hk)
      refine ⟨hunits, hindex, haddr, ?_, hc.trans hasked, hr.trans hsilent, hwaits⟩
      rw [store_log, startsOf_append]
      exact List.mem_append_left _ hstart
  · intro k k' hk hk' heq
    by_cases hki : k = i
    · by_cases hki' : k' = i
      · rw [hki, hki']
      · subst hki
        rw [store_slot] at hk heq
        rw [store_other hki'] at hk' heq
        exact absurd (heq.symm.trans (hslot hk).1) (hother k' hki' hk')
    · by_cases hki' : k' = i
      · subst hki'
        rw [store_slot] at hk' heq
        rw [store_other hki] at hk heq
        exact absurd (heq.trans (hslot hk').1) (hother k hki hk)
      · rw [store_other hki] at hk heq
        rw [store_other hki'] at hk' heq
        exact hs.apart k k' hk hk' heq
  · intro h' hh'
    have hne : h' ≠ h := fun heq => hh' (heq ▸ hin)
    obtain ⟨hc, hr⟩ := @About.same j i s events h h' ha hne
    rw [hc, hr]
    refine hs.fresh h' fun hmem => hh' ?_
    rw [store_log, startsOf_append]
    exact List.mem_append_left _ hmem
  · intro h' hh'
    by_cases heq : h' = h
    · subst heq
      by_cases hs : s.state = .free
      · exact Or.inr (hfree hs)
      · exact Or.inl ⟨i, by rw [store_slot]; exact hs, by rw [store_slot]; exact (hslot hs).1⟩
    · have hold : h' ∈ startsOf j.log := by
        rw [store_log, startsOf_append, List.mem_append] at hh'
        exact hh'.resolve_right fun hnew => heq (ha.starts h' hnew)
      rcases hs.covered h' hold with ⟨k, hk, hkh⟩ | hf
      · have hki : k ≠ i := by
          rintro rfl
          exact heq (hkh.symm.trans (hown hk))
        exact Or.inl ⟨k, by rw [store_other hki]; exact hk, by rw [store_other hki]; exact hkh⟩
      · exact Or.inr (hf.store ha heq)

/-- A slot in use is replaced by one for the same host, or by a free one when the host is
finished. -/
theorem Shares.replace {h : Host} (hs : Shares j) (hbusy : (j.slots i).state ≠ .free)
    (hhost : (j.slots i).host = h) (ha : About h events)
    (hslot : s.state ≠ .free → s.host = h ∧ SlotOk (j.store i s events) s)
    (hfree : s.state = .free → Finished (j.store i s events) h) :
    Shares (j.store i s events) := by
  refine hs.put ha (fun k hk hkbusy heq => ?_) (fun _ => hhost) ?_ hslot hfree
  · exact hk (hs.apart k i hkbusy hbusy (heq.trans hhost.symm))
  · rw [store_log, startsOf_append]
    exact List.mem_append_left _ (hhost ▸ (hs.slots i hbusy).started)

theorem about_nil (h : Host) : About h [] :=
  ⟨fun _ hn => absurd hn List.not_mem_nil, fun _ _ => ⟨rfl, rfl⟩⟩

theorem about_connect (h : Host) (unit : ℤ) (begun : Bool) : About h [.connect h unit begun] :=
  ⟨fun _ hn => absurd hn List.not_mem_nil, fun _ hne => ⟨by simp [connectsOf, hne.symm], rfl⟩⟩

theorem about_reply (h : Host) (unit : ℤ) (b : Bytes) : About h [.reply h unit b] :=
  ⟨fun _ hn => absurd hn List.not_mem_nil, fun _ hne => ⟨rfl, by simp [repliesOf, hne.symm]⟩⟩

/-- What is asked of a host with one more connection. -/
theorem connects_connect (h : Host) (unit : ℤ) (begun : Bool) :
    connectsOf (j.store i s [.connect h unit begun]).log h =
      connectsOf j.log h ++ [(unit, begun)] := by
  rw [store_log, connectsOf_append]
  simp [connectsOf]

/-- The unit ids up to the next one. -/
theorem take_next {us : List ℤ} {n : ℕ} (h : n + 1 < us.length) :
    us.take (n + 1) ++ [us.getD (n + 1) 10] = us.take (n + 1 + 1) := by
  rw [List.getD_eq_getElem _ _ h]
  exact (List.take_succ_eq_append_getElem h).symm

/-- A host that answers is finished. -/
theorem finished_reply {h : Host} {n : ℕ} {unit : ℤ} {b : Bytes}
    (hasked : (connectsOf j.log h).map Prod.fst = j.units.take (n + 1)) :
    Finished (j.store i s [.reply h unit b]) h := by
  refine ⟨n + 1, by omega, ?_, Or.inr (Or.inr ?_)⟩
  · rw [store_log, connectsOf_append]
    simpa [connectsOf] using hasked
  · rw [store_log, repliesOf_append]
    simp [repliesOf]

/-- Pumping a slot in use keeps the pool. -/
theorem Shares.pump {r : Pumped} (hpool : Shares j) (hbusy : (j.slots i).state ≠ .free)
    (hcase : PumpCase (j.slots i) r) : Shares (j.store i r.slot r.events) := by
  obtain ⟨hunits, hindex, haddr, hstart, hasked, hsilent, -⟩ := hpool.slots i hbusy
  have hfst : (connectsOf j.log (j.slots i).host).map Prod.fst =
      j.units.take ((j.slots i).itry + 1) := by
    rw [hasked, List.map_map]
    exact List.map_id _
  cases hcase with
  | waits hsame hitry hb hwait hev hres =>
    rw [hev]
    refine hpool.replace hbusy rfl (about_nil _) (fun _ => ⟨hsame.host, ?_⟩) fun h => absurd h hb
    refine ⟨hsame.units.trans hunits, ?_, ?_, ?_, ?_, ?_, hwait⟩
    · rw [hitry, hsame.units]
      exact hindex
    · rw [hsame.ip, hsame.port, hsame.host]
      exact haddr
    · rw [hsame.host, store_starts rfl]
      exact hstart
    · rw [hsame.host, hitry, store_log, List.append_nil]
      exact hasked
    · rw [hsame.host, store_log, List.append_nil]
      exact hsilent
  | next hsame hmore hitry hb hev hres =>
    rw [hev]
    refine hpool.replace hbusy rfl (about_connect _ _ _) (fun _ => ⟨hsame.host, ?_⟩) fun h => ?_
    · refine ⟨hsame.units.trans hunits, ?_, ?_, ?_, ?_, ?_, fun h => ?_⟩
      · rw [hitry, hsame.units]
        exact hmore
      · rw [hsame.ip, hsame.port, hsame.host]
        exact haddr
      · rw [hsame.host, store_starts rfl]
        exact hstart
      · rw [hunits] at hmore
        rw [hsame.host, hitry, connects_connect, hasked, hunits, store_units, ← take_next hmore,
          List.map_append]
        rfl
      · rw [hsame.host, store_log, repliesOf_append, hsilent]
        rfl
      · exact absurd (hb.symm.trans h) (by decide)
    · exact absurd (hb.symm.trans h) (by decide)
  | refused hmore hfree hev hres =>
    rw [hev]
    refine hpool.replace hbusy rfl (about_connect _ _ _) (fun h => absurd hfree h) fun _ => ?_
    refine ⟨(j.slots i).itry + 1 + 1, by omega, ?_,
      Or.inr (Or.inl ⟨(j.slots i).unitTry.getD ((j.slots i).itry + 1) 10, ?_⟩)⟩
    · rw [hunits] at hmore
      rw [connects_connect, List.map_append, hfst, hunits]
      exact take_next hmore
    · exact (connects_connect _ _ _).symm ▸ List.mem_append_right _ (List.mem_singleton_self _)
  | spent hlast hfree hev hres =>
    rw [hev]
    refine hpool.replace hbusy rfl (about_nil _) (fun h => absurd hfree h) fun _ => ?_
    refine ⟨(j.slots i).itry + 1, by omega, ?_, Or.inl ?_⟩
    · rw [store_log, List.append_nil]
      exact hfst
    · rw [hunits] at hlast
      exact hlast
  | classic d b hsame hitry hdec hfree hev hres =>
    rw [hev]
    refine hpool.replace hbusy rfl (about_reply _ _ _) (fun h => absurd hfree h) fun _ => ?_
    exact finished_reply hfst
  | foreign b hdec hfree hev hres =>
    rw [hev]
    refine hpool.replace hbusy rfl (about_reply _ _ _) (fun h => absurd hfree h) fun _ => ?_
    exact finished_reply hfst

/-- Pumping takes no host on. -/
theorem starts_pump {r : Pumped} {h : ProbeSlot} (hcase : PumpCase h r) :
    startsOf r.events = [] := by
  cases hcase with
  | waits _ _ _ _ hev | next _ _ _ _ hev | refused _ _ hev | spent _ _ hev
  | classic _ _ _ _ _ _ hev | foreign _ _ _ hev =>
    rw [hev]
    rfl

theorem Pool.pump {r : Pumped} (hpool : Pool j) (hbusy : (j.slots i).state ≠ .free)
    (hcase : PumpCase (j.slots i) r) : Pool (j.store i r.slot r.events) :=
  ⟨hpool.toShares.pump hbusy hcase, (store_starts (starts_pump hcase)).trans hpool.order,
    hpool.bound⟩

/-- What the pool is about. -/
structure SamePool (j j' : ProbeJob) : Prop where
  log : j'.log = j.log
  slots : j'.slots = j.slots
  cfg : j'.unitCfg = j.unitCfg
  addr : j'.addr = j.addr

theorem Shares.of_same {j' : ProbeJob} (hs : Shares j) (h : SamePool j j') : Shares j' := by
  have hunits : j'.units = j.units := by
    unfold units
    rw [h.cfg]
  have hbusy : ∀ h', Busy j' h' ↔ Busy j h' := by
    intro h'
    unfold Busy
    rw [h.slots]
  have hfinished : ∀ h', Finished j' h' ↔ Finished j h' := by
    intro h'
    unfold Finished
    rw [h.log, hunits]
  constructor
  · rw [h.slots]
    intro k hk
    obtain ⟨hu, hindex, haddr, hstart, hasked, hsilent, hwaits⟩ := hs.slots k hk
    exact ⟨hu.trans hunits.symm, hindex, by rw [h.addr]; exact haddr, by rw [h.log]; exact hstart,
      by rw [h.log, hunits]; exact hasked, by rw [h.log]; exact hsilent, hwaits⟩
  · rw [h.slots]
    exact hs.apart
  · rw [h.log]
    exact hs.fresh
  · rw [h.log]
    intro h' hh'
    rw [hbusy, hfinished]
    exact hs.covered h' hh'

/-- A free slot takes a new host on. -/
theorem Shares.start {h : Host} (hs : Shares j) (hslot : (j.slots i).state = .free)
    (hnew : h ∉ startsOf j.log) (begun : Bool × ℚ) :
    Shares (j.startSlot i h (j.addr h) begun) ∧
      startsOf (j.startSlot i h (j.addr h) begun).log = startsOf j.log ++ [h] := by
  have hunits : 0 < j.units.length := by
    have hlen := two_le_length j.unitCfg
    unfold units fillUnits
    omega
  obtain ⟨hc, hr⟩ := hs.fresh h hnew
  unfold startSlot
  dsimp only
  have hspec := slotConnect_spec begun.1 begun.2
    { ProbeSlot.zero with
      host := h, ip := (j.addr h).1, port := (j.addr h).2, unitTry := fillUnits j.unitCfg } hunits
  generalize slotConnect begun.1 begun.2 { ProbeSlot.zero with
    host := h, ip := (j.addr h).1, port := (j.addr h).2,
    unitTry := fillUnits j.unitCfg } = r at hspec ⊢
  obtain ⟨t, events, up⟩ := r
  obtain ⟨hsame, hitry, hlog, hstate⟩ := hspec
  obtain ⟨hevents, hup⟩ := Prod.ext_iff.mp hlog
  dsimp only at hevents hup hitry hstate ⊢
  subst hevents hup
  have hunit : j.units.take 1 = [j.units.getD 0 10] := by
    rw [List.getD_eq_getElem _ _ hunits]
    exact List.take_succ_eq_append_getElem hunits
  have hnew' : ∀ begun, connectsOf (j.log ++ [.start h, .connect h (j.units.getD 0 10) begun]) h =
      [(j.units.getD 0 10, begun)] := by
    intro begun
    rw [connectsOf_append, hc]
    simp [connectsOf]
  have habout : ∀ begun, About h [.start h, .connect h (j.units.getD 0 10) begun] := by
    intro begun
    exact ⟨fun h' hh' => by simpa [startsOf] using hh', fun h' hne =>
      ⟨by simp [connectsOf, hne.symm], rfl⟩⟩
  have hother : ∀ k, k ≠ i → (j.slots k).state ≠ .free → (j.slots k).host ≠ h :=
    fun k _ hk heq => hnew (heq ▸ (hs.slots k hk).started)
  have hlogged : ∀ begun, startsOf (j.log ++ [.start h, .connect h (j.units.getD 0 10) begun]) =
      startsOf j.log ++ [h] := fun _ => startsOf_append ..
  have hin : h ∈ startsOf j.log ++ [h] := List.mem_append_right _ (List.mem_singleton_self h)
  refine ⟨hs.put (habout _) hother (fun hb => absurd hslot hb) ?_ ?_ ?_, hlogged _⟩
  · exact (hlogged _).symm ▸ hin
  · intro hbusy
    cases hup : begun.1 with
    | false =>
      rw [hup] at hbusy
      exact absurd rfl hbusy
    | true =>
      rw [if_pos rfl]
      refine ⟨hsame.host, hsame.units, ?_, ?_, ?_, ?_, ?_, fun hrecv => ?_⟩
      · rw [hitry, hsame.units]
        exact hunits
      · rw [hsame.ip, hsame.port, hsame.host]
        rfl
      · rw [hsame.host]
        exact (hlogged _).symm ▸ hin
      · rw [hsame.host, hitry]
        exact (hnew' true).trans (congrArg (List.map fun u => (u, true)) hunit).symm
      · rw [hsame.host, store_log, repliesOf_append, hr]
        rfl
      · rw [hup] at hstate
        exact absurd (hstate.symm.trans hrecv) (by decide)
  · intro hfree
    cases hup : begun.1 with
    | true =>
      rw [hup, if_pos rfl] at hfree
      rw [hup] at hstate
      exact absurd (hstate.symm.trans hfree) (by decide)
    | false =>
      have hasked := hnew' false
      refine ⟨1, Nat.one_pos, ?_, Or.inr (Or.inl ⟨j.units.getD 0 10, ?_⟩)⟩
      · exact (congrArg (List.map Prod.fst) hasked).trans hunit.symm
      · exact hasked.symm ▸ List.mem_singleton_self _

/-! ## Filling and pumping -/

/-- No Classic with the wanted address has answered. -/
def Mute (j : ProbeJob) : Prop :=
  ∀ h unit b d, .reply h unit b ∈ j.log → decodeRx b = .ok d → j.macOk d = false

/-- A job before its end. -/
structure Running (j : ProbeJob) : Prop extends Pool j where
  mute : Mute j
  noHits : j.hits = []

/-- What the job was started with, and its phase. -/
structure Kept (j j' : ProbeJob) : Prop where
  autoNet : j'.autoNet = j.autoNet
  cands : j'.cands = j.cands
  phase : j'.phase = j.phase
  t0 : j'.t0 = j.t0

theorem Kept.refl (j : ProbeJob) : Kept j j := ⟨rfl, rfl, rfl, rfl⟩

theorem Kept.after {j' j'' : ProbeJob} (h' : Kept j' j'') (h : Kept j j') : Kept j j'' :=
  ⟨h'.autoNet.trans h.autoNet, h'.cands.trans h.cands, h'.phase.trans h.phase, h'.t0.trans h.t0⟩

theorem startSlot_other {k : Fin probeInflight} {h : Host} {addr : CBuf 64 × ℤ}
    {begun : Bool × ℚ} (hk : k ≠ i) : (j.startSlot i h addr begun).slots k = j.slots k :=
  Function.update_of_ne hk ..

/-- A host that is taken on has not answered yet. -/
theorem startSlot_reply {h h' : Host} {addr : CBuf 64 × ℤ} {begun : Bool × ℚ} {unit : ℤ}
    {b : Bytes} (hmem : .reply h' unit b ∈ (j.startSlot i h addr begun).log) :
    .reply h' unit b ∈ j.log := by
  unfold startSlot slotConnect at hmem
  dsimp only [store_log] at hmem
  rw [List.mem_append] at hmem
  refine hmem.resolve_right fun hnew => ?_
  split_ifs at hnew
  all_goals simp at hnew

/-- A free slot takes the next candidate on. -/
theorem Running.startNext (hrun : Running j) (hslot : (j.slots i).state = .free)
    (hmore : j.nextCand < j.cands.length) (begun : Bool × ℚ) :
    Running ({ j with nextCand := j.nextCand + 1 }.startSlot i (.cand j.nextCand)
      (j.cands.getD j.nextCand (CBuf.zero 64, 0)) begun) := by
  have hshares : Shares { j with nextCand := j.nextCand + 1 } :=
    hrun.toShares.of_same ⟨rfl, rfl, rfl, rfl⟩
  have hnew : Host.cand j.nextCand ∉ startsOf j.log := by
    rw [hrun.order, due]
    simp
  obtain ⟨hs, hstarts⟩ := hshares.start hslot hnew begun
  refine ⟨⟨hs, ?_, hmore⟩, ?_, hrun.noHits⟩
  · refine hstarts.trans ?_
    change startsOf j.log ++ _ = _
    rw [hrun.order, due, due, List.append_assoc]
    change _ = _ ++ (List.range (j.nextCand + 1)).map Host.cand
    rw [List.range_succ, List.map_append]
    rfl
  · exact fun h unit b d hmem => hrun.mute h unit b d (startSlot_reply (i := i) hmem)

/-- Filling the slots keeps the job running. -/
theorem Running.fillRounds (e : ProbeEnv) (n : ℕ) (hrun : Running j) :
    Running (fillRounds e n j) ∧ Kept j (ProbeJob.fillRounds e n j) := by
  induction n generalizing j with
  | zero => exact ⟨hrun, .refl j⟩
  | succ n ih =>
    unfold ProbeJob.fillRounds
    split_ifs with hroom
    · cases hfree : j.firstFree with
      | none => exact ⟨hrun, .refl j⟩
      | some i =>
        have hslot : (j.slots i).state = .free := by simpa using List.find?_some hfree
        obtain ⟨hr, hk⟩ := ih (hrun.startNext hslot hroom.1 (e.cand j.nextCand))
        exact ⟨hr, hk.after ⟨rfl, rfl, rfl, rfl⟩⟩
    · exact ⟨hrun, .refl j⟩

theorem Running.fillScanSlots (e : ProbeEnv) (hrun : Running j) :
    Running (fillScanSlots e j) ∧ Kept j (ProbeJob.fillScanSlots e j) :=
  hrun.fillRounds e (j.cands.length - j.nextCand)

/-- A hit is a host that answered as a Classic with the wanted address, under the unit id
that it was asked for last. -/
def HitOk (j : ProbeJob) (hit : ProbeHit) : Prop :=
  ∃ h unit b, .reply h unit b ∈ j.log ∧ ReplyFrame b ∧
    (connectsOf j.log h).getLast? = some (unit, true) ∧
    j.macOk (classicDecode (frameRegisters b)).1 = true ∧
    hit = ⟨(j.addr h).1, (j.addr h).2, unit, macFmt (classicDecode (frameRegisters b)).1.unitMac,
      (classicDecode (frameRegisters b)).1.deviceId⟩

/-- A job that has found its charger. -/
structure FoundOne (j : ProbeJob) : Prop extends Pool j where
  hit : ∃ hit, j.hits = [hit] ∧ HitOk j hit

/-- A wanted Classic that answers is the hit. -/
theorem Running.found {r : Pumped} {d : ClassicData} {b : Bytes} (hrun : Running j)
    (hbusy : (j.slots i).state ≠ .free) (hsame : SameHost (j.slots i) r.slot)
    (hitry : r.slot.itry = (j.slots i).itry) (hdec : decodeRx b = .ok d)
    (hev : r.events = [.reply (j.slots i).host (slotUnit (j.slots i)) b])
    (hmac : j.macOk d = true) (hpool : Pool (j.store i r.slot r.events)) :
    FoundOne ((j.store i r.slot r.events).addHit r.slot d) := by
  obtain ⟨hunits, hindex, haddr, -, hasked, -, -⟩ := hrun.slots i hbusy
  obtain ⟨hframe, rfl⟩ := decodeRx_ok hdec
  have hunit : slotUnit r.slot = slotUnit (j.slots i) := by
    unfold slotUnit
    rw [hsame.units, hitry]
  have hadd : (j.store i r.slot r.events).addHit r.slot (classicDecode (frameRegisters b)).1 =
      { j.store i r.slot r.events with
        hits := [⟨r.slot.ip, r.slot.port, slotUnit r.slot,
          macFmt (classicDecode (frameRegisters b)).1.unitMac,
          (classicDecode (frameRegisters b)).1.deviceId⟩] } := by
    have hnone : (j.store i r.slot r.events).hits = [] := hrun.noHits
    unfold addHit
    rw [hnone]
    rfl
  have hlast : (connectsOf j.log (j.slots i).host).getLast? =
      some (slotUnit (j.slots i), true) := by
    rw [hunits] at hindex
    have hget : slotUnit (j.slots i) = j.units[(j.slots i).itry] := by
      unfold slotUnit
      rw [hunits, List.getD_eq_getElem _ _ hindex]
    rw [hasked, List.take_succ_eq_append_getElem hindex, List.map_append, ← hget]
    exact List.getLast?_concat ..
  rw [hadd]
  refine ⟨⟨hpool.toShares.of_same ⟨rfl, rfl, rfl, rfl⟩, hpool.order, hpool.bound⟩, _, rfl,
    (j.slots i).host, slotUnit (j.slots i), b, ?_, hframe, ?_, hmac, ?_⟩
  · dsimp only [store_log]
    rw [hev]
    exact List.mem_append_right _ (List.mem_singleton_self _)
  · dsimp only [store_log]
    rw [hev, connectsOf_append]
    simpa [connectsOf] using hlast
  · rw [hunit, hsame.ip, hsame.port]
    have haddr' : (j.slots i).ip = (j.addr (j.slots i).host).1 ∧
        (j.slots i).port = (j.addr (j.slots i).host).2 := Prod.ext_iff.mp haddr
    rw [haddr'.1, haddr'.2]
    rfl

/-- What pumping a slot in use does to a running job: it runs on, unless the host answers
as a Classic. -/
theorem Running.pump {r : Pumped} (hrun : Running j) (hbusy : (j.slots i).state ≠ .free)
    (hcase : PumpCase (j.slots i) r) :
    (r.result = .inFlight → r.slot.state ≠ .free ∧ Running (j.store i r.slot r.events)) ∧
      (r.result = .dead → r.slot.state = .free ∧ Running (j.store i r.slot r.events)) ∧
      ∀ d, r.result = .decoded d → r.slot.state = .free ∧
        (j.macOk d = false → Running (j.store i r.slot r.events)) ∧
        (j.macOk d = true → FoundOne ((j.store i r.slot r.events).addHit r.slot d)) := by
  have hpool := hrun.toPool.pump hbusy hcase
  have hquiet : (∀ h unit b d, .reply h unit b ∈ r.events → decodeRx b = .ok d →
      j.macOk d = false) → Running (j.store i r.slot r.events) := by
    intro hevents
    refine ⟨hpool, fun h unit b d hmem hdec => ?_, hrun.noHits⟩
    rw [store_log, List.mem_append] at hmem
    exact hmem.elim (fun hold => hrun.mute h unit b d hold hdec)
      fun hnew => hevents h unit b d hnew hdec
  have hnone : ∀ {events}, r.events = events → (∀ h unit b, .reply h unit b ∉ events) →
      Running (j.store i r.slot r.events) :=
    fun hev hno => hquiet fun h unit b _ hmem => absurd (hev ▸ hmem) (hno h unit b)
  cases hcase with
  | waits hsame hitry hb hwait hev hres =>
    have hrunning := hnone hev fun _ _ _ => List.not_mem_nil
    rw [hres]
    exact ⟨fun _ => ⟨hb, hrunning⟩, fun h => absurd h (by simp), fun d h => absurd h (by simp)⟩
  | next hsame hmore hitry hb hev hres =>
    have hrunning := hnone hev fun _ _ _ => by simp
    have hused : r.slot.state ≠ .free := by
      rw [hb]
      decide
    rw [hres]
    exact ⟨fun _ => ⟨hused, hrunning⟩, fun h => absurd h (by simp), fun d h => absurd h (by simp)⟩
  | refused hmore hfree hev hres =>
    have hrunning := hnone hev fun _ _ _ => by simp
    rw [hres]
    exact ⟨fun h => absurd h (by simp), fun _ => ⟨hfree, hrunning⟩, fun d h => absurd h (by simp)⟩
  | spent hlast hfree hev hres =>
    have hrunning := hnone hev fun _ _ _ => List.not_mem_nil
    rw [hres]
    exact ⟨fun h => absurd h (by simp), fun _ => ⟨hfree, hrunning⟩, fun d h => absurd h (by simp)⟩
  | foreign b hdec hfree hev hres =>
    have hrunning := hquiet fun h unit b' d hmem hdec' => by
      rw [hev, List.mem_singleton] at hmem
      cases hmem
      rw [hdec] at hdec'
      exact absurd hdec' (by simp)
    rw [hres]
    exact ⟨fun h => absurd h (by simp), fun _ => ⟨hfree, hrunning⟩, fun d h => absurd h (by simp)⟩
  | classic d b hsame hitry hdec hfree hev hres =>
    rw [hres]
    refine ⟨fun h => absurd h (by simp), fun h => absurd h (by simp), fun d' h => ?_⟩
    obtain rfl : d = d' := PumpResult.decoded.inj h
    refine ⟨hfree, fun hmac => hquiet fun h unit b' d' hmem hdec' => ?_, fun hmac => ?_⟩
    · rw [hev, List.mem_singleton] at hmem
      cases hmem
      rw [hdec] at hdec'
      exact Decoded.ok.inj hdec' ▸ hmac
    · exact hrun.found hbusy hsame hitry hdec hev hmac hpool

/-- The loop over the slots finds nothing and the job runs on, or it finds a charger. -/
theorem Running.pumpSlots (e : ProbeEnv) (is : List (Fin probeInflight)) (hrun : Running j) :
    Kept j (ProbeJob.pumpSlots e is j).1 ∧
      ((ProbeJob.pumpSlots e is j).2 = false → Running (ProbeJob.pumpSlots e is j).1) ∧
      ((ProbeJob.pumpSlots e is j).2 = true → FoundOne (ProbeJob.pumpSlots e is j).1) := by
  induction is generalizing j with
  | nil => exact ⟨.refl j, fun _ => hrun, fun h => absurd h Bool.false_ne_true⟩
  | cons i is ih =>
    unfold ProbeJob.pumpSlots
    by_cases hfree : (j.slots i).state = .free
    · rw [if_pos hfree]
      exact ih hrun
    · rw [if_neg hfree]
      obtain ⟨hgoes, hdead, hclassic⟩ := hrun.pump hfree
        (slotPump_case (e.slot i) hfree (hrun.slots i hfree).waits)
      dsimp only
      cases hresult : (slotPump (e.slot i) (j.slots i)).result with
      | inFlight =>
        obtain ⟨hk, hr, hf⟩ := ih (hgoes hresult).2
        exact ⟨hk.after ⟨rfl, rfl, rfl, rfl⟩, hr, hf⟩
      | dead =>
        obtain ⟨hk, hr, hf⟩ := ih (hdead hresult).2
        exact ⟨hk.after ⟨rfl, rfl, rfl, rfl⟩, hr, hf⟩
      | decoded d =>
        obtain ⟨-, hother, hwanted⟩ := hclassic d hresult
        dsimp only
        unfold considerHit
        by_cases hmac : j.macOk d = true
        · have hsame : (j.store i (slotPump (e.slot i) (j.slots i)).slot
              (slotPump (e.slot i) (j.slots i)).events).macOk d = true := hmac
          rw [if_pos hsame]
          have hkept : Kept j ((j.store i (slotPump (e.slot i) (j.slots i)).slot
              (slotPump (e.slot i) (j.slots i)).events).addHit
                (slotPump (e.slot i) (j.slots i)).slot d) := by
            unfold addHit
            split_ifs <;> exact ⟨rfl, rfl, rfl, rfl⟩
          exact ⟨hkept, fun h => absurd h.symm Bool.false_ne_true, fun _ => hwanted hmac⟩
        · have hsame : ¬(j.store i (slotPump (e.slot i) (j.slots i)).slot
              (slotPump (e.slot i) (j.slots i)).events).macOk d = true := hmac
          rw [if_neg hsame]
          obtain ⟨hk, hr, hf⟩ := ih (hother (Bool.eq_false_iff.mpr hmac))
          exact ⟨hk.after ⟨rfl, rfl, rfl, rfl⟩, hr, hf⟩

/-! ## The end of a job -/

/-- Nothing is left to ask: every candidate was taken on, if there is a scan, and every host
taken on is finished and not in flight. -/
def Exhausted (j : ProbeJob) : Prop :=
  (j.autoNet = true → j.nextCand = j.cands.length) ∧
    ∀ h ∈ startsOf j.log, ¬Busy j h ∧ Finished j h

/-- What holds of a job at any time. -/
structure ProbeOk (j : ProbeJob) : Prop where
  inflight : j.inflight ≤ probeInflight
  /-- The candidates are taken on in their order and each once. -/
  order : startsOf j.log = j.due ∧ j.nextCand ≤ j.cands.length
  /-- A host is asked under the first unit ids of the list, in their order. -/
  asked : ∀ h, ∃ n, (connectsOf j.log h).map Prod.fst = j.units.take n
  /-- Until the job ends a host taken on is in flight or finished. -/
  covered : j.phase ≠ .done → ∀ h ∈ startsOf j.log, Busy j h ∨ Finished j h
  /-- There is a hit, and then the job is done, when a wanted Classic has answered. -/
  hits : j.hits = [] ∧ Mute j ∨ j.phase = .done ∧ ∃ hit, j.hits = [hit] ∧ HitOk j hit

theorem inflight_le (j : ProbeJob) : j.inflight ≤ probeInflight := by
  unfold inflight
  exact (List.length_filter_le _ _).trans (List.length_finRange).le

theorem inflight_eq_zero : j.inflight = 0 ↔ ∀ i, (j.slots i).state = .free := by
  unfold inflight
  rw [List.length_eq_zero_iff, List.filter_eq_nil_iff]
  simp

theorem Pool.asked (hpool : Pool j) (h : Host) :
    ∃ n, (connectsOf j.log h).map Prod.fst = j.units.take n := by
  by_cases hstart : h ∈ startsOf j.log
  · rcases hpool.covered h hstart with ⟨i, hi, rfl⟩ | ⟨n, -, hn, -⟩
    · refine ⟨(j.slots i).itry + 1, ?_⟩
      rw [(hpool.slots i hi).asked, List.map_map]
      exact List.map_id _
    · exact ⟨n, hn⟩
  · exact ⟨0, by rw [(hpool.fresh h hstart).1]; rfl⟩

theorem Running.ok (hrun : Running j) : ProbeOk j :=
  ⟨inflight_le j, ⟨hrun.order, hrun.bound⟩, hrun.asked, fun _ => hrun.covered,
    Or.inl ⟨hrun.noHits, hrun.mute⟩⟩

/-- A job that ends with nothing found. -/
theorem Running.finish_ok (hrun : Running j) : ProbeOk j.finish :=
  ⟨inflight_le _, ⟨hrun.order, hrun.bound⟩, hrun.asked, fun h => absurd rfl h,
    Or.inl ⟨hrun.noHits, hrun.mute⟩⟩

/-- A job that ends with its hit. -/
theorem FoundOne.finish_ok (hfound : FoundOne j) : ProbeOk j.finish :=
  ⟨inflight_le _, ⟨hfound.order, hfound.bound⟩, hfound.asked, fun h => absurd rfl h,
    Or.inr ⟨rfl, hfound.hit⟩⟩

/-- No host is in flight when the job has ended. -/
theorem finish_idle (j : ProbeJob) (h : Host) : ¬Busy j.finish h := by
  rintro ⟨i, hi, -⟩
  exact hi rfl

/-- A running job with no slot in use and nothing to start is exhausted when it ends. -/
theorem Running.finish_exhausted (hrun : Running j) (hidle : ∀ i, (j.slots i).state = .free)
    (hall : j.autoNet = true → j.cands.length ≤ j.nextCand) : Exhausted j.finish := by
  refine ⟨fun hauto => le_antisymm hrun.bound (hall hauto), fun h hh => ⟨finish_idle j h, ?_⟩⟩
  rcases hrun.covered h hh with ⟨i, hi, -⟩ | hf
  · exact absurd (hidle i) hi
  · exact hf

/-- A job that runs on has a slot in use or a candidate to start. -/
theorem Running.not_exhausted (hrun : Running j)
    (h : (∃ i, (j.slots i).state ≠ .free) ∨ j.autoNet = true ∧ j.nextCand < j.cands.length) :
    ¬Exhausted j := by
  rintro ⟨hall, hover⟩
  rcases h with ⟨i, hi⟩ | ⟨hauto, hmore⟩
  · exact (hover _ (hrun.slots i hi).started).1 ⟨i, hi, rfl⟩
  · exact absurd (hall hauto) (by omega)

/-- The state between two steps. -/
structure ProbeInv (j : ProbeJob) : Prop where
  ok : ProbeOk j
  running : j.phase ≠ .done → Running j
  /-- Before the scan the first slot alone is in use. -/
  first : j.phase = .lastKnown → (j.slots 0).state ≠ .free ∧ ∀ k, k ≠ 0 → (j.slots k).state = .free
  scans : j.phase = .scan → j.autoNet = true

/-- What a step makes of a running job. -/
structure StepEnds (j' : ProbeJob) : Prop where
  inv : ProbeInv j'
  ends : j'.phase = .done ↔ j'.hits ≠ [] ∨ Exhausted j'

theorem StepEnds.of_found (hfound : FoundOne j) : StepEnds j.finish := by
  refine ⟨⟨hfound.finish_ok, fun h => absurd rfl h, fun h => ?_, fun h => ?_⟩,
    fun _ => Or.inl ?_, fun _ => rfl⟩
  · exact absurd h (by simp [finish])
  · exact absurd h (by simp [finish])
  · obtain ⟨hit, hhit, -⟩ := hfound.hit
    change j.hits ≠ []
    rw [hhit]
    exact List.cons_ne_nil _ _

theorem StepEnds.of_exhausted (hrun : Running j) (hidle : ∀ i, (j.slots i).state = .free)
    (hall : j.autoNet = true → j.cands.length ≤ j.nextCand) : StepEnds j.finish := by
  refine ⟨⟨hrun.finish_ok, fun h => absurd rfl h, fun h => ?_, fun h => ?_⟩,
    fun _ => Or.inr (hrun.finish_exhausted hidle hall), fun _ => rfl⟩
  · exact absurd h (by simp [finish])
  · exact absurd h (by simp [finish])

theorem StepEnds.of_running (hrun : Running j) (hphase : j.phase ≠ .done)
    (hfirst : j.phase = .lastKnown →
      (j.slots 0).state ≠ .free ∧ ∀ k, k ≠ 0 → (j.slots k).state = .free)
    (hscans : j.phase = .scan → j.autoNet = true)
    (h : (∃ i, (j.slots i).state ≠ .free) ∨ j.autoNet = true ∧ j.nextCand < j.cands.length) :
    StepEnds j :=
  ⟨⟨hrun.ok, fun _ => hrun, hfirst, hscans⟩, fun hd => absurd hd hphase,
    fun hd => (hd.elim (fun hne => absurd hrun.noHits hne)
      fun hex => absurd hex (hrun.not_exhausted h))⟩

/-- The scan in a step. -/
theorem Running.scanStep (e : ProbeEnv) (hrun : Running j) (hphase : j.phase = .scan)
    (hauto : j.autoNet = true) : StepEnds (ProbeJob.scanStep e j).1 := by
  obtain ⟨hfilled, hkept⟩ := hrun.fillScanSlots e
  obtain ⟨hkept', hquiet, hfound⟩ := hfilled.pumpSlots e (List.finRange probeInflight)
  unfold ProbeJob.scanStep
  generalize ProbeJob.pumpSlots e (List.finRange probeInflight)
    (ProbeJob.fillScanSlots e j) = r at hkept' hquiet hfound ⊢
  obtain ⟨j', found⟩ := r
  dsimp only at hkept' hquiet hfound
  cases found with
  | true => exact .of_found (hfound rfl)
  | false =>
    dsimp only
    obtain ⟨hfull, hkept''⟩ := (hquiet rfl).fillScanSlots e
    have hall := hkept''.after (hkept'.after hkept)
    split_ifs with hdone
    · exact .of_exhausted hfull (inflight_eq_zero.mp hdone.1) fun _ => hdone.2
    · have hscan := hall.phase.trans hphase
      refine .of_running hfull ?_ (fun h => ?_) (fun _ => hall.autoNet.trans hauto) ?_
      · rw [hscan]
        decide
      · exact absurd (hscan.symm.trans h) (by decide)
      · by_cases hidle : (ProbeJob.fillScanSlots e j').inflight = 0
        · have hmore := fun h => hdone ⟨hidle, h⟩
          exact Or.inr ⟨hall.autoNet.trans hauto, not_le.mp hmore⟩
        · refine Or.inl ?_
          by_contra hnone
          exact hidle (inflight_eq_zero.mpr fun i => not_not.mp fun hi => hnone ⟨i, hi⟩)

/-- The phase is not what a running job is about. -/
theorem Running.of_phase (hrun : Running j) (phase : Phase) : Running { j with phase := phase } :=
  ⟨⟨hrun.toShares.of_same ⟨rfl, rfl, rfl, rfl⟩, hrun.order, hrun.bound⟩, hrun.mute, hrun.noHits⟩

/-- The step for the last known address when that is given up. -/
theorem Running.afterLast (e : ProbeEnv) (hrun : Running j)
    (hidle : ∀ i, (j.slots i).state = .free) : StepEnds (ProbeJob.afterLast e j).1 := by
  unfold ProbeJob.afterLast
  by_cases hauto : j.autoNet = true
  · obtain ⟨hfilled, hkept⟩ := (hrun.of_phase .scan).fillScanSlots e
    rw [if_neg (by simp [hauto])]
    exact hfilled.scanStep e hkept.phase (hkept.autoNet.trans hauto)
  · rw [if_pos (by simp [hauto])]
    exact .of_exhausted hrun hidle fun h => absurd h hauto

/-- The step for the last known address. -/
theorem Running.lastStep (e : ProbeEnv) (hrun : Running j) (hphase : j.phase = .lastKnown)
    (hbusy : (j.slots 0).state ≠ .free) (hidle : ∀ k, k ≠ 0 → (j.slots k).state = .free) :
    StepEnds (ProbeJob.lastStep e j).1 := by
  obtain ⟨hgoes, hdead, hclassic⟩ := hrun.pump hbusy
    (slotPump_case e.last hbusy (hrun.slots 0 hbusy).waits)
  unfold ProbeJob.lastStep
  dsimp only
  generalize slotPump e.last (j.slots 0) = r at hgoes hdead hclassic ⊢
  have hother : ∀ k, k ≠ 0 → ((j.store 0 r.slot r.events).slots k).state = .free := by
    intro k hk
    rw [store_other hk]
    exact hidle k hk
  have hall : r.slot.state = .free → ∀ k, ((j.store 0 r.slot r.events).slots k).state = .free := by
    intro hfree k
    by_cases hk : k = 0
    · rw [hk, store_slot]
      exact hfree
    · exact hother k hk
  cases hresult : r.result with
  | inFlight =>
    obtain ⟨hused, hrunning⟩ := hgoes hresult
    have hfirst : ((j.store 0 r.slot r.events).slots 0).state ≠ .free := by
      rw [store_slot]
      exact hused
    have hstill : (j.store 0 r.slot r.events).phase = .lastKnown := hphase
    refine .of_running hrunning ?_ (fun _ => ⟨hfirst, hother⟩) (fun h => ?_) (Or.inl ⟨0, hfirst⟩)
    · rw [hstill]
      decide
    · exact absurd (hstill.symm.trans h) (by decide)
  | dead =>
    obtain ⟨hfree, hrunning⟩ := hdead hresult
    exact hrunning.afterLast e (hall hfree)
  | decoded d =>
    obtain ⟨hfree, hnot, hwanted⟩ := hclassic d hresult
    dsimp only
    unfold considerHit
    by_cases hmac : j.macOk d = true
    · have hsame : (j.store 0 r.slot r.events).macOk d = true := hmac
      rw [if_pos hsame]
      exact .of_found (hwanted hmac)
    · have hsame : ¬(j.store 0 r.slot r.events).macOk d = true := hmac
      rw [if_neg hsame]
      exact (hnot (Bool.eq_false_iff.mpr hmac)).afterLast e (hall hfree)

end ProbeJob

open ProbeJob

/-- The job after a step. -/
def jobStep (j : ProbeJob) (e : ProbeEnv) : ProbeJob := (j.probeStep e).1

/-- A step ends a job exactly at the time cap, at the hit, or when nothing is left to ask;
a job that has ended stays as it is. -/
structure StepOk (j : ProbeJob) (e : ProbeEnv) : Prop where
  stays : j.phase = .done → jobStep j e = j
  ends : j.phase ≠ .done → ((jobStep j e).phase = .done ↔
    probeCapS ≤ e.now - j.t0 ∨ (jobStep j e).hits ≠ [] ∨ Exhausted (jobStep j e))

/-- A step keeps what holds of a job. -/
theorem jobStep_ok {j : ProbeJob} (hinv : ProbeInv j) (e : ProbeEnv) :
    ProbeInv (jobStep j e) ∧ StepOk j e := by
  unfold jobStep
  by_cases hdone : j.phase = .done
  · have hsame : j.probeStep e = (j, .idle) := if_pos hdone
    rw [hsame]
    exact ⟨hinv, fun _ => congrArg Prod.fst hsame, fun h => absurd hdone h⟩
  · have hrun := hinv.running hdone
    by_cases hcap : probeCapS ≤ e.now - j.t0
    · have hfinish : j.probeStep e = (j.finish, .updated) :=
        (if_neg hdone).trans (if_pos hcap)
      rw [hfinish]
      refine ⟨⟨hrun.finish_ok, fun h => absurd rfl h, fun h => ?_, fun h => ?_⟩,
        fun h => absurd h hdone, fun _ => ⟨fun _ => Or.inl hcap, fun _ => ?_⟩⟩
      · exact absurd h (by simp [finish])
      · exact absurd h (by simp [finish])
      · unfold jobStep
        rw [hfinish]
        rfl
    · have hends : StepEnds (j.probeStep e).1 := by
        cases hphase : j.phase with
        | done => exact absurd hphase hdone
        | lastKnown =>
          have hstep : j.probeStep e = j.lastStep e :=
            (if_neg hdone).trans ((if_neg hcap).trans (if_pos hphase))
          obtain ⟨hbusy, hidle⟩ := hinv.first hphase
          rw [hstep]
          exact hrun.lastStep e hphase hbusy hidle
        | scan =>
          have hstep : j.probeStep e = j.scanStep e :=
            (if_neg hdone).trans ((if_neg hcap).trans (if_neg (by rw [hphase]; decide)))
          rw [hstep]
          exact hrun.scanStep e hphase (hinv.scans hphase)
      refine ⟨hends.inv, fun h => absurd h hdone, fun _ => ?_⟩
      unfold jobStep
      rw [hends.ends, or_iff_right hcap]

/-- A job that has taken nothing on. -/
theorem ProbeJob.Running.of_blank {j : ProbeJob} (hslots : ∀ i, (j.slots i).state = .free)
    (hlog : j.log = []) (hhits : j.hits = []) (hnext : j.nextCand = 0)
    (hlast : j.lastIp.str.nonempty = false) : Running j := by
  refine ⟨⟨⟨fun i hi => absurd (hslots i) hi, fun i _ hi => absurd (hslots i) hi, ?_, ?_⟩, ?_, ?_⟩,
    ?_, hhits⟩
  · rw [hlog]
    exact fun _ _ => ⟨rfl, rfl⟩
  · rw [hlog]
    exact fun h hh => absurd hh List.not_mem_nil
  · rw [hlog, due, hnext, hlast]
    rfl
  · rw [hnext]
    exact Nat.zero_le _
  · intro h unit b d hmem
    rw [hlog] at hmem
    exact absurd hmem List.not_mem_nil

/-- A job that has taken its last known address on. -/
theorem ProbeJob.Running.of_first {j : ProbeJob} (hslots : ∀ i, (j.slots i).state = .free)
    (hlog : j.log = []) (hhits : j.hits = []) (hnext : j.nextCand = 0)
    (hlast : j.lastIp.str.nonempty = true) (begun : Bool × ℚ) :
    Running (j.startSlot 0 .lastKnown (j.lastIp, j.lastPort) begun) := by
  have hshares : Shares j := by
    refine ⟨fun i hi => absurd (hslots i) hi, fun i _ hi => absurd (hslots i) hi, ?_, ?_⟩
    · rw [hlog]
      exact fun _ _ => ⟨rfl, rfl⟩
    · rw [hlog]
      exact fun h hh => absurd hh List.not_mem_nil
  have hnew : Host.lastKnown ∉ startsOf j.log := by
    rw [hlog]
    exact List.not_mem_nil
  obtain ⟨hs, hstarts⟩ := hshares.start (hslots 0) hnew begun
  refine ⟨⟨hs, ?_, ?_⟩, ?_, hhits⟩
  · refine hstarts.trans ?_
    change _ = (if j.lastIp.str.nonempty then [Host.lastKnown] else []) ++
      (List.range j.nextCand).map Host.cand
    rw [hlog, hnext, hlast]
    rfl
  · change j.nextCand ≤ _
    rw [hnext]
    exact Nat.zero_le _
  · intro h unit b d hmem
    exact absurd (startSlot_reply (i := 0) hmem) (by rw [hlog]; exact List.not_mem_nil)

/-- A job when it starts. -/
theorem probeStart_ok (a : ProbeArgs) (e : ProbeEnv) :
    ProbeInv (probeStart a e) ∧
      ((probeStart a e).phase = .done ↔ a.autoNet = false ∧ Exhausted (probeStart a e)) := by
  unfold probeStart
  dsimp only
  generalize hj : (if a.lastIp.str.nonempty = true then _ else _ : ProbeJob) = j
  have hstarted : Running j ∧ j.autoNet = a.autoNet ∧
      (j.phase = .lastKnown ∨ (j.slots 0).state = .free) ∧
      ∀ k, k ≠ 0 → (j.slots k).state = .free := by
    split_ifs at hj with hlast
    · rw [← hj]
      exact ⟨.of_first (fun _ => rfl) rfl rfl rfl hlast _, rfl, Or.inl rfl,
        fun k hk => congrArg ProbeSlot.state (startSlot_other hk)⟩
    · rw [← hj]
      exact ⟨.of_blank (fun _ => rfl) rfl rfl rfl (Bool.eq_false_iff.mpr hlast), rfl, Or.inr rfl,
        fun _ _ => rfl⟩
  obtain ⟨hrun, hauto, hphase, hidle⟩ := hstarted
  split_ifs with hfirst hscan
  · have hnot : j.phase ≠ .done := by
      rw [hfirst.1]
      decide
    have hends := StepEnds.of_running hrun hnot (fun _ => ⟨hfirst.2, hidle⟩)
      (fun h => absurd (hfirst.1.symm.trans h) (by decide)) (Or.inl ⟨0, hfirst.2⟩)
    exact ⟨hends.inv, fun h => absurd h hnot, fun h => absurd (hends.ends.mpr (Or.inr h.2)) hnot⟩
  · obtain ⟨hfilled, hkept⟩ := (hrun.of_phase .scan).fillScanSlots e
    have hphase' : (fillScanSlots e { j with phase := .scan }).phase = .scan := hkept.phase
    have hnot : (fillScanSlots e { j with phase := .scan }).phase ≠ .done := by
      rw [hphase']
      decide
    refine ⟨⟨hfilled.ok, fun _ => hfilled, fun h => ?_, fun _ => ?_⟩, fun h => absurd h hnot,
      fun h => ?_⟩
    · exact absurd (hphase'.symm.trans h) (by decide)
    · exact hkept.autoNet.trans (hauto.trans hscan)
    · rw [hscan] at h
      exact absurd h.1.symm Bool.false_ne_true
  · have hoff : a.autoNet = false := Bool.eq_false_iff.mpr hscan
    have hfree : ∀ k, (j.slots k).state = .free := by
      intro k
      by_cases hk : k = 0
      · subst hk
        by_contra hbusy
        exact hfirst ⟨hphase.resolve_right hbusy, hbusy⟩
      · exact hidle k hk
    have hdone := hrun.of_phase .done
    have hover : Exhausted { j with phase := .done } := by
      refine ⟨fun h => absurd (hauto.symm.trans h) hscan, fun h hh => ?_⟩
      have hnone : ¬Busy { j with phase := .done } h := fun ⟨i, hi, _⟩ => hi (hfree i)
      exact ⟨hnone, (hdone.covered h hh).resolve_left hnone⟩
    exact ⟨⟨hdone.ok, fun h => absurd rfl h, fun h => absurd h (by simp),
      fun h => absurd h (by simp)⟩,
      fun _ => ⟨hoff, hover⟩, fun _ => rfl⟩

/-- Every host taken on was asked under every unit id, unless it answered as something that
is not a Classic. -/
def AllAsked (j : ProbeJob) : Prop :=
  ∀ h ∈ startsOf j.log, (∀ u ∈ j.units, u ∈ (connectsOf j.log h).map Prod.fst) ∨
    ∃ r ∈ repliesOf j.log h, decodeRx r.2 = .foreign

/-- Surroundings in which no host answers, and connections after the first fail at once. -/
def silentEnv (now : ℚ) : ProbeEnv :=
  { now := now
    last := ⟨now, false, now, .notYet, [], []⟩
    slot := fun _ => ⟨now, false, now, .notYet, [], []⟩
    cand := fun _ => (true, now) }

/-- One candidate, which is to be asked under three unit ids. -/
def oneCandidate : ProbeArgs :=
  { autoNet := true, lastIp := CBuf.zero 64, lastPort := 502, unitCfg := 5
    wantMac := CBuf.zero 32, cands := [(CBuf.copy 64 (CString.lit "192.168.1.9"), 502)] }

end MoonFlare.Probe
