import MoonFlare.ClassicReplies

/-!
# The network probe for Classic chargers

A job looks for a charger at its last known address and then at a list of candidates. Up
to eight connections are open at a time; a slot asks one host under one unit id after the
other. The clock, the connections and the candidates' answers are inputs of a step. What
was started, asked and answered is logged beside the job's own fields.
-/

namespace MoonFlare.Probe

open Binary Classic

/-- `PROBE_INFLIGHT`. -/
def probeInflight : ℕ := 8

instance neZeroInflight : NeZero probeInflight := ⟨by decide⟩

/-- `PROBE_CONNECT_S`. -/
def probeConnectS : ℚ := 1 / 5

/-- `PROBE_CAP_S`. -/
def probeCapS : ℚ := 15

/-! ## Slots -/

/-- `SL_FREE` and the other states. -/
inductive SlotState where
  | free
  | connecting
  | send
  | recv
  deriving DecidableEq

/-- Which host a slot is for. -/
inductive Host where
  | lastKnown
  /-- The candidate at a place of the list. -/
  | cand (k : ℕ)
  deriving DecidableEq

/-- `probe_slot_t`, its descriptor apart: that is open in every state but the first. -/
structure ProbeSlot where
  host : Host
  ip : CBuf 64
  port : ℤ
  unitTry : List ℤ
  itry : ℕ
  state : SlotState
  deadline : ℚ
  tx : Bytes
  txOff : ℕ
  rx : Bytes
  tid : ℕ
  deriving DecidableEq

/-- A zeroed slot. -/
def ProbeSlot.zero : ProbeSlot := ⟨.lastKnown, CBuf.zero 64, 0, [], 0, .free, 0, [], 0, [], 0⟩

/-- What happens, as it is logged. -/
inductive ProbeEvent where
  /-- A host is taken on. -/
  | start (h : Host)
  /-- A connection for a unit id is begun, or fails at once. -/
  | connect (h : Host) (unit : ℤ) (begun : Bool)
  /-- The answer to the request for a unit id, with registers of a Classic or of something
  else. -/
  | reply (h : Host) (unit : ℤ) (b : Bytes)
  deriving DecidableEq

/-- What the surroundings decide when a slot is pumped. -/
structure SlotEnv where
  now : ℚ
  /-- The next connection does not fail at once. -/
  connects : Bool
  connectNow : ℚ
  ready : ConnectReady
  sends : List SendResult
  recvs : List RecvResult
  deriving DecidableEq

/-- `fill_units`, the same list as that of the plugin. -/
def fillUnits (cfg : ℤ) : List ℤ := buildUnitList cfg

/-- `slot_close`. -/
def slotClose (s : ProbeSlot) : ProbeSlot :=
  { s with state := .free, tx := [], txOff := 0, rx := [] }

/-- The unit id that a slot asks. -/
def slotUnit (s : ProbeSlot) : ℤ := s.unitTry.getD s.itry 10

/-- `slot_connect`, with what it logs and whether it succeeds. -/
def slotConnect (connects : Bool) (connectNow : ℚ) (s : ProbeSlot) :
    ProbeSlot × List ProbeEvent × Bool :=
  let s := slotClose s
  if s.unitTry.length ≤ s.itry then (s, [], false)
  else if !connects then (s, [.connect s.host (slotUnit s) false], false)
  else
    let tid := if (s.tid + 1) % 65536 = 0 then 1 else (s.tid + 1) % 65536
    let unit := UInt8.ofNat (slotUnit s % 256).toNat
    ({ s with
      state := .connecting, deadline := connectNow + probeConnectS, tid := tid
      tx := putBe16 tid ++ putBe16 0 ++ putBe16 6 ++ [unit, 3] ++ putBe16 regStart ++
        putBe16 regQty },
      [.connect s.host (slotUnit s) true], true)

/-- What `decode_rx` returns. -/
inductive Decoded where
  | needMore
  | bad
  | exception
  /-- Register 4209 is not that of a Classic. -/
  | foreign
  | ok (d : ClassicData)
  deriving DecidableEq

/-- `decode_rx` of the bytes received. -/
def decodeRx (b : Bytes) : Decoded :=
  if b.length < 6 then .needMore
  else
    let length := wordAt b 4
    if length < 3 ∨ rxCap < length + 6 then .bad
    else if b.length < 6 + length then .needMore
    else if 128 ≤ (b.getD 7 0).toNat then .exception
    else if (b.getD 7 0).toNat ≠ 3 then .bad
    else if (b.getD 8 0).toNat ≠ regQty * 2 ∨ 6 + length < 9 + (b.getD 8 0).toNat then .bad
    else
      match classicDecode (frameRegisters b) with
      | (d, .ok) => .ok d
      | (_, .typeMismatch) => .foreign
      | (_, .missingReg) => .bad

/-- What `slot_pump` returns. -/
inductive PumpResult where
  | decoded (d : ClassicData)
  | inFlight
  | dead
  deriving DecidableEq

/-- A slot after it was pumped, and what was logged. -/
structure Pumped where
  slot : ProbeSlot
  events : List ProbeEvent
  result : PumpResult
  deriving DecidableEq

/-- The next unit id, when an exchange failed. -/
def nextUnit (e : SlotEnv) (s : ProbeSlot) : Pumped :=
  let s := { s with itry := s.itry + 1 }
  if s.unitTry.length ≤ s.itry then ⟨slotClose s, [], .dead⟩
  else
    match slotConnect e.connects e.connectNow s with
    | (s, events, true) => ⟨s, events, .inFlight⟩
    | (s, events, false) => ⟨slotClose s, events, .dead⟩

/-- The receive loop of `slot_pump`. -/
def slotRecv (e : SlotEnv) : List RecvResult → ProbeSlot → Pumped
  | recvs, s =>
    if rxCap ≤ s.rx.length then ⟨slotClose s, [], .dead⟩
    else
      match recvs with
      | [] => ⟨s, [], .inFlight⟩
      | .wouldBlock :: _ => ⟨s, [], .inFlight⟩
      | .failed _ :: _ => nextUnit e s
      | .closed :: _ => nextUnit e s
      | .chunk b :: rest =>
        let s := { s with rx := s.rx ++ b.take (rxCap - s.rx.length) }
        match decodeRx s.rx with
        | .needMore => slotRecv e rest s
        | .ok d => ⟨slotClose s, [.reply s.host (slotUnit s) s.rx], .decoded d⟩
        | .foreign => ⟨slotClose s, [.reply s.host (slotUnit s) s.rx], .dead⟩
        | _ => nextUnit e s

/-- The send loop, and the receive loop after it. -/
def slotSend (e : SlotEnv) : List SendResult → ProbeSlot → Pumped
  | sends, s =>
    if s.tx.length ≤ s.txOff then
      slotRecv e e.recvs { s with state := .recv, rx := [], deadline := e.now + ioTimeoutS }
    else
      match sends with
      | [] => ⟨s, [], .inFlight⟩
      | .wouldBlock :: _ => ⟨s, [], .inFlight⟩
      | .failed _ :: _ => nextUnit e s
      | .sent 0 :: _ => nextUnit e s
      | .sent n :: rest => slotSend e rest { s with txOff := s.txOff + n }

/-- `slot_pump`. -/
def slotPump (e : SlotEnv) (s : ProbeSlot) : Pumped :=
  if s.state = .free then ⟨s, [], .dead⟩
  else if s.deadline < e.now then nextUnit e s
  else
    match s.state with
    | .connecting =>
      match e.ready with
      | .notYet => ⟨s, [], .inFlight⟩
      | .failed _ => nextUnit e s
      | .ready =>
        slotSend e e.sends { s with state := .send, deadline := e.now + ioTimeoutS, txOff := 0 }
    | .send => slotSend e e.sends s
    | .recv => slotRecv e e.recvs s
    | .free => ⟨s, [], .inFlight⟩

/-! ## Jobs -/

/-- `PJ_LASTKNOWN` and the other phases. -/
inductive Phase where
  | lastKnown
  | scan
  | done
  deriving DecidableEq

/-- `probe_hit_t`. -/
structure ProbeHit where
  ip : CBuf 64
  port : ℤ
  unit : ℤ
  mac : CBuf 24
  devid : ℕ
  deriving DecidableEq

/-- `probe_job_t`, with the log. -/
structure ProbeJob where
  autoNet : Bool
  lastIp : CBuf 64
  lastPort : ℤ
  unitCfg : ℤ
  wantMac : CBuf 32
  cands : List (CBuf 64 × ℤ)
  nextCand : ℕ
  slots : Fin probeInflight → ProbeSlot
  phase : Phase
  t0 : ℚ
  hits : List ProbeHit
  log : List ProbeEvent

/-- What the surroundings decide in a step. -/
structure ProbeEnv where
  now : ℚ
  /-- For the slot of the last known address. -/
  last : SlotEnv
  /-- For each slot of the scan. -/
  slot : Fin probeInflight → SlotEnv
  /-- For each candidate, whether its first connection does not fail at once, and when. -/
  cand : ℕ → Bool × ℚ

namespace ProbeJob

/-- A slot is replaced, and events are logged. -/
def store (j : ProbeJob) (i : Fin probeInflight) (s : ProbeSlot) (events : List ProbeEvent) :
    ProbeJob :=
  { j with slots := Function.update j.slots i s, log := j.log ++ events }

/-- `inflight`. -/
def inflight (j : ProbeJob) : ℕ :=
  ((List.finRange probeInflight).filter fun i => (j.slots i).state ≠ .free).length

/-- `job_finish`. -/
def finish (j : ProbeJob) : ProbeJob :=
  { j with phase := .done, slots := fun i => slotClose (j.slots i) }

/-- `mac_fmt`. -/
def macFmt (m : List ℕ) : CBuf 24 :=
  CBuf.copy 24 (CString.ofBytes ([58].intercalate (m.map hexByte)))

/-- `mac_ok`. -/
def macOk (j : ProbeJob) (d : ClassicData) : Bool :=
  !j.wantMac.str.nonempty || CString.eqNoCase j.wantMac.str (macFmt d.unitMac).str

/-- `PROBE_MAX_HIT`. -/
def maxHit : ℕ := 8

/-- `add_hit`. -/
def addHit (j : ProbeJob) (s : ProbeSlot) (d : ClassicData) : ProbeJob :=
  if maxHit ≤ j.hits.length then j
  else if j.hits.any fun h => h.ip == s.ip && h.port == s.port then j
  else { j with hits := j.hits ++ [⟨s.ip, s.port, slotUnit s, macFmt d.unitMac, d.deviceId⟩] }

/-- A zeroed slot is given a host and connects for its first unit id. -/
def startSlot (j : ProbeJob) (i : Fin probeInflight) (h : Host) (addr : CBuf 64 × ℤ)
    (begun : Bool × ℚ) : ProbeJob :=
  let r := slotConnect begun.1 begun.2
    { ProbeSlot.zero with
      host := h, ip := addr.1, port := addr.2, unitTry := fillUnits j.unitCfg }
  j.store i (if r.2.2 then r.1 else slotClose r.1) (.start h :: r.2.1)

/-- The first free slot. -/
def firstFree (j : ProbeJob) : Option (Fin probeInflight) :=
  (List.finRange probeInflight).find? fun i => (j.slots i).state = .free

/-- The loop of `fill_scan_slots`, with as many rounds as there are candidates left. -/
def fillRounds (e : ProbeEnv) : ℕ → ProbeJob → ProbeJob
  | 0, j => j
  | n + 1, j =>
    if j.nextCand < j.cands.length ∧ j.inflight < probeInflight then
      match j.firstFree with
      | none => j
      | some i =>
        fillRounds e n
          ({ j with nextCand := j.nextCand + 1 }.startSlot i (.cand j.nextCand)
            (j.cands.getD j.nextCand (CBuf.zero 64, 0)) (e.cand j.nextCand))
    else j

/-- `fill_scan_slots`. -/
def fillScanSlots (e : ProbeEnv) (j : ProbeJob) : ProbeJob :=
  fillRounds e (j.cands.length - j.nextCand) j

/-- `consider_hit`, and whether it is one. -/
def considerHit (j : ProbeJob) (s : ProbeSlot) (d : ClassicData) : ProbeJob × Bool :=
  if j.macOk d then (j.addHit s d, true) else (j, false)

/-- The loop over the slots, and whether it found a charger. -/
def pumpSlots (e : ProbeEnv) : List (Fin probeInflight) → ProbeJob → ProbeJob × Bool
  | [], j => (j, false)
  | i :: is, j =>
    if (j.slots i).state = .free then pumpSlots e is j
    else
      let r := slotPump (e.slot i) (j.slots i)
      let j := j.store i r.slot r.events
      match r.result with
      | .decoded d =>
        match j.considerHit r.slot d with
        | (j, true) => (j, true)
        | (j, false) => pumpSlots e is j
      | _ => pumpSlots e is j

/-- The scan in a step. -/
def scanStep (e : ProbeEnv) (j : ProbeJob) : ProbeJob × MfStep :=
  match pumpSlots e (List.finRange probeInflight) (fillScanSlots e j) with
  | (j, true) => (j.finish, .updated)
  | (j, false) =>
    let j := fillScanSlots e j
    if j.inflight = 0 ∧ j.cands.length ≤ j.nextCand then (j.finish, .updated) else (j, .idle)

/-- The step goes on to the scan, if there is one. -/
def afterLast (e : ProbeEnv) (j : ProbeJob) : ProbeJob × MfStep :=
  if !j.autoNet then (j.finish, .updated)
  else scanStep e (fillScanSlots e { j with phase := .scan })

/-- The step for the last known address. -/
def lastStep (e : ProbeEnv) (j : ProbeJob) : ProbeJob × MfStep :=
  let r := slotPump e.last (j.slots 0)
  let j := j.store 0 r.slot r.events
  match r.result with
  | .inFlight => (j, .idle)
  | .dead => afterLast e j
  | .decoded d =>
    match j.considerHit r.slot d with
    | (j, true) => (j.finish, .updated)
    | (j, false) => afterLast e j

/-- `classic_probe_step`. -/
def probeStep (e : ProbeEnv) (j : ProbeJob) : ProbeJob × MfStep :=
  if j.phase = .done then (j, .idle)
  else if probeCapS ≤ e.now - j.t0 then (j.finish, .updated)
  else if j.phase = .lastKnown then lastStep e j
  else scanStep e j

end ProbeJob

/-- What `classic_probe_start` reads from its arguments. -/
structure ProbeArgs where
  autoNet : Bool
  lastIp : CBuf 64
  lastPort : ℤ
  unitCfg : ℤ
  wantMac : CBuf 32
  /-- The candidates listed, or those of the subnet. -/
  cands : List (CBuf 64 × ℤ)

/-- `classic_probe_start` past the reading of its arguments. -/
def probeStart (a : ProbeArgs) (e : ProbeEnv) : ProbeJob :=
  let j : ProbeJob :=
    { autoNet := a.autoNet, lastIp := a.lastIp, lastPort := a.lastPort, unitCfg := a.unitCfg
      wantMac := a.wantMac, cands := a.cands, nextCand := 0, slots := fun _ => ProbeSlot.zero
      phase := .done, t0 := e.now, hits := [], log := [] }
  let j := if a.lastIp.str.nonempty then
      ({ j with phase := .lastKnown } : ProbeJob).startSlot 0 .lastKnown (a.lastIp, a.lastPort)
        (e.last.connects, e.last.connectNow)
    else j
  if j.phase = .lastKnown ∧ (j.slots 0).state ≠ .free then j
  else if a.autoNet then ({ j with phase := .scan } : ProbeJob).fillScanSlots e
  else { j with phase := .done }

end MoonFlare.Probe
