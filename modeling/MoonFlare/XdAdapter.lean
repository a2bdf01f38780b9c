import MoonFlare.UsbIdentity

/-!
# The adapter of an XD module

A module opens its port and asks the USB policy about it before the first command. The
policy keeps the port when its serial number or the name of its link is the stored one,
else the module moves to a port that the scan finds or gives the port up. Whatever the
policy settles on is stored and decides the next call. A port with the serial number of
the module but the link of another adapter is kept, also when two links share the number.
-/

namespace MoonFlare.Usb

open Runs

/-! ## The module -/

/-- What `xd_ctx_t` holds for the port, with the events queued for the configuration. -/
structure XdPort where
  uuid : CBuf 40
  path : CBuf 128
  serialId : CBuf 64
  byId : CBuf 256
  autoPort : Bool
  /-- The path that the open descriptor was opened under. -/
  fd : Option (CBuf 128)
  ioActive : Bool
  err : CBuf 96
  ring : List EndpointEvent
  deriving DecidableEq

/-- What `open` does with a path: it opens it, or the text of the error. -/
abbrev OpenResult := Option CString

namespace XdPort

/-- `set_err`. -/
def setErr (c : XdPort) (msg : CString) : XdPort := { c with err := CBuf.copy 96 msg }

/-- `close(c->fd)`, with the command under way given up. -/
def closeFd (c : XdPort) : XdPort := { c with fd := none, ioActive := false }

/-- `try_open_fd`, and whether the port is open. -/
def tryOpenFd (c : XdPort) (r : OpenResult) : XdPort × Bool :=
  if !c.path.str.nonempty then (c.setErr (CString.lit "usb.path required"), false)
  else
    match r with
    | some strerror => (c.setErr (CString.lit "open failed: " ++ strerror), false)
    | none => ({ c with fd := some c.path, err := CBuf.zero 96 }, true)

/-- The serial number and the link that an identity has are stored. -/
def store (c : XdPort) (id : UsbId) : XdPort :=
  { c with
    serialId := if id.serialId.str.nonempty then id.serialId else c.serialId
    byId := if id.byId.str.nonempty then id.byId else c.byId }

/-- The module on another port, before that is opened. -/
def moveTo (c : XdPort) (id : UsbId) (ring : List EndpointEvent) : XdPort :=
  ({ (if c.fd.isSome then c.closeFd else c) with path := id.path, ring := ring } : XdPort).store id

/-- What the module asks the policy. -/
def want (c : XdPort) (opened : Bool) : UsbWant :=
  ⟨c.path, c.serialId, c.byId, c.autoPort, opened⟩

/-- `apply_usb_policy`, and whether it succeeds; `r` is what opening the port it moves to
does. -/
def applyUsbPolicy (c : XdPort) (opened : Bool) (s : Snapshot) (r : OpenResult) :
    XdPort × Bool :=
  match mfUsbResolve s c.uuid (c.want opened) c.ring with
  | (.use, got, ring) => (({ c with ring := ring } : XdPort).store got, true)
  | (.learn, got, ring) => (({ c with ring := ring } : XdPort).store got, true)
  | (.relocate, got, ring) => (c.moveTo got ring).tryOpenFd r
  | (.error, _, ring) =>
    let c : XdPort := { c with ring := ring }
    if opened && c.fd.isSome && (c.serialId.str.nonempty || c.byId.str.nonempty) then
      (c.closeFd.setErr (CString.lit "usb identity mismatch"), false)
    else (c, opened)

end XdPort

/-- What the surroundings decide in a call: the ttys, and what opening the port and the one
moved to does. -/
structure Call where
  snapshot : Snapshot
  opens : OpenResult
  moved : OpenResult

/-- The port in `xd_open`, and in `xd_step` without one: it is opened and the policy asked. -/
def reopen (c : XdPort) (e : Call) : XdPort × Bool :=
  match c.tryOpenFd e.opens with
  | (c, true) => c.applyUsbPolicy true e.snapshot e.moved
  | (c, false) => c.applyUsbPolicy false e.snapshot e.moved

/-- One call: a port that was still open has been given up before it. -/
def call (c : XdPort) (e : Call) : XdPort := (reopen c.closeFd e).1

/-! ## Whose port it is -/

namespace XdPort

/-- The module knows its adapter. -/
def HasIds (c : XdPort) : Prop := c.serialId.str.nonempty = true ∨ c.byId.str.nonempty = true

/-- The port's serial number or the name of its link is the module's own. -/
def Own (c : XdPort) (n : TtyNode) : Prop :=
  c.serialId.str.nonempty = true ∧ n.shortSerial = c.serialId ∨
    c.byId.str.nonempty = true ∧ n.byId = c.byId

/-- Both the port's link and the module's are known. -/
def BothLinked (c : XdPort) (n : TtyNode) : Prop :=
  c.byId.str.nonempty = true ∧ n.linked = true

/-- The port's adapter is the module's: the links decide where both are known, else the
serial numbers do. -/
def SameAdapter (c : XdPort) (n : TtyNode) : Prop :=
  (c.BothLinked n → n.byId = c.byId) ∧
    (¬c.BothLinked n → c.serialId.str.nonempty = true ∧ n.shortSerial = c.serialId)

/-- The port that a call opened, or moved the module to. -/
def Taken (c c' : XdPort) (path : CBuf 128) : Prop :=
  c'.fd = some path ∨ c'.path = path ∧ c'.path ≠ c.path

/-- The stored identity was replaced. -/
def Replaced (c c' : XdPort) : Prop := c'.serialId ≠ c.serialId ∨ c'.byId ≠ c.byId

/-- What is stored came from a tty where it is not the old. -/
def StoredFrom (c c' : XdPort) (n : TtyNode) : Prop :=
  (c'.serialId = n.shortSerial ∨ c'.serialId = c.serialId) ∧
    (c'.byId = n.byId ∨ c'.byId = c.byId)

/-- The module takes no adapter but its own in a call. -/
structure Guarded (s : Snapshot) (c c' : XdPort) : Prop where
  /-- A port taken carries the module's serial number or its link. -/
  own : c.HasIds → ∀ path, Taken c c' path → ∃ n, s.portAt path = some n ∧ c.Own n
  /-- With the serial number shared it carries the link. -/
  shared : c.serialId.str.nonempty = true → s.Shared c.serialId → ∀ path, Taken c c' path →
    ∃ n, s.portAt path = some n ∧ c.byId.str.nonempty = true ∧ n.byId = c.byId
  /-- What replaces the stored identity is of the same adapter. -/
  kept : c.HasIds → Replaced c c' →
    ∃ n, s.portAt c'.path = some n ∧ c.SameAdapter n ∧ StoredFrom c c' n
  /-- Without `auto_port` no other path is taken. -/
  still : c.autoPort = false → c'.path = c.path ∧ ∀ path, c'.fd = some path → path = c.path

/-- The port of the module opens. -/
def Opens (c : XdPort) (e : Call) : Prop := c.path.str.nonempty = true ∧ e.opens = none

/-- The port opens and its identity is the module's. -/
def Matches (c : XdPort) (e : Call) : Prop :=
  c.Opens e ∧ ∃ n, e.snapshot.portAt c.path = some n ∧ c.Own n

/-- What must hold before a call. -/
structure Safe (c : XdPort) (e : Call) : Prop where
  /-- A port that opens with the module's serial number is that of its adapter, and has the
  module's link when the number is shared. -/
  here : c.Opens e → c.serialId.str.nonempty = true → ∀ n, e.snapshot.portAt c.path = some n →
    n.shortSerial = c.serialId →
      c.SameAdapter n ∧ (e.snapshot.Shared c.serialId → c.BothLinked n)
  /-- So is the only link with the module's serial number when the module looks for it. -/
  elsewhere : c.autoPort = true → c.serialId.str.nonempty = true → ¬c.Matches e →
    ¬e.snapshot.Shared c.serialId → ∀ n ∈ e.snapshot.carriers c.serialId, c.SameAdapter n

/-! ## What a call can do -/

variable {c c' : XdPort} {e : Call}

/-- What a call does to a module that knows its adapter. -/
inductive Outcome (c : XdPort) (e : Call) (c' : XdPort) : Prop where
  /-- The port that opened is kept. -/
  | kept (n : TtyNode) (hopens : c.Opens e) (hport : e.snapshot.portAt c.path = some n)
      (hown : c.Own n) (hpath : c'.path = c.path) (hfd : c'.fd = some c.path)
      (hids : c'.serialId = (if n.shortSerial.str.nonempty then n.shortSerial else c.serialId) ∧
        c'.byId = if n.byId.str.nonempty then n.byId else c.byId)
  /-- The scan's port is taken. -/
  | moved (n : TtyNode) (hserial : c.serialId.str.nonempty = true) (hauto : c.autoPort = true)
      (hmatches : ¬c.Matches e) (hmem : n ∈ e.snapshot.carriers c.serialId)
      (hhint : e.snapshot.Shared c.serialId → c.byId.str.nonempty = true ∧ n.byId = c.byId)
      (hport : e.snapshot.portAt c'.path = some n) (hfd : c'.fd = none ∨ c'.fd = some c'.path)
      (hids : c'.serialId = c.serialId ∧ c'.byId = n.byId)
  /-- The port is given up. -/
  | gaveUp (hmatches : ¬c.Matches e)
      (hscan : c.autoPort = true → c.serialId.str.nonempty = true →
        ¬e.snapshot.Shared c.serialId → e.snapshot.carriers c.serialId = [])
      (hpath : c'.path = c.path) (hfd : c'.fd = none)
      (hids : c'.serialId = c.serialId ∧ c'.byId = c.byId)

/-- A port opens or the error is noted, and nothing else changes. -/
theorem tryOpenFd_spec (c : XdPort) (r : OpenResult) :
    ∃ fd err, (c.tryOpenFd r).1 = { c with fd := fd, err := err } ∧
      (c.path.str.nonempty = true ∧ r = none → fd = some c.path ∧ (c.tryOpenFd r).2 = true) ∧
      (¬(c.path.str.nonempty = true ∧ r = none) → fd = c.fd ∧ (c.tryOpenFd r).2 = false) := by
  unfold tryOpenFd
  by_cases hpath : c.path.str.nonempty = true
  · cases r with
    | none => exact ⟨some c.path, CBuf.zero 96, by simp [hpath]⟩
    | some strerror =>
      exact ⟨c.fd, CBuf.copy 96 (CString.lit "open failed: " ++ strerror), by simp [hpath, setErr]⟩
  · exact ⟨c.fd, CBuf.copy 96 (CString.lit "usb.path required"), by simp [hpath, setErr]⟩

/-- A matching identity is what makes a port the module's own. -/
theorem serialMatches_iff {opened : Bool} {n : TtyNode} :
    serialMatches n.id (c.want opened) = true ↔ c.Own n := by
  unfold serialMatches Own
  simp only [want, TtyNode.id, Bool.or_eq_true, Bool.and_eq_true, beq_iff_eq]
  constructor
  · rintro (⟨⟨hc, -⟩, heq⟩ | ⟨⟨hc, -⟩, heq⟩)
    · exact Or.inl ⟨hc, heq.symm⟩
    · exact Or.inr ⟨hc, heq.symm⟩
  · rintro (⟨hc, heq⟩ | ⟨hc, heq⟩)
    · exact Or.inl ⟨⟨hc, heq ▸ hc⟩, heq.symm⟩
    · exact Or.inr ⟨⟨hc, heq ▸ hc⟩, heq.symm⟩

/-- A module that knows its adapter does not learn one. -/
theorem HasIds.not_first (h : c.HasIds) (opened : Bool) :
    ¬(!(c.want opened).serialId.str.nonempty && !(c.want opened).byId.str.nonempty) = true := by
  rcases h with h | h <;> simp [want, h]

/-- The open port of the module's own adapter is kept. -/
theorem mfUsbResolve_kept {s : Snapshot} {uuid : CBuf 40} {ring : List EndpointEvent}
    {n : TtyNode} (hpath : c.path.str.nonempty = true) (hids : c.HasIds)
    (hport : s.portAt c.path = some n) (hown : c.Own n) :
    mfUsbResolve s uuid (c.want true) ring = (.use, { n.id with path := c.path }, ring) := by
  have hcond : (n.shortSerial.str.nonempty || n.linked || n.vidPid.str.nonempty) = true := by
    rcases hown with ⟨hc, heq⟩ | ⟨hc, heq⟩
    · simp [heq, hc]
    · simp [TtyNode.linked, heq, hc]
  have hread : mfUsbIdentify s c.path.str = some n.id := by
    rw [mfUsbIdentify_some hport, if_pos hcond]
  have hopen : ((c.want true).path.str.nonempty && (c.want true).pathOk) = true := by
    simp [want, hpath]
  have hmatch : serialMatches n.id (c.want true) = true := serialMatches_iff.mpr hown
  unfold mfUsbResolve
  rw [if_pos hopen, show mfUsbIdentify s (c.want true).path.str = some n.id from hread]
  exact (if_neg (hids.not_first true)).trans (if_pos hmatch)

/-- What the port says of its adapter is stored. -/
theorem applyUsbPolicy_kept {s : Snapshot} {n : TtyNode} (r : OpenResult)
    (hpath : c.path.str.nonempty = true) (hids : c.HasIds)
    (hport : s.portAt c.path = some n) (hown : c.Own n) :
    (c.applyUsbPolicy true s r).1 = c.store { n.id with path := c.path } := by
  unfold applyUsbPolicy
  rw [mfUsbResolve_kept hpath hids hport hown]

/-- Any other port makes the module look for its adapter. -/
theorem mfUsbResolve_scan {s : Snapshot} {uuid : CBuf 40} {ring : List EndpointEvent}
    {opened : Bool} (hids : c.HasIds)
    (hother : opened = true → ∀ n, s.portAt c.path = some n → ¬c.Own n) :
    mfUsbResolve s uuid (c.want opened) ring = resolveScan s uuid (c.want opened) ring := by
  cases opened with
  | false =>
    unfold mfUsbResolve
    exact if_neg (by simp [want])
  | true =>
    unfold mfUsbResolve
    by_cases hpath : c.path.str.nonempty = true
    · have hopen : ((c.want true).path.str.nonempty && (c.want true).pathOk) = true := by
        simp [want, hpath]
      rw [if_pos hopen]
      cases hread : mfUsbIdentify s (c.want true).path.str with
      | none => exact if_neg (hids.not_first true)
      | some id =>
        obtain ⟨n, hport, rfl⟩ := mfUsbIdentify_eq_some hread
        have hmatch : ¬serialMatches n.id (c.want true) = true :=
          fun h => hother rfl n hport (serialMatches_iff.mp h)
        exact (if_neg (hids.not_first true)).trans (if_neg hmatch)
    · exact if_neg (by simp [want, hpath])

/-- An adapter that is found is used where it is or moved to. -/
theorem resolveScan_found {s : Snapshot} {uuid : CBuf 40} {ring : List EndpointEvent} {id : UsbId}
    (opened : Bool) (hauto : c.autoPort = true) (hserial : c.serialId.str.nonempty = true)
    (hfind : mfUsbFindBySerial s c.serialId c.byId = .found id) :
    resolveScan s uuid (c.want opened) ring =
      if (c.path.str.nonempty && id.path == c.path) = true then (.use, id, ring)
      else (.relocate, id, publish uuid id ring) := by
  unfold resolveScan
  rw [if_neg (by simp [want, hauto]), if_neg (by simp [want, hserial]),
    show mfUsbFindBySerial s (c.want opened).serialId (c.want opened).byId = .found id from hfind]
  rfl

/-- Without one the answer is an error. -/
theorem resolveScan_missed {s : Snapshot} {uuid : CBuf 40} {ring : List EndpointEvent}
    (opened : Bool) (h : c.autoPort = true → c.serialId.str.nonempty = true →
      ∀ id, mfUsbFindBySerial s c.serialId c.byId ≠ .found id) :
    resolveScan s uuid (c.want opened) ring = (.error, UsbId.zero, ring) := by
  unfold resolveScan
  by_cases hauto : c.autoPort = true
  · rw [if_neg (by simp [want, hauto])]
    by_cases hserial : c.serialId.str.nonempty = true
    · rw [if_neg (by simp [want, hserial])]
      split
      next id hfind => exact absurd hfind (h hauto hserial id)
      next => rfl
    · exact if_pos (by simp [want, hserial])
  · exact if_pos (by simp [want, hauto])

/-- What looking for the adapter gives. -/
theorem resolveScan_cases (c : XdPort) (opened : Bool) (s : Snapshot) (uuid : CBuf 40)
    (ring : List EndpointEvent) :
    (∃ n ∈ s.carriers c.serialId, c.serialId.str.nonempty = true ∧ c.autoPort = true ∧
      (s.Shared c.serialId → c.byId.str.nonempty = true ∧ n.byId = c.byId) ∧
      (n.id.path = c.path ∧ resolveScan s uuid (c.want opened) ring = (.use, n.id, ring) ∨
        ∃ ring', resolveScan s uuid (c.want opened) ring = (.relocate, n.id, ring'))) ∨
    (c.autoPort = true → c.serialId.str.nonempty = true → ¬s.Shared c.serialId →
        s.carriers c.serialId = []) ∧
      resolveScan s uuid (c.want opened) ring = (.error, UsbId.zero, ring) := by
  by_cases hfound : c.autoPort = true ∧ c.serialId.str.nonempty = true ∧
      ∃ id, mfUsbFindBySerial s c.serialId c.byId = .found id
  · obtain ⟨hauto, hserial, id, hfind⟩ := hfound
    obtain ⟨n, hn, rfl, hhint⟩ := mfUsbFindBySerial_found hfind
    refine Or.inl ⟨n, hn, hserial, hauto, hhint, ?_⟩
    rw [resolveScan_found opened hauto hserial hfind]
    by_cases hsame : (c.path.str.nonempty && n.id.path == c.path) = true
    · exact Or.inl ⟨by simpa using (Bool.and_eq_true_iff.mp hsame).2, if_pos hsame⟩
    · exact Or.inr ⟨_, if_neg hsame⟩
  · refine Or.inr ⟨fun hauto hserial hshared => ?_, resolveScan_missed opened
      fun hauto hserial id hfind => hfound ⟨hauto, hserial, id, hfind⟩⟩
    refine List.eq_nil_iff_forall_not_mem.mpr fun n hn => ?_
    exact hfound ⟨hauto, hserial, n.id, mfUsbFindBySerial_single hserial hn hshared⟩

/-- A module that moves to a carrier of its serial number stores the carrier's link. -/
theorem moveTo_spec (c : XdPort) (ring : List EndpointEvent) {n : TtyNode}
    (hshort : n.shortSerial = c.serialId) (hlinked : n.linked = true) :
    (c.moveTo n.id ring).path = n.id.path ∧ (c.moveTo n.id ring).fd = none ∧
      (c.moveTo n.id ring).serialId = c.serialId ∧ (c.moveTo n.id ring).byId = n.byId := by
  have hstored : n.id.serialId = c.serialId := hshort
  have hname : n.id.byId.str.nonempty = true := hlinked
  unfold moveTo
  by_cases hfd : c.fd.isSome = true
  · rw [if_pos hfd]
    refine ⟨rfl, rfl, ?_, if_pos hname⟩
    simp [store, hstored, closeFd]
  · rw [if_neg hfd]
    refine ⟨rfl, by simpa [store] using hfd, ?_, if_pos hname⟩
    simp [store, hstored]

/-- The module after the policy has looked for its adapter. -/
theorem applyUsbPolicy_scan {s : Snapshot} {opened : Bool} {r : OpenResult}
    (hids : c.HasIds) (hfd : c.fd = if opened = true then some c.path else none)
    (hother : opened = true → ∀ n, s.portAt c.path = some n → ¬c.Own n) :
    (∃ n ∈ s.carriers c.serialId, c.serialId.str.nonempty = true ∧ c.autoPort = true ∧
      (s.Shared c.serialId → c.byId.str.nonempty = true ∧ n.byId = c.byId) ∧
      s.portAt (c.applyUsbPolicy opened s r).1.path = some n ∧
      ((c.applyUsbPolicy opened s r).1.fd = none ∨
        (c.applyUsbPolicy opened s r).1.fd = some (c.applyUsbPolicy opened s r).1.path) ∧
      (c.applyUsbPolicy opened s r).1.serialId = c.serialId ∧
      (c.applyUsbPolicy opened s r).1.byId = n.byId) ∨
    (c.autoPort = true → c.serialId.str.nonempty = true → ¬s.Shared c.serialId →
        s.carriers c.serialId = []) ∧
      (c.applyUsbPolicy opened s r).1.path = c.path ∧
      (c.applyUsbPolicy opened s r).1.fd = none ∧
      (c.applyUsbPolicy opened s r).1.serialId = c.serialId ∧
      (c.applyUsbPolicy opened s r).1.byId = c.byId := by
  have hresolve := @mfUsbResolve_scan c s c.uuid c.ring opened hids hother
  rcases resolveScan_cases c opened s c.uuid c.ring with
    ⟨n, hn, hserial, hauto, hhint, hfound⟩ | ⟨hscan, hmissed⟩
  · obtain ⟨hmem, hshort, hlinked⟩ := Snapshot.mem_carriers.mp hn
    have hstored : n.id.serialId = c.serialId := hshort
    have hname : n.id.byId.str.nonempty = true := hlinked
    refine Or.inl ⟨n, hn, hserial, hauto, hhint, ?_⟩
    have hport : s.portAt n.id.path = some n := Snapshot.portAt_makeDevPath hmem
    rcases hfound with ⟨hpath, huse⟩ | ⟨ring', hmove⟩
    · unfold applyUsbPolicy
      rw [hresolve, huse]
      refine ⟨hpath ▸ hport, ?_, by simp [store, hstored], by simp [store, hname]; rfl⟩
      cases opened with
      | false => exact Or.inl (by simpa [store] using hfd)
      | true => exact Or.inr (by simpa [store] using hfd)
    · obtain ⟨fd, err, hopened, hok, hfailed⟩ := tryOpenFd_spec (c.moveTo n.id ring') r
      obtain ⟨hpath, hnone, hsid, hbid⟩ := moveTo_spec c ring' hshort hlinked
      unfold applyUsbPolicy
      rw [hresolve, hmove]
      dsimp only
      rw [hopened]
      refine ⟨hpath ▸ hport, ?_, hsid, hbid⟩
      dsimp only
      by_cases hopens : (c.moveTo n.id ring').path.str.nonempty = true ∧ r = none
      · exact Or.inr (hok hopens).1
      · exact Or.inl ((hfailed hopens).1.trans hnone)
  · refine Or.inr ⟨hscan, ?_⟩
    unfold applyUsbPolicy
    rw [hresolve, hmissed]
    dsimp only
    cases opened with
    | false =>
      rw [if_neg (by simp)]
      exact ⟨rfl, hfd, rfl, rfl⟩
    | true =>
      have hknown : (c.serialId.str.nonempty || c.byId.str.nonempty) = true := by
        rw [Bool.or_eq_true]
        exact hids
      rw [if_pos (by rw [hfd]; simpa using hknown)]
      exact ⟨rfl, rfl, rfl, rfl⟩

/-- What the policy does when no port of the module's own is open. -/
theorem Outcome.of_scan {d : XdPort} {opened : Bool} {r : OpenResult} (hids : c.HasIds)
    (hfields : d.path = c.path ∧ d.serialId = c.serialId ∧ d.byId = c.byId ∧
      d.autoPort = c.autoPort)
    (hfd : d.fd = if opened = true then some d.path else none) (hopened : opened = true → c.Opens e)
    (hmatches : ¬c.Matches e) :
    Outcome c e (d.applyUsbPolicy opened e.snapshot r).1 := by
  obtain ⟨hpath, hsid, hbid, hauto⟩ := hfields
  have hidsd : d.HasIds := by
    unfold HasIds
    rw [hsid, hbid]
    exact hids
  have hother : opened = true → ∀ n, e.snapshot.portAt d.path = some n → ¬d.Own n := by
    intro ho n hport hown
    unfold Own at hown
    rw [hsid, hbid] at hown
    exact hmatches ⟨hopened ho, n, hpath ▸ hport, hown⟩
  have hscan := @applyUsbPolicy_scan d e.snapshot opened r hidsd hfd hother
  rw [hpath, hsid, hbid, hauto] at hscan
  rcases hscan with ⟨n, hn, hserial, ha, hhint, hport, hopen, hstored⟩ |
    ⟨hnone, hsame, hclosed, hstored⟩
  · exact .moved n hserial ha hmatches hn hhint hport hopen hstored
  · exact .gaveUp hmatches hnone hsame hclosed hstored

/-- What a call can do to a module that knows its adapter. -/
theorem call_outcome (hids : c.HasIds) (e : Call) : Outcome c e (call c e) := by
  obtain ⟨fd, err, hopened, hok, hfailed⟩ := tryOpenFd_spec c.closeFd e.opens
  by_cases hopens : c.Opens e
  · obtain ⟨rfl, hopen⟩ := hok hopens
    have hcall : call c e = (XdPort.applyUsbPolicy { c.closeFd with
        fd := some c.path, err := err } true e.snapshot e.moved).1 := by
      unfold call reopen
      rw [show c.closeFd.tryOpenFd e.opens = (_, true) from Prod.ext hopened hopen]
      rfl
    by_cases hmatches : c.Matches e
    · obtain ⟨-, n, hport, hown⟩ := hmatches
      have hkept := @applyUsbPolicy_kept { c.closeFd with fd := some c.path, err := err }
        e.snapshot n e.moved hopens.1 hids hport hown
      rw [hcall, hkept]
      exact .kept n hopens hport hown rfl rfl ⟨rfl, rfl⟩
    · rw [hcall]
      exact .of_scan hids ⟨rfl, rfl, rfl, rfl⟩ rfl (fun _ => hopens) hmatches
  · obtain ⟨rfl, hclosed⟩ := hfailed hopens
    have hcall : call c e = (XdPort.applyUsbPolicy { c.closeFd with err := err } false
        e.snapshot e.moved).1 := by
      unfold call reopen
      rw [show c.closeFd.tryOpenFd e.opens = (_, false) from Prod.ext hopened hclosed]
    rw [hcall]
    exact .of_scan hids ⟨rfl, rfl, rfl, rfl⟩ rfl (fun h => absurd h Bool.false_ne_true)
      fun h => hopens h.1

/-- The policy leaves a module that knows no adapter where it is. -/
theorem applyUsbPolicy_unknown {s : Snapshot} {opened : Bool} {r : OpenResult}
    (hids : ¬c.HasIds) (hfd : ∀ path, c.fd = some path → path = c.path) :
    (c.applyUsbPolicy opened s r).1.path = c.path ∧
      ∀ path, (c.applyUsbPolicy opened s r).1.fd = some path → path = c.path := by
  obtain ⟨hsid, hbid⟩ := not_or.mp hids
  have hfirst : (!(c.want opened).serialId.str.nonempty &&
      !(c.want opened).byId.str.nonempty) = true := by simp [want, hsid, hbid]
  have hscan : resolveScan s c.uuid (c.want opened) c.ring = (.error, UsbId.zero, c.ring) :=
    resolveScan_missed opened fun _ h => absurd h hsid
  have hresolve : (∃ id ring, mfUsbResolve s c.uuid (c.want opened) c.ring = (.learn, id, ring)) ∨
      (∃ id ring, mfUsbResolve s c.uuid (c.want opened) c.ring = (.use, id, ring)) ∨
      mfUsbResolve s c.uuid (c.want opened) c.ring = (.error, UsbId.zero, c.ring) := by
    unfold mfUsbResolve
    split
    · split
      · exact Or.inl ⟨_, _, rfl⟩
      · exact Or.inr (Or.inl ⟨_, _, rfl⟩)
    · exact Or.inr (Or.inr hscan)
  unfold applyUsbPolicy
  rcases hresolve with ⟨id, ring, h⟩ | ⟨id, ring, h⟩ | h
  · rw [h]
    exact ⟨rfl, hfd⟩
  · rw [h]
    exact ⟨rfl, hfd⟩
  · rw [h]
    dsimp only
    rw [if_neg (by simp [hsid, hbid])]
    exact ⟨rfl, hfd⟩

/-- A call leaves a module that knows no adapter where it is. -/
theorem call_unknown (hids : ¬c.HasIds) (e : Call) :
    (call c e).path = c.path ∧ ∀ path, (call c e).fd = some path → path = c.path := by
  obtain ⟨fd, err, hopened, hok, hfailed⟩ := tryOpenFd_spec c.closeFd e.opens
  by_cases hopens : c.Opens e
  · obtain ⟨rfl, hopen⟩ := hok hopens
    unfold call reopen
    rw [show c.closeFd.tryOpenFd e.opens = (_, true) from Prod.ext hopened hopen]
    refine @applyUsbPolicy_unknown { c.closeFd with fd := some c.path, err := err } _ _ _ hids ?_
    exact fun path h => (Option.some.inj h).symm
  · obtain ⟨rfl, hclosed⟩ := hfailed hopens
    unfold call reopen
    rw [show c.closeFd.tryOpenFd e.opens = (_, false) from Prod.ext hopened hclosed]
    refine @applyUsbPolicy_unknown { c.closeFd with err := err } _ _ _ hids ?_
    exact fun path h => nomatch h

/-! ## When the adapter is the module's own -/

/-- A link that is the module's own makes an adapter its own. -/
theorem SameAdapter.of_byId {n : TtyNode} (hc : c.byId.str.nonempty = true)
    (heq : n.byId = c.byId) : c.SameAdapter n := by
  have hboth : c.BothLinked n := by
    refine ⟨hc, ?_⟩
    rw [TtyNode.linked, heq]
    exact hc
  exact ⟨fun _ => heq, fun h => absurd hboth h⟩

/-- Under the condition the port that opened and matches is that of the module's adapter, by
its link if the serial number is shared. -/
theorem Safe.matched {n : TtyNode} (hsafe : c.Safe e) (hopens : c.Opens e)
    (hport : e.snapshot.portAt c.path = some n) (hown : c.Own n) :
    c.SameAdapter n ∧ (e.snapshot.Shared c.serialId →
      c.byId.str.nonempty = true ∧ n.byId = c.byId) := by
  rcases hown with ⟨hserial, hshort⟩ | ⟨hc, heq⟩
  · obtain ⟨hsame, hlinks⟩ := hsafe.here hopens hserial n hport hshort
    exact ⟨hsame, fun hshared => ⟨(hlinks hshared).1, hsame.1 (hlinks hshared)⟩⟩
  · exact ⟨.of_byId hc heq, fun _ => ⟨hc, heq⟩⟩

/-- Under the condition a module takes no adapter but its own. -/
theorem Safe.guarded (hsafe : c.Safe e) : Guarded e.snapshot c (call c e) := by
  by_cases hids : c.HasIds
  · cases call_outcome hids e with
    | kept n hopens hport hown hpath hfd hstored =>
      obtain ⟨hsame, hlink⟩ := hsafe.matched hopens hport hown
      have htaken : ∀ path, Taken c (call c e) path → path = c.path := by
        rintro path (h | ⟨-, h⟩)
        · exact (Option.some.inj (hfd.symm.trans h)).symm
        · exact absurd hpath h
      refine ⟨fun _ path ht => ⟨n, htaken path ht ▸ hport, hown⟩,
        fun _ hshared path ht => ⟨n, htaken path ht ▸ hport, hlink hshared⟩, fun _ _ => ?_,
        fun _ => ⟨hpath, fun path h => htaken path (Or.inl h)⟩⟩
      refine ⟨n, hpath ▸ hport, hsame, ?_⟩
      rw [StoredFrom, hstored.1, hstored.2]
      constructor
      · split_ifs
        · exact Or.inl rfl
        · exact Or.inr rfl
      · split_ifs
        · exact Or.inl rfl
        · exact Or.inr rfl
    | moved n hserial hauto hmatches hmem hhint hport hfd hstored =>
      have hshort := (Snapshot.mem_carriers.mp hmem).2.1
      have htaken : ∀ path, Taken c (call c e) path → path = (call c e).path := by
        rintro path (h | ⟨h, -⟩)
        · rcases hfd with hfd | hfd
          · rw [hfd] at h
            cases h
          · exact (Option.some.inj (hfd.symm.trans h)).symm
        · exact h.symm
      have hsame : c.SameAdapter n := by
        by_cases hshared : e.snapshot.Shared c.serialId
        · exact .of_byId (hhint hshared).1 (hhint hshared).2
        · exact hsafe.elsewhere hauto hserial hmatches hshared n hmem
      exact ⟨fun _ path ht => ⟨n, htaken path ht ▸ hport, Or.inl ⟨hserial, hshort⟩⟩,
        fun _ hshared path ht => ⟨n, htaken path ht ▸ hport, hhint hshared⟩,
        fun _ _ => ⟨n, hport, hsame, Or.inr hstored.1, Or.inl hstored.2⟩,
        fun hoff => absurd hauto (by simp [hoff])⟩
    | gaveUp hmatches hscan hpath hfd hstored =>
      have hnone : ∀ path, ¬Taken c (call c e) path := by
        rintro path (h | ⟨-, h⟩)
        · rw [hfd] at h
          cases h
        · exact h hpath
      refine ⟨fun _ path ht => absurd ht (hnone path), fun _ _ path ht => absurd ht (hnone path),
        fun _ hreplaced => ?_, fun _ => ⟨hpath, fun path h => absurd (Or.inl h) (hnone path)⟩⟩
      exact absurd hreplaced (not_or.mpr ⟨not_not.mpr hstored.1, not_not.mpr hstored.2⟩)
  · exact ⟨fun h => absurd h hids, fun h => absurd (Or.inl h) hids, fun h => absurd h hids,
      fun _ => call_unknown hids e⟩

/-- A module that takes no adapter but its own meets the condition. -/
theorem Guarded.safe (hg : Guarded e.snapshot c (call c e)) : c.Safe e := by
  constructor
  · intro hopens hserial n hport hshort
    have hids : c.HasIds := Or.inl hserial
    have hown : c.Own n := Or.inl ⟨hserial, hshort⟩
    cases call_outcome hids e with
    | kept m _ hm _ hpath hfd hstored =>
      obtain rfl : m = n := Option.some.inj (hm.symm.trans hport)
      constructor
      · refine ⟨fun hboth => ?_, fun _ => ⟨hserial, hshort⟩⟩
        by_contra hne
        have hreplaced : Replaced c (call c e) := by
          refine Or.inr ?_
          rw [hstored.2]
          exact fun h => hne ((if_pos hboth.2).symm.trans h)
        obtain ⟨k, hk, hsame, -⟩ := hg.kept hids hreplaced
        obtain rfl : k = m := Option.some.inj (hk.symm.trans (hpath ▸ hm))
        exact hne (hsame.1 hboth)
      · intro hshared
        obtain ⟨k, hk, hc, heq⟩ := hg.shared hserial hshared c.path (Or.inl hfd)
        obtain rfl : k = m := Option.some.inj (hk.symm.trans hm)
        exact ⟨hc, by rw [TtyNode.linked, heq]; exact hc⟩
    | moved _ _ _ hmatches => exact absurd ⟨hopens, n, hport, hown⟩ hmatches
    | gaveUp hmatches => exact absurd ⟨hopens, n, hport, hown⟩ hmatches
  · intro hauto hserial hmatches hshared n hmem
    have hids : c.HasIds := Or.inl hserial
    cases call_outcome hids e with
    | kept m hopens hport hown => exact absurd ⟨hopens, m, hport, hown⟩ hmatches
    | moved m _ _ _ hm _ hport _ hstored =>
      obtain rfl : m = n := Snapshot.carriers_unique hshared hm hmem
      refine ⟨fun hboth => ?_, fun _ => ⟨hserial, (Snapshot.mem_carriers.mp hmem).2.1⟩⟩
      by_contra hne
      have hreplaced : Replaced c (call c e) := Or.inr (hstored.2 ▸ hne)
      obtain ⟨k, hk, hsame, -⟩ := hg.kept hids hreplaced
      obtain rfl : k = m := Option.some.inj (hk.symm.trans hport)
      exact hne (hsame.1 hboth)
    | gaveUp _ hscan =>
      rw [hscan hauto hserial hshared] at hmem
      cases hmem

/-- Under the condition the stored link, once known, stays. -/
theorem Safe.byId_kept (hsafe : c.Safe e) (hlinked : c.byId.str.nonempty = true) :
    (call c e).byId = c.byId := by
  cases call_outcome (Or.inr hlinked) e with
  | kept n hopens hport hown _ _ hstored =>
    obtain ⟨hsame, -⟩ := hsafe.matched hopens hport hown
    rw [hstored.2]
    split_ifs with hn
    · exact hsame.1 ⟨hlinked, hn⟩
    · rfl
  | moved n hserial hauto hmatches hmem hhint _ _ hstored =>
    rw [hstored.2]
    by_cases hshared : e.snapshot.Shared c.serialId
    · exact (hhint hshared).2
    · have hsame := hsafe.elsewhere hauto hserial hmatches hshared n hmem
      exact hsame.1 ⟨hlinked, (Snapshot.mem_carriers.mp hmem).2.2⟩
  | gaveUp _ _ _ _ hstored => exact hstored.2

end XdPort

/-- In every run of calls the module takes no adapter but its own in any of them exactly if
each call meets the condition; and the link it stores is then the same throughout. -/
theorem calls_guarded_iff (c : XdPort) (calls : List Call) :
    (Along call (fun c e => XdPort.Guarded e.snapshot c (call c e)) c calls ↔
        Along call XdPort.Safe c calls) ∧
      (Along call XdPort.Safe c calls → c.byId.str.nonempty = true →
        (run call c calls).byId = c.byId) := by
  constructor
  · have hiff : ∀ c e, True → True →
        (XdPort.Guarded e.snapshot c (call c e) ↔ XdPort.Safe c e) :=
      fun _ _ _ _ => ⟨XdPort.Guarded.safe, XdPort.Safe.guarded⟩
    exact along_congr (fun _ _ _ _ _ => trivial) hiff trivial fun _ _ => trivial
  · intro hsafe hlinked
    have hstep : ∀ d e, d.byId = c.byId → XdPort.Safe d e → (call d e).byId = c.byId :=
      fun d e hd hs => (hs.byId_kept (hd ▸ hlinked)).trans hd
    exact invariant_run hstep rfl hsafe

/-! ## Two adapters with one serial number -/

/-- A tty of an adapter with the serial number that most of its kind carry. -/
def cp2102Node (tty link : String) (h : (CString.lit tty).nonempty = true ∧
    47 ∉ (CString.lit tty).bytes ∧ (CString.lit tty).length ≤ 41 ∧
    (CBuf.copy 256 (CString.lit link)).str.bytes.head? ≠ some 46) : TtyNode :=
  { tty := CString.lit tty
    byId := CBuf.copy 256 (CString.lit link)
    serial := ascii "0001\n"
    idVendor := ascii "10c4\n"
    idProduct := ascii "ea60\n"
    named := ⟨h.1, h.2.1⟩
    short := h.2.2.1
    shown := h.2.2.2 }

/-- The adapter of the module, which is now on the second port. -/
def ownNode : TtyNode := cp2102Node "ttyUSB1" "usb-CP2102N_0001-if00-port0" (by decide +kernel)

/-- Another adapter, on the port the module used to have. -/
def otherNode : TtyNode := cp2102Node "ttyUSB0" "usb-CP2102N_0001-if00-port1" (by decide +kernel)

/-- Both adapters. -/
def twoAdapters : Snapshot := ⟨[otherNode, ownNode], by decide +kernel⟩

/-- A module that knows its adapter and has its port from before. -/
def swappedPort : XdPort :=
  { uuid := CBuf.copy 40 (CString.lit "aaaaaaaa-bbbb-4ccc-8ddd-eeeeeeeeee01")
    path := CBuf.copy 128 (CString.lit "/dev/ttyUSB0")
    serialId := CBuf.copy 64 (CString.lit "0001")
    byId := ownNode.byId
    autoPort := true
    fd := none
    ioActive := false
    err := CBuf.zero 96
    ring := [] }

/-- The other adapter's port is kept, and its link is stored. -/
theorem swapped_port_adopted :
    (call swappedPort ⟨twoAdapters, none, none⟩).fd = some swappedPort.path ∧
      twoAdapters.portAt swappedPort.path = some otherNode ∧
      (call swappedPort ⟨twoAdapters, none, none⟩).byId = otherNode.byId ∧
      ¬XdPort.Guarded twoAdapters swappedPort (call swappedPort ⟨twoAdapters, none, none⟩) := by
  have hfd : (call swappedPort ⟨twoAdapters, none, none⟩).fd = some swappedPort.path := by
    decide +kernel
  have hport : twoAdapters.portAt swappedPort.path = some otherNode := by decide +kernel
  refine ⟨hfd, hport, by decide +kernel, fun hg => ?_⟩
  obtain ⟨n, hn, -, hlink⟩ := hg.shared (by decide +kernel) (by decide +kernel) _ (Or.inl hfd)
  obtain rfl : n = otherNode := Option.some.inj (hn.symm.trans hport)
  exact absurd hlink (by decide +kernel)

end MoonFlare.Usb
