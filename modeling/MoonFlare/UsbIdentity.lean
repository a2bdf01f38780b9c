import MoonFlare.Runs
import MoonFlare.TextSearch

/-!
# The identity of a serial adapter

A tty is known by the name of its link under `/dev/serial/by-id`, by the serial number
that `sysfs` shows, and by its vendor and product. A module that knows its adapter keeps
an open port that carries the identity, or scans the links for the serial number, and
writes the identity it finds back. One call sees one snapshot of the ttys.
-/

namespace MoonFlare.Usb

/-! ## Snapshots -/

/-- A tty as `/dev` and `/sys` show it. -/
structure TtyNode where
  /-- The name, such as `ttyUSB0`. -/
  tty : CString
  /-- The name of the link to it under `/dev/serial/by-id`; empty without a link. -/
  byId : CBuf 256
  /-- What the file `serial` of its device holds; empty without the file. -/
  serial : Bytes
  /-- What the file `idVendor` holds. -/
  idVendor : Bytes
  /-- What the file `idProduct` holds. -/
  idProduct : Bytes
  /-- A file name is not empty and has no slash. -/
  named : tty.nonempty = true ∧ 47 ∉ tty.bytes
  /-- No path with the name in it is cut. -/
  short : tty.length ≤ 41
  /-- The scan passes over a link whose name starts with a dot. -/
  shown : byId.str.bytes.head? ≠ some 46
  deriving DecidableEq

/-- The ttys at one moment, those with a link in the order of the directory. -/
structure Snapshot where
  nodes : List TtyNode
  /-- Two ttys have two names. -/
  distinct : (nodes.map TtyNode.tty).Nodup

/-- `mf_usb_id_t`. -/
structure UsbId where
  path : CBuf 128
  serialId : CBuf 64
  byId : CBuf 256
  vidPid : CBuf 16
  deriving DecidableEq

/-- A zeroed identity. -/
def UsbId.zero : UsbId := ⟨CBuf.zero 128, CBuf.zero 64, CBuf.zero 256, CBuf.zero 16⟩

/-! ## Reading an identity -/

/-- What `trim_nl` cuts off. -/
def isTrimmed (b : UInt8) : Bool := b == 10 || b == 13 || b == 32 || b == 9

/-- `trim_nl`. -/
def trimNl (s : CString) : CString := CString.ofBytes (s.bytes.rdropWhile isTrimmed)

/-- `read_text`: the first line as far as the buffer goes, without the blanks at its end.
An empty text stands for a failure. -/
def readText (cap : ℕ) [NeZero cap] (text : Bytes) : CBuf cap :=
  CBuf.copy cap (trimNl (CString.ofBytes ((text.takeWhile (· ≠ 10)).take (cap - 1))))

/-- `tty_basename`. -/
def ttyBasename (devPath : CString) : CString := devPath.afterLast 47

/-- `make_dev_path`. -/
def makeDevPath (tty : CString) : CBuf 128 :=
  if tty.bytes.head? = some 47 then CBuf.copy 128 (tty.take 127)
  else CBuf.copy 128 (CString.lit "/dev/" ++ tty.take 122)

/-- `serial_from_byid`: the last field of the name in front of `-if`. An empty text stands
for a failure. -/
def serialFromById (byId : CString) : CBuf 64 :=
  match byId.strstr (CString.lit "-if") with
  | none => CBuf.zero 64
  | some n =>
    let front := byId.take n
    let us := front.afterLast 95
    if 95 ∈ front.bytes ∧ us.nonempty ∧ us.length < 64 then CBuf.copy 64 us else CBuf.zero 64

/-- `byid_for_tty`: the name of the link to the tty. -/
def byIdForTty (nodes : List TtyNode) (tty : CString) : CBuf 256 :=
  match nodes.find? fun n => n.tty == tty with
  | some n => n.byId
  | none => CBuf.zero 256

/-- Vendor and product of a tty, when both are known. -/
def TtyNode.vidPid (n : TtyNode) : CBuf 16 :=
  let vend := readText 8 n.idVendor
  let prod := readText 8 n.idProduct
  if vend.str.nonempty && prod.str.nonempty then
    CBuf.copy 16 (vend.str ++ CString.lit ":" ++ prod.str)
  else CBuf.zero 16

/-- `sysfs_identity`: the serial number, and vendor and product. -/
def sysfsIdentity (nodes : List TtyNode) (tty : CString) : CBuf 64 × CBuf 16 :=
  match nodes.find? fun n => n.tty == tty with
  | none => (CBuf.zero 64, CBuf.zero 16)
  | some n => (readText 64 n.serial, n.vidPid)

/-- The serial number of an identity: that of `sysfs`, else that of the link, else vendor
and product. -/
def serialOf (serial : CBuf 64) (byId : CBuf 256) (vidPid : CBuf 16) : CBuf 64 :=
  let linked := if !serial.str.nonempty && byId.str.nonempty then serialFromById byId.str
    else serial
  if !linked.str.nonempty && vidPid.str.nonempty then
    CBuf.copy 64 (CString.lit "usb-" ++ vidPid.str)
  else linked

/-- `mf_usb_identify`; nothing without an identity. -/
def mfUsbIdentify (s : Snapshot) (devPath : CString) : Option UsbId :=
  let tty := ttyBasename devPath
  if !tty.nonempty then none
  else
    let byId := byIdForTty s.nodes tty
    let found := sysfsIdentity s.nodes tty
    let serialId := serialOf found.1 byId found.2
    if !serialId.str.nonempty && !byId.str.nonempty && !found.2.str.nonempty then none
    else some ⟨makeDevPath tty, serialId, byId, found.2⟩

/-! ## Finding an adapter -/

/-- What `mf_usb_find_by_serial` returns: -1, -2 and 0. -/
inductive Found where
  | nowhere
  | ambiguous
  | found (id : UsbId)
  deriving DecidableEq

/-- The adapters with the serial number that the scan notes before it stops: eight at most. -/
def serialHits (s : Snapshot) (serialId : CBuf 64) : List UsbId :=
  (((s.nodes.filter fun n => n.byId.str.nonempty).filterMap fun n =>
    mfUsbIdentify s (makeDevPath n.tty).str).filter fun id => id.serialId == serialId).take 8

/-- `mf_usb_find_by_serial`: of several the last that carries the hinted name. -/
def mfUsbFindBySerial (s : Snapshot) (serialId : CBuf 64) (byIdHint : CBuf 256) : Found :=
  if !serialId.str.nonempty then .nowhere
  else
    match serialHits s serialId with
    | [] => .nowhere
    | [id] => .found id
    | hits =>
      match (hits.filter fun id => byIdHint.str.nonempty && id.byId == byIdHint).getLast? with
      | some id => .found id
      | none => .ambiguous

/-! ## The policy -/

/-- `mf_usb_want_t`. -/
structure UsbWant where
  path : CBuf 128
  serialId : CBuf 64
  byId : CBuf 256
  autoPort : Bool
  pathOk : Bool
  deriving DecidableEq

/-- `mf_endpoint_event_t`. -/
structure EndpointEvent where
  uuid : CBuf 40
  path : CBuf 128
  serialId : CBuf 64
  byId : CBuf 256
  deriving DecidableEq

/-- `MF_USB_USE` and the other results. -/
inductive Verdict where
  | use
  | learn
  | relocate
  | error
  deriving DecidableEq

/-- `RING_CAP`. -/
def ringCap : ℕ := 16

/-- `mf_endpoint_enqueue`. -/
def mfEndpointEnqueue (ring : List EndpointEvent) (ev : EndpointEvent) : List EndpointEvent :=
  if !ev.uuid.str.nonempty then ring
  else if ringCap ≤ ring.length then ring
  else ring ++ [ev]

/-- `publish`. -/
def publish (uuid : CBuf 40) (id : UsbId) (ring : List EndpointEvent) : List EndpointEvent :=
  if !uuid.str.nonempty then ring
  else mfEndpointEnqueue ring ⟨uuid, id.path, id.serialId, id.byId⟩

/-- `serial_matches`. -/
def serialMatches (id : UsbId) (want : UsbWant) : Bool :=
  (want.serialId.str.nonempty && id.serialId.str.nonempty && want.serialId == id.serialId) ||
    (want.byId.str.nonempty && id.byId.str.nonempty && want.byId == id.byId)

/-- `mf_usb_resolve` when the open port is not kept. -/
def resolveScan (s : Snapshot) (uuid : CBuf 40) (want : UsbWant) (ring : List EndpointEvent) :
    Verdict × UsbId × List EndpointEvent :=
  if !want.autoPort then (.error, UsbId.zero, ring)
  else if !want.serialId.str.nonempty then (.error, UsbId.zero, ring)
  else
    match mfUsbFindBySerial s want.serialId want.byId with
    | .found id =>
      if want.path.str.nonempty && id.path == want.path then (.use, id, ring)
      else (.relocate, id, publish uuid id ring)
    | _ => (.error, UsbId.zero, ring)

/-- `mf_usb_resolve`. -/
def mfUsbResolve (s : Snapshot) (uuid : CBuf 40) (want : UsbWant) (ring : List EndpointEvent) :
    Verdict × UsbId × List EndpointEvent :=
  if want.path.str.nonempty && want.pathOk then
    match mfUsbIdentify s want.path.str with
    | some id =>
      if !want.serialId.str.nonempty && !want.byId.str.nonempty then
        (.learn, { id with path := want.path }, publish uuid { id with path := want.path } ring)
      else if serialMatches id want then (.use, { id with path := want.path }, ring)
      else resolveScan s uuid want ring
    | none =>
      if !want.serialId.str.nonempty && !want.byId.str.nonempty then
        (.use, { UsbId.zero with path := want.path }, ring)
      else resolveScan s uuid want ring
  else resolveScan s uuid want ring

/-! ## The identity of a tty -/

/-- The short serial number of a tty. -/
def TtyNode.shortSerial (n : TtyNode) : CBuf 64 :=
  serialOf (readText 64 n.serial) n.byId n.vidPid

/-- All that is known of a tty. -/
def TtyNode.id (n : TtyNode) : UsbId := ⟨makeDevPath n.tty, n.shortSerial, n.byId, n.vidPid⟩

/-- The tty has a link. -/
def TtyNode.linked (n : TtyNode) : Bool := n.byId.str.nonempty

namespace Snapshot

variable (s : Snapshot)

/-- The tty that a path names. -/
def portAt (path : CBuf 128) : Option TtyNode :=
  s.nodes.find? fun n => n.tty == ttyBasename path.str

/-- The ttys with a link that carry a serial number. -/
def carriers (serialId : CBuf 64) : List TtyNode :=
  s.nodes.filter fun n => n.shortSerial == serialId && n.linked

/-- Two links lead to one short serial number. -/
def Shared (serialId : CBuf 64) : Prop := 2 ≤ (s.carriers serialId).length

instance (serialId : CBuf 64) : Decidable (s.Shared serialId) :=
  inferInstanceAs (Decidable (2 ≤ _))

variable {s}

theorem mem_carriers {serialId : CBuf 64} {n : TtyNode} :
    n ∈ s.carriers serialId ↔ n ∈ s.nodes ∧ n.shortSerial = serialId ∧ n.linked = true := by
  simp [carriers]

/-- A serial number that is not shared has one carrier. -/
theorem carriers_unique {serialId : CBuf 64} {m n : TtyNode} (hshared : ¬s.Shared serialId)
    (hm : m ∈ s.carriers serialId) (hn : n ∈ s.carriers serialId) : m = n := by
  unfold Shared at hshared
  have hpos := List.length_pos_of_mem hm
  have hone : (s.carriers serialId).length = 1 := by omega
  obtain ⟨k, hk⟩ := List.length_eq_one_iff.mp hone
  rw [hk, List.mem_singleton] at hm hn
  rw [hm, hn]

theorem portAt_spec {path : CBuf 128} {n : TtyNode} (h : s.portAt path = some n) :
    n ∈ s.nodes ∧ n.tty = ttyBasename path.str :=
  ⟨List.mem_of_find?_eq_some h, by simpa using List.find?_some h⟩

/-- A tty is found by its name. -/
theorem find_tty {n : TtyNode} (h : n ∈ s.nodes) :
    (s.nodes.find? fun m => m.tty == n.tty) = some n := by
  have hsome : (s.nodes.find? fun m => m.tty == n.tty).isSome = true := by
    rw [List.find?_isSome]
    exact ⟨n, h, by simp⟩
  obtain ⟨m, hm⟩ := Option.isSome_iff_exists.mp hsome
  have htty : m.tty = n.tty := by simpa using List.find?_some hm
  have hsame : m = n :=
    List.inj_on_of_nodup_map s.distinct (List.mem_of_find?_eq_some hm) h htty
  rw [hm, hsame]

end Snapshot

/-- The base name of the path made for a tty is its name. -/
theorem ttyBasename_makeDevPath (n : TtyNode) : ttyBasename (makeDevPath n.tty).str = n.tty := by
  have hshort := n.short
  have hslash : n.tty.bytes.head? ≠ some 47 := fun h => n.named.2 (List.mem_of_head? h)
  have hcut : n.tty.take 122 = n.tty := CString.take_of_length_le (by omega)
  have hlen : (CString.lit "/dev/" ++ n.tty).length < 128 := by
    have hdev : (CString.lit "/dev/").bytes.length = 5 := by decide +kernel
    simp only [CString.length, CString.bytes_append, List.length_append] at hshort ⊢
    omega
  have hdev : (CString.lit "/dev/").bytes = (CString.lit "/dev").bytes ++ [47] := by decide +kernel
  rw [makeDevPath, if_neg hslash, hcut, CBuf.str_copy_of_lt hlen]
  exact CString.afterLast_append hdev n.named.2

theorem Snapshot.portAt_makeDevPath {s : Snapshot} {n : TtyNode} (h : n ∈ s.nodes) :
    s.portAt (makeDevPath n.tty) = some n := by
  rw [Snapshot.portAt, ttyBasename_makeDevPath]
  exact Snapshot.find_tty h

/-- Nothing is known of a path that names no tty. -/
theorem mfUsbIdentify_none {s : Snapshot} {path : CBuf 128} (h : s.portAt path = none) :
    mfUsbIdentify s path.str = none := by
  have hfind : (s.nodes.find? fun n => n.tty == ttyBasename path.str) = none := h
  have hserial : serialOf (CBuf.zero 64) (CBuf.zero 256) (CBuf.zero 16) = CBuf.zero 64 := by
    decide +kernel
  unfold mfUsbIdentify byIdForTty sysfsIdentity
  dsimp only
  rw [hfind]
  simp [hserial]

/-- What is known of a path is what is known of its tty, unless that is nothing. -/
theorem mfUsbIdentify_some {s : Snapshot} {path : CBuf 128} {n : TtyNode}
    (h : s.portAt path = some n) :
    mfUsbIdentify s path.str =
      if n.shortSerial.str.nonempty || n.linked || n.vidPid.str.nonempty then some n.id
      else none := by
  obtain ⟨-, htty⟩ := Snapshot.portAt_spec h
  have hfind : (s.nodes.find? fun n => n.tty == ttyBasename path.str) = some n := h
  have hnamed : ¬(!n.tty.nonempty) = true := by simp [n.named.1]
  unfold mfUsbIdentify byIdForTty sysfsIdentity
  dsimp only
  rw [hfind]
  rw [← htty, if_neg hnamed]
  change (if (!n.shortSerial.str.nonempty && !n.linked && !n.vidPid.str.nonempty) = true then none
    else some n.id) = _
  rw [← Bool.not_or, ← Bool.not_or]
  cases n.shortSerial.str.nonempty || n.linked || n.vidPid.str.nonempty <;> rfl

/-- An identity that is read is that of the tty. -/
theorem mfUsbIdentify_eq_some {s : Snapshot} {path : CBuf 128} {id : UsbId}
    (h : mfUsbIdentify s path.str = some id) : ∃ n, s.portAt path = some n ∧ id = n.id := by
  cases hport : s.portAt path with
  | none => rw [mfUsbIdentify_none hport] at h; cases h
  | some n =>
    rw [mfUsbIdentify_some hport] at h
    split_ifs at h
    exact ⟨n, rfl, (Option.some.inj h).symm⟩

/-! ## What the scan finds -/

/-- The adapters noted are those of the carriers. -/
theorem serialHits_eq (s : Snapshot) (serialId : CBuf 64) :
    serialHits s serialId = ((s.carriers serialId).map TtyNode.id).take 8 := by
  have hread : ∀ n ∈ s.nodes.filter fun n => n.byId.str.nonempty,
      mfUsbIdentify s (makeDevPath n.tty).str = some n.id := by
    intro n hn
    obtain ⟨hmem, hlinked⟩ := List.mem_filter.mp hn
    have hcond : (n.shortSerial.str.nonempty || n.linked || n.vidPid.str.nonempty) = true := by
      simp [TtyNode.linked, hlinked]
    rw [mfUsbIdentify_some (Snapshot.portAt_makeDevPath hmem), if_pos hcond]
  have hmap : ((s.nodes.filter fun n => n.byId.str.nonempty).filterMap fun n =>
      mfUsbIdentify s (makeDevPath n.tty).str) =
      (s.nodes.filter fun n => n.byId.str.nonempty).map TtyNode.id := by
    rw [List.filterMap_congr hread, List.filterMap_eq_map']
  rw [serialHits, hmap, List.filter_map, List.filter_filter]
  rfl

/-- A single carrier is found. -/
theorem mfUsbFindBySerial_single {s : Snapshot} {serialId : CBuf 64} {hint : CBuf 256}
    {n : TtyNode} (hserial : serialId.str.nonempty = true) (hmem : n ∈ s.carriers serialId)
    (hshared : ¬s.Shared serialId) : mfUsbFindBySerial s serialId hint = .found n.id := by
  have hone : s.carriers serialId = [n] := by
    have hall : ∀ m ∈ s.carriers serialId, m = n :=
      fun m hm => Snapshot.carriers_unique hshared hm hmem
    refine (List.eq_replicate_of_mem hall).trans ?_
    unfold Snapshot.Shared at hshared
    have hpos := List.length_pos_of_mem hmem
    rw [show (s.carriers serialId).length = 1 by omega]
    rfl
  unfold mfUsbFindBySerial
  rw [serialHits_eq, hone]
  simp [hserial]

/-- What is found carries the serial number, and the hinted name when the number is shared. -/
theorem mfUsbFindBySerial_found {s : Snapshot} {serialId : CBuf 64} {hint : CBuf 256} {id : UsbId}
    (h : mfUsbFindBySerial s serialId hint = .found id) :
    ∃ n ∈ s.carriers serialId, id = n.id ∧
      (s.Shared serialId → hint.str.nonempty = true ∧ n.byId = hint) := by
  have hhit : ∀ id ∈ serialHits s serialId, ∃ n ∈ s.carriers serialId, n.id = id := by
    intro id hid
    rw [serialHits_eq] at hid
    exact List.mem_map.mp (List.mem_of_mem_take hid)
  unfold mfUsbFindBySerial at h
  split at h
  · cases h
  · cases hhits : serialHits s serialId with
    | nil => rw [hhits] at h; cases h
    | cons first rest =>
      cases rest with
      | nil =>
        rw [hhits] at h
        obtain rfl : first = id := Found.found.inj h
        obtain ⟨n, hn, hid⟩ := hhit first (hhits ▸ List.mem_cons_self)
        refine ⟨n, hn, hid.symm, fun hshared => absurd hshared ?_⟩
        have hlen := congrArg List.length hhits
        rw [serialHits_eq, List.length_take, List.length_map, List.length_singleton] at hlen
        unfold Snapshot.Shared
        omega
      | cons second rest =>
        rw [hhits] at h
        dsimp only at h
        split at h
        next hit hlast =>
          obtain rfl : hit = id := Found.found.inj h
          have hmem := List.mem_of_mem_getLast? (Option.mem_def.mpr hlast)
          obtain ⟨hin, hhint⟩ := List.mem_filter.mp hmem
          obtain ⟨n, hn, rfl⟩ := hhit hit (hhits ▸ hin)
          simp only [Bool.and_eq_true, beq_iff_eq] at hhint
          exact ⟨n, hn, rfl, fun _ => hhint⟩
        next => cases h

end MoonFlare.Usb
