import MoonFlare.CString

/-!
# The Bluetooth helper

One process for each adapter serves up to eight clients, each with a session that
searches for its device, connects, and hands notifications on. There is one
discovery for all of them; whoever starts it for its device owns it. The calls to
BlueZ answer as their surroundings decide. Beside the state a record of the stops is
kept, which the code does not have.
-/

namespace MoonFlare.Gatt

/-! ## Clients -/

/-- `MAX_CLI`. -/
abbrev maxCli : ℕ := 8

/-- A client's place in `g_cli`. -/
abbrev Idx := Fin maxCli

/-- The states of a session. -/
inductive Sess where
  | idle
  | scan
  | connect
  | waitGatt
  | ready
  deriving DecidableEq

/-- A line for a client. -/
inductive Reply where
  | ok (cmd : String) (address : CString)
  | error (address : CString) (message : String)
  | state (address : CString) (st detail : String)
  | scan
  deriving DecidableEq

/-- `cli_t`, apart from its input and the size of its output. -/
structure Cli where
  /-- The socket is open. -/
  fd : Bool
  mac : CBuf 32
  bound : Bool
  acked : Bool
  out : List Reply
  sess : Sess
  deadline : ℚ
  devPath : CBuf 128
  writePath : CBuf 192
  notifyPath : CBuf 192
  reconnectAt : ℚ

/-- A place without a client. -/
def Cli.none : Cli :=
  { fd := false, mac := CBuf.zero 32, bound := false, acked := false, out := [], sess := .idle
    deadline := 0, devPath := CBuf.zero 128, writePath := CBuf.zero 192
    notifyPath := CBuf.zero 192, reconnectAt := 0 }

/-- `queue_line`. -/
def Cli.queueLine (c : Cli) (r : Reply) : Cli := { c with out := c.out ++ [r] }

/-- `queue_ok`. -/
def Cli.queueOk (c : Cli) (cmd : String) : Cli := c.queueLine (.ok cmd c.mac.str)

/-- `queue_err`. -/
def Cli.queueErr (c : Cli) (msg : String) : Cli := c.queueLine (.error c.mac.str msg)

/-- `queue_state`. -/
def Cli.queueState (c : Cli) (st detail : String) : Cli := c.queueLine (.state c.mac.str st detail)

/-- `sess_reset`. -/
def Cli.sessReset (c : Cli) : Cli :=
  { c with
    sess := .idle, devPath := CBuf.zero 128, writePath := CBuf.zero 192
    notifyPath := CBuf.zero 192 }

/-! ## The process -/

/-- A call of `StopDiscovery`: on whose behalf, and who owned the discovery. -/
structure Stop where
  client : Idx
  owner : Option Idx
  deriving DecidableEq

/-- The global state. -/
structure World where
  cli : Idx → Cli
  /-- `g_scan_owner`. -/
  scanOwner : Option Idx
  /-- `g_bus` is there. -/
  bus : Bool
  /-- `g_adapter_path`. -/
  adapterPath : CBuf 64
  /-- The process has ended. -/
  exited : Bool
  /-- A discovery was started and has not been stopped since. -/
  searching : Bool
  /-- The stops so far. -/
  stops : List Stop

/-- What `WriteValue` comes to. -/
inductive WriteEnd where
  | ok
  | failed
  /-- The error says that the link is lost. -/
  | lost
  deriving DecidableEq

/-- What the calls to BlueZ answer, and the clock. -/
structure Bluez where
  now : ℚ
  /-- `device_in_objects`. -/
  inObjects : CString → Bool
  /-- `device_connect` works. -/
  connects : Bool
  /-- `start_discovery` works. -/
  discovers : Bool
  /-- `services_resolved`. -/
  resolved : Bool
  /-- The paths that `discover_ffe1` finds to write to and to listen at. -/
  ffe1 : Option (CBuf 192 × CBuf 192)
  /-- `start_notify` works. -/
  notifies : Bool
  write : WriteEnd

/-- A client changes. -/
def World.set (w : World) (i : Idx) (c : Cli) : World :=
  { w with cli := fun j => if j = i then c else w.cli j }

/-- `stop_discovery`. -/
def stopDiscovery (w : World) (i : Idx) : World :=
  { w with searching := false, stops := w.stops ++ [⟨i, w.scanOwner⟩] }

/-- `start_discovery`. -/
def startDiscovery (w : World) (e : Bluez) : World :=
  if e.discovers then { w with searching := true } else w

/-- `sess_fail`, where it gives up the discovery. -/
def dropScan (w : World) (i : Idx) : World :=
  if w.scanOwner = some i then { stopDiscovery w i with scanOwner := none } else w

/-- `RECONNECT_S`. -/
def reconnectS : ℚ := 1

/-- `sess_fail` for the client. -/
def Cli.sessFail (c : Cli) (msg : String) (now : ℚ) : Cli :=
  let retry := c.bound && c.mac.str.nonempty
  let c := { (c.queueErr msg).sessReset with acked := false }
  if retry then { c with reconnectAt := now + reconnectS } else c

/-- `sess_fail`. -/
def sessFail (w : World) (i : Idx) (msg : String) (now : ℚ) : World :=
  let w := dropScan w i
  w.set i ((w.cli i).sessFail msg now)

/-- `CONNECT_S`. -/
def connectS : ℚ := 20

/-- `GATT_WAIT_S`. -/
def gattWaitS : ℚ := 4

/-- The device is there: the session goes on to connect to it. -/
def connectDevice (w : World) (i : Idx) (e : Bluez) : World :=
  if e.connects then
    w.set i { w.cli i with deadline := e.now + gattWaitS, sess := .waitGatt }
  else sessFail (w.set i { w.cli i with sess := .connect }) i "connect failed" e.now

/-- A byte of an address in the path of its device. -/
def pathByte (b : UInt8) : UInt8 := if b = 58 then 95 else if 97 ≤ b ∧ b ≤ 102 then b - 32 else b

/-- `mac_to_path`. -/
def macToPath (adapterPath : CBuf 64) (mac : CBuf 32) : CBuf 128 :=
  CBuf.copy 128 (adapterPath.str ++ CString.lit "/dev_" ++
    CString.ofBytes (mac.str.bytes.map pathByte))

/-- `sess_advance`. -/
def sessAdvance (w : World) (i : Idx) (e : Bluez) : World :=
  let c := w.cli i
  match c.sess with
  | .scan =>
    if e.inObjects c.devPath.str then
      let w := stopDiscovery w i
      let w := if w.scanOwner = some i then { w with scanOwner := none } else w
      connectDevice (w.set i (c.queueState "scanning" "found")) i e
    else if c.deadline < e.now then
      let w := stopDiscovery w i
      let w := if w.scanOwner = some i then { w with scanOwner := none } else w
      sessFail w i "connect timeout" e.now
    else w
  | .waitGatt =>
    if e.resolved ∨ c.deadline < e.now then
      match e.ffe1 with
      | none =>
        sessFail (w.set i { c with writePath := CBuf.zero 192, notifyPath := CBuf.zero 192 }) i
          "GATT discovery returned no services. Try: bluetoothctl remove <MAC> && systemctl restart bluetooth"
          e.now
      | some (writePath, notifyPath) =>
        let c := { c with writePath := writePath, notifyPath := notifyPath, acked := true }
        if e.notifies then
          w.set i ((({ c with sess := .ready } : Cli).queueOk "connect").queueState "connected" "")
        else sessFail (w.set i c) i "StartNotify failed" e.now
    else w
  | _ => w

/-- `begin_connect`. -/
def beginConnect (w : World) (i : Idx) (e : Bluez) : World :=
  let c := { w.cli i with reconnectAt := 0 }
  if !w.bus then w.set i (c.queueErr "no system bus")
  else if w.scanOwner ≠ none ∧ w.scanOwner ≠ some i then
    w.set i { c with sess := .scan, deadline := e.now + connectS }
  else
    let c := { c with devPath := macToPath w.adapterPath c.mac }
    if e.inObjects c.devPath.str then connectDevice (w.set i { c with sess := .connect }) i e
    else
      let c := { c with sess := .scan, deadline := e.now + connectS }
      let w := startDiscovery { w.set i (c.queueState "scanning" "") with scanOwner := some i } e
      if e.discovers then w else sessFail w i "StartDiscovery failed" e.now

/-- `mac_taken`. -/
def macTaken (w : World) (mac : CString) (self : Idx) : Bool :=
  decide (∃ i, i ≠ self ∧ (w.cli i).fd = true ∧ (w.cli i).bound = true ∧
    (w.cli i).mac.str.eqNoCase mac = true)

/-! ## Commands -/

/-- What `handle_line` reads of a line. -/
inductive Command where
  | quit
  | scan
  | connect (address : CBuf 40)
  | write (address : CBuf 40)
  | disconnect (address : CBuf 40)
  | other

/-- The part of `handle_line` for `scan`. -/
def handleScan (w : World) (i : Idx) (e : Bluez) : World :=
  let w := if w.bus then stopDiscovery (startDiscovery w e) i else w
  w.set i ((w.cli i).queueLine .scan)

/-- The part of `handle_line` for `connect`. -/
def handleConnect (w : World) (i : Idx) (address : CBuf 40) (e : Bluez) : World :=
  if !address.str.nonempty then w.set i ((w.cli i).queueErr "missing address")
  else if macTaken w address.str i then w.set i ((w.cli i).queueErr "mac in use")
  else
    beginConnect (w.set i { w.cli i with
      mac := CBuf.copy 32 address.str, bound := true, acked := false }) i e

/-- The part of `handle_line` for `write`, with `gatt_write`. -/
def handleWrite (w : World) (i : Idx) (address : CBuf 40) (e : Bluez) : World :=
  let c := w.cli i
  if !c.acked || !c.bound then w.set i (c.queueErr "handshake required")
  else if address.str.nonempty && !address.str.eqNoCase c.mac.str then
    w.set i (c.queueErr "address mismatch")
  else if !c.writePath.str.nonempty then w.set i (c.queueErr "write failed")
  else
    match e.write with
    | .ok => w.set i (c.queueOk "write")
    | .failed => w.set i (c.queueErr "write failed")
    | .lost => sessFail w i "disconnected" e.now

/-- A line names the address of another device than the client's. -/
def mismatch (c : Cli) (address : CBuf 40) : Bool :=
  address.str.nonempty && c.mac.str.nonempty && !address.str.eqNoCase c.mac.str

/-- The part of `handle_line` for `disconnect`. -/
def handleDisconnect (w : World) (i : Idx) (address : CBuf 40) : World :=
  let c := w.cli i
  if mismatch c address then w.set i (c.queueErr "address mismatch")
  else
    let c := { c.sessReset with acked := false, bound := false, reconnectAt := 0 }
    w.set i { c.queueOk "disconnect" with mac := CBuf.zero 32 }

/-- `handle_line`. -/
def handleLine (w : World) (i : Idx) (cmd : Command) (e : Bluez) : World :=
  match cmd with
  | .quit => { w with exited := true }
  | .scan => handleScan w i e
  | .connect address => handleConnect w i address e
  | .write address => handleWrite w i address e
  | .disconnect address => handleDisconnect w i address
  | .other => w

/-- `cli_close`. -/
def cliClose (w : World) (i : Idx) : World := (dropScan w i).set i Cli.none

/-! ## The loop -/

/-- What the loop meets. -/
inductive Event where
  /-- A client connects. -/
  | accept
  /-- A line of a client. -/
  | line (i : Idx) (cmd : Command) (e : Bluez)
  /-- A client's socket ends or fails, when it is read or written. -/
  | hangUp (i : Idx)
  /-- The loop comes to a client that may reconnect. -/
  | reconnect (i : Idx) (e : Bluez)
  /-- The loop comes to a client whose session may go on. -/
  | advance (i : Idx) (e : Bluez)
  /-- BlueZ tells that a client's device is gone, in `on_device_props` or
  `on_if_removed`. -/
  | gone (i : Idx) (now : ℚ)

/-- The first free place. -/
def freeSlot (w : World) : Option Idx := (List.finRange maxCli).find? fun i => !(w.cli i).fd

/-- What the process does. -/
def step (w : World) (ev : Event) : World :=
  if w.exited then w
  else
    match ev with
    | .accept =>
      match freeSlot w with
      | some i => w.set i { Cli.none with fd := true }
      | none => w
    | .line i cmd e => if (w.cli i).fd then handleLine w i cmd e else w
    | .hangUp i => if (w.cli i).fd then cliClose w i else w
    | .reconnect i e =>
      let c := w.cli i
      if c.fd ∧ c.bound ∧ c.mac.str.nonempty ∧ c.sess = .idle ∧ 0 < c.reconnectAt ∧
          c.reconnectAt ≤ e.now then
        beginConnect w i e
      else w
    | .advance i e => if (w.cli i).fd then sessAdvance w i e else w
    | .gone i now =>
      let c := w.cli i
      if c.fd ∧ (c.sess = .ready ∨ c.sess = .waitGatt) then sessFail w i "disconnected" now else w

/-- The process when it starts to listen. -/
def init (bus : Bool) (adapterPath : CBuf 64) : World :=
  { cli := fun _ => Cli.none, scanOwner := none, bus := bus, adapterPath := adapterPath
    exited := false, searching := false, stops := [] }

end MoonFlare.Gatt
