import MoonFlare.TuiHttp

/-!
# What becomes of the writes of the terminal interface

Every write that is accepted should go out once, whole and in its turn, unless the
connection that carries it fails. The client has one slot for a write that waits, and
fixed buffers: a second write that waits takes the place of the first, one made before
the pump has begun the first goes ahead of it, a long one is cut, and a reply that comes
before its request is out ends that request. These, and another connection made while a
write waits, are all the ways in which a write goes wrong.
-/

namespace MoonFlare.TuiHttp

open Runs

/-! ## The promise -/

namespace HttpCli

/-- What is begun of the requests, in order: those that are over and the one in flight. -/
def begun (c : HttpCli) : List Sending := c.done ++ c.flying false

/-- What goes out of the write that waits. -/
def pendingText (c : HttpCli) (p : Pending) : Bytes := outText c.host p.method p.path.str p.json.str

end HttpCli

/-- The writes begun and the one that waits are those accepted, each once and in order; what
is over was sent whole unless its connection failed, what is in flight is whole, and what
waits goes out whole. -/
structure Delivered (c : HttpCli) : Prop where
  order : c.begun.filterMap Sending.ticket ++ c.pend.toList.map Pending.ticket =
    List.range c.accepted.length
  ended : ∀ x ∈ c.done, ∀ i, x.ticket = some i → ∃ text, c.accepted[i]? = some text ∧
    x.bytes <+: text ∧ (x.failed = true ∨ x.bytes = text)
  running : c.inflight = true → ∀ i, c.ticket = some i → c.accepted[i]? = some c.out
  waiting : ∀ p, c.pend = some p → c.accepted[p.ticket]? = some (c.pendingText p)

/-- A pump that finds the connection up and nothing in flight begins the write that
waits. -/
def Begins (c : HttpCli) : CliEvent → Prop
  | .pump e => c.state = .up → c.inflight = false → (c.pump e).pend = none
  | _ => True

/-- The promise at an event. -/
def Kept (c : HttpCli) (ev : CliEvent) : Prop := Delivered (cliStep c ev) ∧ Begins c ev

/-! ## The condition -/

/-- A write finds the slot free and fits the buffers. -/
def Fits (c : HttpCli) (method : Method) (path json : Option CString) : Prop :=
  c.state = .up → c.isOpen = true →
    c.pend = none ∧ (path.getD (CString.lit "/")).length < 160 ∧
      (requestText c.host.str method.text (path.getD (CString.lit "/"))
        (json.getD CString.empty)).length ≤ outMax

/-- The client between sending and receiving in a pump that gets that far. -/
def HttpCli.sent (c : HttpCli) (e : PumpEnv) : Option HttpCli :=
  if c.state = .up then (c.stamp e.now).bind fun c => c.beginPending.sendOut e else none

/-- A response is whole once what arrives is taken in. -/
def HttpCli.answered (c : HttpCli) (e : PumpEnv) : Prop :=
  e.readable = true ∧ c.inBuf.length < inMax ∧ ∃ b, e.recv = .got b ∧
    b.take (inMax - c.inBuf.length) ≠ [] ∧
    (c.takeIn (b.take (inMax - c.inBuf.length))).parseComplete.isSome = true

/-- No response is whole while a write in flight is not out. -/
def NotEarly (c : HttpCli) (e : PumpEnv) : Prop :=
  ∀ d, c.sent e = some d → d.inflight = true → d.ticket ≠ none → d.answered e →
    d.out.length ≤ d.outOff

/-- The condition under which an event keeps the promise. -/
def InTurn (c : HttpCli) : CliEvent → Prop
  | .get _ => True
  | .post path json => Fits c .post path json
  | .put path json => Fits c .put path json
  | .delete path => Fits c .delete path none
  | .pump e => NotEarly c e
  | .takeBody _ => True
  | .connect _ _ _ _ => c.pend = none

/-! ## Texts that fit -/

theorem length_text_ofNat (n : ℕ) : (Decimal.ofNat n).text.length = Nat.log 10 n + 1 := by
  simp [Decimal.ofNat, Decimal.text, Decimal.fracText, Decimal.expText, Decimal.length_digits,
    Decimal.width]

/-- What is cut from the path and the body is missing from the request. -/
theorem length_requestText_le (host method : CString) {path path' json json' : CString}
    (hpath : path'.length ≤ path.length) (hjson : json'.length ≤ json.length)
    (hsome : json'.nonempty = json.nonempty) :
    (requestText host method path' json').length + (path.length - path'.length) +
      (json.length - json'.length) ≤ (requestText host method path json).length := by
  have hdigits : (Decimal.ofNat json'.length).text.length ≤ (Decimal.ofNat json.length).text.length := by
    rw [length_text_ofNat, length_text_ofNat]
    exact Nat.succ_le_succ (Nat.log_mono_right hjson)
  simp only [requestText, hsome, List.length_append]
  simp only [CString.length] at hpath hjson hdigits ⊢
  split
  · simp only [List.length_append]
    omega
  · omega

theorem length_json_le (host method path json : CString) :
    json.length ≤ (requestText host method path json).length := by
  simp only [requestText, List.length_append, CString.length]
  omega

/-- A request is whole in `out` exactly when its path and the whole of it fit, whether its
body comes from the caller or from the slot. -/
theorem outText_eq_iff (host : CBuf 128) (method : Method) (path : CString) {json json' : CString}
    (hjson : json'.length ≤ json.length) (hsome : json'.nonempty = json.nonempty)
    (hsame : json.length ≤ outMax → json' = json) :
    outText host method path json' = requestText host.str method.text path json ↔
      path.length < 160 ∧ (requestText host.str method.text path json).length ≤ outMax := by
  have hpath : (CBuf.copy 160 path).str.length ≤ path.length := by
    simp only [CBuf.str_copy, CString.length, CString.bytes_take, List.length_take]
    omega
  have hfit : (CBuf.copy 160 path).str.length < 160 := (CBuf.copy 160 path).fits
  constructor
  · intro heq
    have hcut := length_requestText_le host.str method.text hpath hjson hsome
    have hlen := congrArg List.length heq
    rw [outText, List.length_take] at hlen
    omega
  · rintro ⟨hlt, hle⟩
    have hbody := hsame ((length_json_le _ _ path _).trans hle)
    rw [outText, hbody, CBuf.str_copy_of_lt hlt, List.take_of_length_le hle]

/-! ## Keeping the promise -/

namespace HttpCli

@[simp] theorem filterMap_flying (c : HttpCli) (failed : Bool) :
    (c.flying failed).filterMap Sending.ticket = if c.inflight then c.ticket.toList else [] := by
  unfold flying
  split
  · cases c.ticket <;> rfl
  · rfl

theorem mem_flying {c : HttpCli} {failed : Bool} {x : Sending} (h : x ∈ c.flying failed) :
    c.inflight = true ∧ x = ⟨c.ticket, c.out.take c.outOff, failed⟩ := by
  unfold flying at h
  split at h
  · next hfly => exact ⟨hfly, List.mem_singleton.mp h⟩
  · cases h

end HttpCli

variable {c d : HttpCli}

/-- What the promise is about is the same in two states. -/
structure SameWrites (c d : HttpCli) : Prop where
  host : d.host = c.host
  done : d.done = c.done
  inflight : d.inflight = c.inflight
  ticket : d.ticket = c.ticket
  out : d.out = c.out
  outOff : d.outOff = c.outOff
  pend : d.pend = c.pend
  accepted : d.accepted = c.accepted

theorem SameWrites.delivered (h : SameWrites c d) : Delivered d ↔ Delivered c := by
  have hpending : d.pendingText = c.pendingText := by
    funext p
    rw [HttpCli.pendingText, HttpCli.pendingText, h.host]
  have hbegun : d.begun = c.begun := by
    rw [HttpCli.begun, HttpCli.begun, HttpCli.flying, HttpCli.flying, h.done, h.inflight, h.ticket,
      h.out, h.outOff]
  constructor
  · rintro ⟨horder, hended, hrunning, hwaiting⟩
    rw [hbegun, h.pend, h.accepted] at horder
    rw [h.done, h.accepted] at hended
    rw [h.inflight, h.ticket, h.out, h.accepted] at hrunning
    rw [h.pend, h.accepted, hpending] at hwaiting
    exact ⟨horder, hended, hrunning, hwaiting⟩
  · rintro ⟨horder, hended, hrunning, hwaiting⟩
    refine ⟨?_, ?_, ?_, ?_⟩
    · rwa [hbegun, h.pend, h.accepted]
    · rwa [h.done, h.accepted]
    · rwa [h.inflight, h.ticket, h.out, h.accepted]
    · rwa [h.pend, h.accepted, hpending]

theorem Delivered.same (h : Delivered c) (hsame : SameWrites c d) : Delivered d :=
  hsame.delivered.mpr h

/-- What is over when its connection is, or was sent whole, is as promised. -/
theorem Delivered.ended_flying (h : Delivered c) {failed : Bool}
    (hwhole : failed = true ∨ (c.inflight = true → c.ticket ≠ none → c.out.length ≤ c.outOff)) :
    ∀ x ∈ c.done ++ c.flying failed, ∀ i, x.ticket = some i →
      ∃ text, c.accepted[i]? = some text ∧ x.bytes <+: text ∧ (x.failed = true ∨ x.bytes = text) := by
  intro x hx i hi
  rcases List.mem_append.mp hx with hx | hx
  · exact h.ended x hx i hi
  · obtain ⟨hfly, rfl⟩ := HttpCli.mem_flying hx
    refine ⟨c.out, h.running hfly i hi, List.take_prefix _ _, ?_⟩
    rcases hwhole with hfailed | hwhole
    · exact Or.inl hfailed
    · refine Or.inr (List.take_of_length_le (hwhole hfly ?_))
      rw [show c.ticket = some i from hi]
      exact Option.some_ne_none i

theorem Delivered.close (h : Delivered c) : Delivered c.close := by
  have horder := h.order
  refine ⟨?_, h.ended_flying (Or.inl rfl), fun hfly => Bool.noConfusion hfly, h.waiting⟩
  rw [HttpCli.begun, List.filterMap_append, HttpCli.filterMap_flying] at horder
  rw [HttpCli.begun, List.filterMap_append, HttpCli.filterMap_flying]
  change (c.done ++ c.flying true).filterMap Sending.ticket ++ [] ++ _ = _
  rw [List.append_nil, List.filterMap_append, HttpCli.filterMap_flying]
  exact horder

theorem Delivered.scheduleRetry (h : Delivered c) (now : Double) (why : String) :
    Delivered (c.scheduleRetry now why) :=
  h.close.same ⟨rfl, rfl, rfl, rfl, rfl, rfl, rfl, rfl⟩

theorem Delivered.start (h : Delivered c) (now : Double) (connects : Bool) :
    Delivered (c.start now connects) := by
  unfold HttpCli.start
  dsimp only
  split <;> exact h.close.same ⟨rfl, rfl, rfl, rfl, rfl, rfl, rfl, rfl⟩

/-! ## Requests -/

/-- The numbers of the writes, those begun and the one that waits. -/
theorem Delivered.tickets (h : Delivered c) :
    c.done.filterMap Sending.ticket ++ (if c.inflight then c.ticket.toList else []) ++
      c.pend.toList.map Pending.ticket = List.range c.accepted.length := by
  have horder := h.order
  rwa [HttpCli.begun, List.filterMap_append, HttpCli.filterMap_flying] at horder

/-- A request for data goes out without a write. -/
theorem Delivered.goOut_get (h : Delivered c) (hidle : c.inflight = false) (path json : CString) :
    Delivered (c.goOut .get path json none) := by
  have htickets := h.tickets
  rw [hidle] at htickets
  refine ⟨?_, h.ended, fun _ i hi => (by cases hi), h.waiting⟩
  rw [HttpCli.begun, List.filterMap_append, HttpCli.filterMap_flying]
  exact htickets

/-- What is accepted before stays so when another write is. -/
theorem getElem?_accepted_of_some {c : HttpCli} {i : ℕ} {text new : Bytes}
    (h : c.accepted[i]? = some text) : (c.accepted ++ [new])[i]? = some text := by
  rw [List.getElem?_append_left (List.getElem?_eq_some_iff.mp h).1, h]

/-- A write that finds nothing in flight keeps the promise when none waits and it is
whole. -/
theorem delivered_goOut_iff (h : Delivered c) (hidle : c.inflight = false) (method : Method)
    (path json : CString) :
    Delivered ((c.accept method path json).goOut method path json (some c.accepted.length)) ↔
      c.pend = none ∧ path.length < 160 ∧
        (requestText c.host.str method.text path json).length ≤ outMax := by
  have htickets := h.tickets
  rw [hidle, if_neg Bool.false_ne_true, List.append_nil] at htickets
  have hfit := outText_eq_iff c.host method path (le_refl json.length) rfl fun _ => rfl
  constructor
  · intro hnext
    have horder := hnext.tickets
    change c.done.filterMap Sending.ticket ++ [c.accepted.length] ++
      c.pend.toList.map Pending.ticket =
        List.range (c.accepted ++ [requestText c.host.str method.text path json]).length at horder
    have hnone : c.pend = none := by
      cases hpend : c.pend with
      | none => rfl
      | some p =>
        rw [hpend] at htickets horder
        rw [List.length_append, List.length_singleton, List.range_succ, ← htickets] at horder
        have hlast := congrArg List.getLast? horder
        have hticket : p.ticket = c.accepted.length := by simpa using hlast
        have hmem : p.ticket ∈ List.range c.accepted.length := by
          rw [← htickets]
          simp
        rw [List.mem_range, hticket] at hmem
        exact absurd hmem (lt_irrefl _)
    refine ⟨hnone, hfit.mp ?_⟩
    have hrun := hnext.running rfl c.accepted.length rfl
    change (c.accepted ++ [_])[c.accepted.length]? = some (outText c.host method path json) at hrun
    rw [List.getElem?_concat_length, Option.some_inj] at hrun
    exact hrun.symm
  · rintro ⟨hnone, hwhole⟩
    refine ⟨?_, ?_, ?_, ?_⟩
    · rw [HttpCli.begun, List.filterMap_append, HttpCli.filterMap_flying]
      change c.done.filterMap Sending.ticket ++ [c.accepted.length] ++
        c.pend.toList.map Pending.ticket =
          List.range (c.accepted ++ [requestText c.host.str method.text path json]).length
      rw [hnone] at htickets ⊢
      rw [List.length_append, List.length_singleton, List.range_succ, ← htickets]
      simp
    · intro x hx i hi
      obtain ⟨text, htext, hrest⟩ := h.ended x hx i hi
      exact ⟨text, getElem?_accepted_of_some htext, hrest⟩
    · intro _ i hi
      have hlast : i = c.accepted.length := (Option.some.inj hi).symm
      change (c.accepted ++ [_])[i]? = some (outText c.host method path json)
      rw [hlast, List.getElem?_concat_length, hfit.mpr hwhole]
    · intro p hp
      have hp' : c.pend = some p := hp
      rw [hnone] at hp'
      cases hp'

/-- A write that finds a request in flight keeps the promise when none waits and it will
be whole. -/
theorem delivered_wait_iff (h : Delivered c) (method : Method) (path json : CString) :
    Delivered { c.accept method path json with
        pend := some ⟨method, CBuf.copy 160 path, CBuf.copy 2048 json, c.accepted.length⟩ } ↔
      c.pend = none ∧ path.length < 160 ∧
        (requestText c.host.str method.text path json).length ≤ outMax := by
  have htickets := h.tickets
  have hcut : (CBuf.copy 2048 json).str.length ≤ json.length := by
    simp only [CBuf.str_copy, CString.length, CString.bytes_take, List.length_take]
    omega
  have hsome : (CBuf.copy 2048 json).str.nonempty = json.nonempty := by
    simp only [CString.nonempty, CBuf.str_copy, CString.bytes_take]
    cases json.bytes <;> rfl
  have hsame : json.length ≤ outMax → (CBuf.copy 2048 json).str = json := fun hle =>
    CBuf.str_copy_of_lt (Nat.lt_succ_of_le hle)
  have hfit := outText_eq_iff c.host method path hcut hsome hsame
  have hpath : CBuf.copy 160 (CBuf.copy 160 path).str = CBuf.copy 160 path := CBuf.copy_str _
  constructor
  · intro hnext
    have horder := hnext.tickets
    change c.done.filterMap Sending.ticket ++ (if c.inflight then c.ticket.toList else []) ++
      [c.accepted.length] =
        List.range (c.accepted ++ [requestText c.host.str method.text path json]).length at horder
    have hnone : c.pend = none := by
      cases hpend : c.pend with
      | none => rfl
      | some p =>
        rw [hpend] at htickets
        have hlen := congrArg List.length horder
        have hlen' := congrArg List.length htickets
        simp only [List.length_append, List.length_singleton, List.length_range, List.length_map,
          Option.toList_some] at hlen hlen'
        omega
    refine ⟨hnone, hfit.mp ?_⟩
    have hwait := hnext.waiting _ rfl
    change (c.accepted ++ [_])[c.accepted.length]? =
      some (outText c.host method (CBuf.copy 160 path).str (CBuf.copy 2048 json).str) at hwait
    rw [List.getElem?_concat_length, Option.some_inj] at hwait
    rw [hwait, outText, outText, hpath]
  · rintro ⟨hnone, hwhole⟩
    refine ⟨?_, ?_, ?_, ?_⟩
    · rw [HttpCli.begun, List.filterMap_append, HttpCli.filterMap_flying]
      change c.done.filterMap Sending.ticket ++ (if c.inflight then c.ticket.toList else []) ++
        [c.accepted.length] =
          List.range (c.accepted ++ [requestText c.host.str method.text path json]).length
      rw [hnone] at htickets
      rw [List.length_append, List.length_singleton, List.range_succ, ← htickets]
      simp
    · intro x hx i hi
      obtain ⟨text, htext, hrest⟩ := h.ended x hx i hi
      exact ⟨text, getElem?_accepted_of_some htext, hrest⟩
    · intro hrun i hi
      exact getElem?_accepted_of_some (h.running hrun i hi)
    · rintro p hp
      obtain rfl := Option.some.inj hp
      change (c.accepted ++ [_])[c.accepted.length]? =
        some (outText c.host method (CBuf.copy 160 path).str (CBuf.copy 2048 json).str)
      rw [List.getElem?_concat_length, outText, hpath, ← hfit.mpr hwhole, outText]

/-- A connection that is made or being made has its descriptor. -/
def Opened (c : HttpCli) : Prop := c.state ≠ .wait → c.isOpen = true

/-- The promise with what else holds between two events. -/
structure Inv (c : HttpCli) : Prop where
  delivered : Delivered c
  opened : Opened c

theorem Inv.up (h : Inv c) (hup : c.state = .up) : c.isOpen = true :=
  h.opened (by rw [hup]; decide)

/-- A write keeps the promise exactly when it finds the slot free and fits. -/
theorem delivered_cliBegin_iff (h : Inv c) {method : Method} (hwrite : method ≠ .get)
    (path json : Option CString) :
    Delivered (c.cliBegin method path json).1 ↔ Fits c method path json := by
  unfold HttpCli.cliBegin Fits
  dsimp only
  by_cases hdown : c.state ≠ .up ∨ c.isOpen = false
  · rw [if_pos hdown]
    refine ⟨fun _ hup hopen => ?_, fun _ => h.delivered⟩
    rcases hdown with hdown | hdown
    · exact absurd hup hdown
    · rw [hdown] at hopen
      cases hopen
  · rw [if_neg hdown]
    push Not at hdown
    obtain ⟨hup, hopen⟩ := hdown
    have hopen : c.isOpen = true := by simpa using hopen
    simp only [hup, hopen, forall_const, if_neg hwrite]
    split
    · exact delivered_wait_iff h.delivered method _ _
    · next hidle => exact delivered_goOut_iff h.delivered (by simpa using hidle) method _ _

theorem delivered_cliBegin_get (h : Inv c) (path json : Option CString) :
    Delivered (c.cliBegin .get path json).1 := by
  simp only [HttpCli.cliBegin, ↓reduceIte]
  split_ifs with hdown hfly
  · exact h.delivered
  · exact h.delivered.same ⟨rfl, rfl, rfl, rfl, rfl, rfl, rfl, rfl⟩
  · exact h.delivered.goOut_get (by simpa using hfly) _ _

theorem opened_cliBegin (h : Opened c) (method : Method) (path json : Option CString) :
    Opened (c.cliBegin method path json).1 := by
  unfold HttpCli.cliBegin
  dsimp only
  split_ifs <;> exact h

/-! ## The pump -/

theorem stamp_sameWrites {now : Double} (h : c.stamp now = some d) :
    SameWrites c d ∧ d.state = c.state ∧ d.isOpen = c.isOpen := by
  unfold HttpCli.stamp at h
  split_ifs at h
  all_goals obtain rfl := Option.some.inj h
  all_goals exact ⟨⟨rfl, rfl, rfl, rfl, rfl, rfl, rfl, rfl⟩, rfl, rfl⟩

/-- The write that waits is begun in its turn. -/
theorem Inv.beginPending (h : Inv c) (hup : c.state = .up) : Inv c.beginPending := by
  unfold HttpCli.beginPending
  split
  · exact h
  · next p hpend =>
    split
    · exact h
    · next hidle =>
      have hidle : c.inflight = false := by simpa using hidle
      have hopen := h.up hup
      have htickets := h.delivered.tickets
      dsimp only
      rw [if_pos hopen]
      refine ⟨⟨?_, h.delivered.ended, fun _ i hi => ?_, fun q hq => ?_⟩, fun _ => hopen⟩
      · rw [hidle, hpend, if_neg Bool.false_ne_true, List.append_nil] at htickets
        rw [HttpCli.begun, List.filterMap_append, HttpCli.filterMap_flying]
        change c.done.filterMap Sending.ticket ++ [p.ticket] ++ [] = _
        rw [List.append_nil]
        exact htickets
      · obtain rfl : p.ticket = i := Option.some.inj hi
        exact h.delivered.waiting p hpend
      · cases hq

theorem pend_beginPending (hidle : c.inflight = false) : c.beginPending.pend = none := by
  unfold HttpCli.beginPending
  split
  · assumption
  · rw [hidle, if_neg Bool.false_ne_true]
    dsimp only
    split <;> rfl

/-- Sending moves what is on the wire on. -/
theorem sendOut_cases {e : PumpEnv} (hd : c.sendOut e = some d) :
    d = c ∨ ∃ n, d = { c with outOff := c.outOff + n } := by
  unfold HttpCli.sendOut at hd
  split_ifs at hd
  · split at hd
    · cases hd
    · exact Or.inr ⟨_, (Option.some.inj hd).symm⟩
  · exact Or.inl (Option.some.inj hd).symm

theorem Inv.sendOut (h : Inv c) {e : PumpEnv} (hd : c.sendOut e = some d) : Inv d := by
  obtain rfl | ⟨n, rfl⟩ := sendOut_cases hd
  · exact h
  · have htickets := h.delivered.tickets
    refine ⟨⟨?_, h.delivered.ended, h.delivered.running, h.delivered.waiting⟩, h.opened⟩
    rw [HttpCli.begun, List.filterMap_append, HttpCli.filterMap_flying]
    exact htickets

theorem pend_sendOut {e : PumpEnv} (hd : c.sendOut e = some d) : d.pend = c.pend := by
  obtain rfl | ⟨n, rfl⟩ := sendOut_cases hd <;> rfl

/-- A response ends the request in flight. -/
theorem parseComplete_spec (h : c.parseComplete = some d) :
    d.done = c.done ++ c.flying false ∧ d.inflight = false ∧ d.host = c.host ∧ d.pend = c.pend ∧
      d.accepted = c.accepted ∧ d.state = c.state ∧ d.isOpen = c.isOpen := by
  unfold HttpCli.parseComplete at h
  dsimp only at h
  split at h
  · cases h
  · split_ifs at h
    all_goals obtain rfl := Option.some.inj h
    all_goals exact ⟨rfl, rfl, rfl, rfl, rfl, rfl, rfl⟩

/-- The request that a response ends is as promised when it was out, or was no write. -/
theorem delivered_ended_iff (h : Delivered c) (hfly : c.inflight = true)
    (hdone : d.done = c.done ++ c.flying false) (hidle : d.inflight = false)
    (hhost : d.host = c.host) (hpend : d.pend = c.pend) (haccepted : d.accepted = c.accepted) :
    Delivered d ↔ (c.ticket ≠ none → c.out.length ≤ c.outOff) := by
  constructor
  · intro hd hticket
    obtain ⟨i, hi⟩ := Option.ne_none_iff_exists'.mp hticket
    have hmem : (⟨c.ticket, c.out.take c.outOff, false⟩ : Sending) ∈ d.done := by
      rw [hdone, HttpCli.flying, if_pos hfly]
      simp
    obtain ⟨text, htext, -, hwhole⟩ := hd.ended _ hmem i hi
    rw [haccepted, h.running hfly i hi, Option.some_inj] at htext
    rcases hwhole with hfailed | hwhole
    · cases hfailed
    · have hlen := congrArg List.length hwhole
      rw [List.length_take, ← htext] at hlen
      omega
  · intro hout
    have htickets := h.tickets
    refine ⟨?_, ?_, fun hrun => ?_, fun p hp => ?_⟩
    · rw [HttpCli.begun, List.filterMap_append, HttpCli.filterMap_flying, hidle, hdone, hpend,
        haccepted, if_neg Bool.false_ne_true, List.append_nil, List.filterMap_append,
        HttpCli.filterMap_flying]
      exact htickets
    · rw [hdone, haccepted]
      exact h.ended_flying (Or.inr fun _ => hout)
    · rw [hidle] at hrun
      cases hrun
    · rw [hpend] at hp
      rw [haccepted, HttpCli.pendingText, hhost]
      exact h.waiting p hp

/-- What a pump receives keeps the promise exactly when it does not end a write that is not
out. -/
theorem delivered_receive_iff (h : Delivered c) (e : PumpEnv) :
    Delivered (c.receive e) ↔
      (c.inflight = true → c.ticket ≠ none → c.answered e → c.out.length ≤ c.outOff) := by
  have hnot (hno : c.inflight = true → ¬c.answered e) (hd : Delivered (c.receive e)) :
      Delivered (c.receive e) ↔
        (c.inflight = true → c.ticket ≠ none → c.answered e → c.out.length ≤ c.outOff) :=
    ⟨fun _ hfly _ ha => absurd ha (hno hfly), fun _ => hd⟩
  by_cases hread : e.readable = true
  · by_cases hfull : inMax ≤ c.inBuf.length
    · refine hnot (fun _ ha => absurd ha.2.1 (by omega)) ?_
      rw [HttpCli.receive, if_pos hread, if_pos hfull]
      exact h.scheduleRetry _ _
    · cases hrecv : e.recv with
      | failed =>
        refine hnot (fun _ ⟨_, _, b, hb, _⟩ => by rw [hrecv] at hb; cases hb) ?_
        simp only [HttpCli.receive, hread, hfull, hrecv, ↓reduceIte]
        exact h.scheduleRetry _ _
      | again =>
        refine hnot (fun _ ⟨_, _, b, hb, _⟩ => by rw [hrecv] at hb; cases hb) ?_
        simpa only [HttpCli.receive, hread, hfull, hrecv, ↓reduceIte] using h
      | got b =>
        have hgot : c.receive e = c.gotBytes (b.take (inMax - c.inBuf.length)) e.now := by
          simp only [HttpCli.receive, hread, hfull, hrecv, ↓reduceIte]
        have hanswered : c.answered e ↔ b.take (inMax - c.inBuf.length) ≠ [] ∧
            (c.takeIn (b.take (inMax - c.inBuf.length))).parseComplete.isSome = true := by
          constructor
          · rintro ⟨-, -, b', hb', hne, hsome⟩
            rw [hrecv] at hb'
            cases hb'
            exact ⟨hne, hsome⟩
          · exact fun ha => ⟨hread, by omega, b, hrecv, ha⟩
        rw [hgot] at hnot ⊢
        rw [hanswered] at hnot ⊢
        generalize b.take (inMax - c.inBuf.length) = b at hnot ⊢
        unfold HttpCli.gotBytes at hnot ⊢
        have htake : Delivered (c.takeIn b) := h.same ⟨rfl, rfl, rfl, rfl, rfl, rfl, rfl, rfl⟩
        split
        · next hnil =>
          refine ⟨fun _ _ _ ha => absurd hnil ha.1, fun _ => h.scheduleRetry _ _⟩
        · next hne =>
          split
          · next hfly =>
            split
            · next d hd =>
              obtain ⟨hdone, hidle, hhost, hpend, hacc, -, -⟩ := parseComplete_spec hd
              have hended := @delivered_ended_iff (c.takeIn b) { d with lastFresh := e.now } htake
                hfly hdone hidle hhost hpend hacc
              rw [hended]
              exact ⟨fun hout _ hticket _ => hout hticket, fun hout hticket =>
                hout hfly hticket ⟨hne, by rw [hd]; rfl⟩⟩
            · next hd =>
              refine ⟨fun _ _ _ ha => ?_, fun _ => htake⟩
              rw [hd] at ha
              cases ha.2
          · next hidle => exact ⟨fun _ hfly => absurd hfly hidle, fun _ => h⟩
  · refine hnot (fun _ ha => hread ha.1) ?_
    rw [HttpCli.receive, if_neg hread]
    exact h

/-- A pump keeps the promise exactly when no write is answered before it is out. -/
theorem delivered_pump_iff (h : Inv c) (e : PumpEnv) :
    Delivered (c.pump e) ↔ NotEarly c e := by
  unfold HttpCli.pump NotEarly HttpCli.sent
  cases hstate : c.state with
  | wait =>
    refine ⟨fun _ d hd => absurd hd (by simp), fun _ => ?_⟩
    dsimp only
    split
    · exact h.delivered.start _ _
    · exact h.delivered
  | connecting =>
    refine ⟨fun _ d hd => absurd hd (by simp), fun _ => ?_⟩
    dsimp only
    split_ifs
    · exact h.delivered.same ⟨rfl, rfl, rfl, rfl, rfl, rfl, rfl, rfl⟩
    · exact h.delivered.scheduleRetry _ _
    · exact h.delivered.scheduleRetry _ _
    · exact h.delivered
  | up =>
    simp only [↓reduceIte, HttpCli.pumpUp]
    cases hstamp : c.stamp e.now with
    | none => exact ⟨fun _ d hd => absurd hd (by simp), fun _ => h.delivered.scheduleRetry _ _⟩
    | some c₁ =>
      obtain ⟨hsame, hstate₁, hopen₁⟩ := stamp_sameWrites hstamp
      have h₁ : Inv c₁ := ⟨h.delivered.same hsame, by
        rw [Opened, hstate₁, hopen₁]
        exact h.opened⟩
      have h₂ := h₁.beginPending (hstate₁.trans hstate)
      dsimp only [Option.bind_some]
      cases hsend : c₁.beginPending.sendOut e with
      | none => exact ⟨fun _ d hd => absurd hd (by simp), fun _ => h₂.delivered.scheduleRetry _ _⟩
      | some c₂ =>
        have h₃ := h₂.sendOut hsend
        dsimp only
        rw [delivered_receive_iff h₃.delivered e]
        constructor
        · intro hout d hd
          obtain rfl := Option.some.inj hd
          exact hout
        · exact fun hout => hout c₂ rfl

theorem opened_scheduleRetry (c : HttpCli) (now : Double) (why : String) :
    Opened (c.scheduleRetry now why) :=
  fun hup => absurd rfl hup

theorem opened_start (c : HttpCli) (now : Double) (connects : Bool) :
    Opened (c.start now connects) := by
  unfold HttpCli.start
  dsimp only
  split
  · exact fun _ => rfl
  · exact fun hup => absurd rfl hup

/-- What a pump that receives can do. -/
theorem receive_cases (c : HttpCli) (e : PumpEnv) :
    (∃ why, c.receive e = c.scheduleRetry e.now why) ∨ c.receive e = c ∨
      (∃ b, c.receive e = c.takeIn b) ∨
      ∃ b d, (c.takeIn b).parseComplete = some d ∧ c.receive e = { d with lastFresh := e.now } := by
  unfold HttpCli.receive
  split
  · split
    · exact Or.inl ⟨_, rfl⟩
    · split
      · exact Or.inl ⟨_, rfl⟩
      · exact Or.inr (Or.inl rfl)
      · unfold HttpCli.gotBytes
        split
        · exact Or.inl ⟨_, rfl⟩
        · split
          · split
            · next d hd => exact Or.inr (Or.inr (Or.inr ⟨_, d, hd, rfl⟩))
            · exact Or.inr (Or.inr (Or.inl ⟨_, rfl⟩))
          · exact Or.inr (Or.inl rfl)
  · exact Or.inr (Or.inl rfl)

theorem opened_receive (h : Opened c) (e : PumpEnv) : Opened (c.receive e) := by
  obtain ⟨why, heq⟩ | heq | ⟨b, heq⟩ | ⟨b, d, hd, heq⟩ := receive_cases c e
  · rw [heq]
    exact opened_scheduleRetry _ _ _
  · rwa [heq]
  · rw [heq]
    exact h
  · obtain ⟨-, -, -, -, -, hstate, hopen⟩ := parseComplete_spec hd
    rw [heq, Opened, hopen]
    change d.state ≠ .wait → _
    rw [hstate]
    exact h

theorem pend_receive (c : HttpCli) (e : PumpEnv) : (c.receive e).pend = c.pend := by
  obtain ⟨why, heq⟩ | heq | ⟨b, heq⟩ | ⟨b, d, hd, heq⟩ := receive_cases c e
  · rw [heq]
    rfl
  · rw [heq]
  · rw [heq]
    rfl
  · obtain ⟨-, -, -, hpend, -⟩ := parseComplete_spec hd
    rw [heq]
    exact hpend

theorem opened_pump (h : Inv c) (e : PumpEnv) : Opened (c.pump e) := by
  unfold HttpCli.pump
  cases hstate : c.state with
  | wait =>
    dsimp only
    split
    · exact opened_start _ _ _
    · exact h.opened
  | connecting =>
    dsimp only
    split_ifs
    · exact fun _ => h.opened (by rw [hstate]; decide)
    · exact opened_scheduleRetry _ _ _
    · exact opened_scheduleRetry _ _ _
    · exact h.opened
  | up =>
    simp only [HttpCli.pumpUp]
    split
    · exact opened_scheduleRetry _ _ _
    · next c₁ hstamp =>
      obtain ⟨hsame, hstate₁, hopen₁⟩ := stamp_sameWrites hstamp
      have h₁ : Inv c₁ := ⟨h.delivered.same hsame, by
        rw [Opened, hstate₁, hopen₁]
        exact h.opened⟩
      have h₂ := h₁.beginPending (hstate₁.trans hstate)
      split
      · exact opened_scheduleRetry _ _ _
      · next c₂ hsend => exact opened_receive (h₂.sendOut hsend).opened e

/-- A pump over an idle connection begins the write that waits. -/
theorem begins_pump (c : HttpCli) (e : PumpEnv) : Begins c (.pump e) := by
  intro hup hidle
  have hstamp : c.stamp e.now = some c := by
    rw [HttpCli.stamp, hidle]
    rfl
  have hpend := pend_beginPending hidle
  simp only [HttpCli.pump, hup, HttpCli.pumpUp, hstamp]
  split
  · exact hpend
  · next d hsend =>
    have hd : d.pend = none := (pend_sendOut hsend).trans hpend
    rw [pend_receive, hd]

/-! ## Runs -/

theorem tickets_start (c : HttpCli) (now : Double) (connects : Bool) :
    (c.start now connects).begun.filterMap Sending.ticket = c.begun.filterMap Sending.ticket ∧
      (c.start now connects).pend = c.pend ∧ (c.start now connects).accepted = c.accepted := by
  have hclose : c.close.begun.filterMap Sending.ticket = c.begun.filterMap Sending.ticket := by
    rw [HttpCli.begun, HttpCli.begun, List.filterMap_append, List.filterMap_append,
      HttpCli.filterMap_flying, HttpCli.filterMap_flying]
    change (c.done ++ c.flying true).filterMap Sending.ticket ++ [] = _
    rw [List.append_nil, List.filterMap_append, HttpCli.filterMap_flying]
  unfold HttpCli.start
  dsimp only
  split <;> exact ⟨hclose, rfl, rfl⟩

/-- A new connection keeps the promise exactly when no write waits. -/
theorem delivered_connect_iff (h : Delivered c) (host : CString) (port : ℤ) (now : Double)
    (connects : Bool) :
    Delivered (cliStep c (.connect host port now connects)) ↔ c.pend = none := by
  have hclosed := h.close
  have hbefore : c.close.done.filterMap Sending.ticket ++ c.pend.toList.map Pending.ticket =
      List.range c.close.accepted.length := by
    have htickets := hclosed.tickets
    change c.close.done.filterMap Sending.ticket ++ [] ++ c.pend.toList.map Pending.ticket =
      List.range c.close.accepted.length at htickets
    rwa [List.append_nil] at htickets
  constructor
  · intro hnew
    obtain ⟨hbegun, hpend, hacc⟩ :=
      tickets_start (cliInit host port c.close.accepted c.close.done) now connects
    have hnext := hnew.order
    change (HttpCli.start _ now connects).begun.filterMap Sending.ticket ++
      (HttpCli.start _ now connects).pend.toList.map Pending.ticket =
        List.range (HttpCli.start _ now connects).accepted.length at hnext
    rw [hbegun, hpend, hacc] at hnext
    change (c.close.done ++ []).filterMap Sending.ticket ++ [] =
      List.range c.close.accepted.length at hnext
    rw [List.append_nil, List.append_nil, ← hbefore] at hnext
    have hlen := congrArg List.length hnext
    rw [List.length_append, List.length_map] at hlen
    cases hwait : c.pend with
    | none => rfl
    | some p =>
      rw [hwait, Option.toList_some, List.length_singleton] at hlen
      omega
  · intro hnone
    refine Delivered.start ?_ now connects
    rw [hnone] at hbefore
    refine ⟨?_, hclosed.ended, fun hfly => Bool.noConfusion hfly, fun p hp => (by cases hp)⟩
    change (c.close.done ++ []).filterMap Sending.ticket ++ [] = List.range c.close.accepted.length
    rw [List.append_nil, List.append_nil, ← hbefore]
    exact (List.append_nil _).symm

/-- An event keeps the promise exactly under the condition. -/
theorem kept_iff (h : Inv c) (ev : CliEvent) : Kept c ev ↔ InTurn c ev := by
  cases ev with
  | get path =>
    exact ⟨fun _ => trivial, fun _ => ⟨delivered_cliBegin_get h _ _, trivial⟩⟩
  | post path json =>
    exact ⟨fun hk => (delivered_cliBegin_iff h (by decide) path json).mp hk.1,
      fun hfit => ⟨(delivered_cliBegin_iff h (by decide) path json).mpr hfit, trivial⟩⟩
  | put path json =>
    exact ⟨fun hk => (delivered_cliBegin_iff h (by decide) path json).mp hk.1,
      fun hfit => ⟨(delivered_cliBegin_iff h (by decide) path json).mpr hfit, trivial⟩⟩
  | delete path =>
    exact ⟨fun hk => (delivered_cliBegin_iff h (by decide) path none).mp hk.1,
      fun hfit => ⟨(delivered_cliBegin_iff h (by decide) path none).mpr hfit, trivial⟩⟩
  | pump e =>
    exact ⟨fun hk => (delivered_pump_iff h e).mp hk.1,
      fun hout => ⟨(delivered_pump_iff h e).mpr hout, begins_pump c e⟩⟩
  | takeBody cap =>
    refine ⟨fun _ => trivial, fun _ => ⟨?_, trivial⟩⟩
    simp only [cliStep, HttpCli.takeBody]
    split
    · exact h.delivered
    · exact h.delivered.same ⟨rfl, rfl, rfl, rfl, rfl, rfl, rfl, rfl⟩
  | connect host port now connects =>
    exact ⟨fun hk => (delivered_connect_iff h.delivered host port now connects).mp hk.1,
      fun hnone => ⟨(delivered_connect_iff h.delivered host port now connects).mpr hnone, trivial⟩⟩

theorem opened_cliStep (h : Inv c) (ev : CliEvent) : Opened (cliStep c ev) := by
  cases ev with
  | get path => exact opened_cliBegin h.opened _ _ _
  | post path json => exact opened_cliBegin h.opened _ _ _
  | put path json => exact opened_cliBegin h.opened _ _ _
  | delete path => exact opened_cliBegin h.opened _ _ _
  | pump e => exact opened_pump h e
  | takeBody cap =>
    simp only [cliStep, HttpCli.takeBody]
    split <;> exact h.opened
  | connect host port now connects => exact opened_start _ _ _

/-- From a client that is set up on, in every run of requests, pumps with whatever the
network does, and new connections: after every event every accepted write is begun in its
turn or waits, goes out whole unless its connection fails, and is begun by a pump over an
idle connection, exactly when every write finds the slot free and fits the buffers, no
response is whole before the write it ends is out, and no other connection is made while a
write waits. -/
theorem writes_delivered_iff (host : CString) (port : ℤ) (events : List CliEvent) :
    Along cliStep Kept (cliInit host port [] []) events ↔
      Along cliStep InTurn (cliInit host port [] []) events := by
  have hstep : ∀ c ev, Inv c → True → InTurn c ev → Inv (cliStep c ev) := fun c ev h _ hturn =>
    ⟨((kept_iff h ev).mpr hturn).1, opened_cliStep h ev⟩
  have hiff : ∀ c ev, Inv c → True → (Kept c ev ↔ InTurn c ev) := fun c ev h _ => kept_iff h ev
  have hinit : Inv (cliInit host port [] []) := by
    refine ⟨⟨rfl, fun x hx => ?_, fun hfly => ?_, fun p hp => ?_⟩, fun hup => absurd rfl hup⟩
    · cases hx
    · cases hfly
    · cases hp
  exact @along_congr _ _ _ Inv _ _ (fun _ => True) hstep hiff _ hinit _ fun _ _ => trivial

/-- What the network does in a pump that only connects. -/
def connectsNow : PumpEnv :=
  ⟨false, true, Double.one, true, true, .wrote 0, .again⟩

/-- Three changes made one after the other. -/
def threeChanges : List CliEvent :=
  [.connect (CString.lit "h") 5250 Double.one true, .pump connectsNow,
    .put (some (CString.lit "/a")) (some (CString.lit "1")),
    .put (some (CString.lit "/b")) (some (CString.lit "2")),
    .put (some (CString.lit "/c")) (some (CString.lit "3"))]

/-- The third takes the place of the second in the slot. -/
theorem later_write_replaces :
    ¬Along cliStep Kept (cliInit (CString.lit "h") 5250 [] []) threeChanges := by
  rintro ⟨-, -, -, -, hkept, -⟩
  have horder := hkept.1.order
  revert horder
  decide +kernel

end MoonFlare.TuiHttp
