import MoonFlare.MagTap

/-!
# The bounds of the framer

The loop of `process` ends, and a framer at rest has no more bytes than a packet. A
candidate holds its own packet, the remote's and one reply, so that the queue of held
packets is never full: how many there are goes with what the framer waits for. Both are
kept by every round, and by every call of the framer with them.
-/

namespace MoonFlare.Magnum

open Drains Runs

/-! ## What a call goes through -/

/-- The loop of `process` comes from one framer to another. -/
def RoundsTo : MagFrame → MagFrame → Prop := Relation.ReflTransGen fun f g => round f = some g

/-- How many bytes the loop of `mag_frame_feed` has room for. -/
def roomOf (f : MagFrame) : ℕ := magBufSize - f.buf.length

/-- The framers and the bytes left at the top of the loop of `mag_frame_feed`. -/
def feedHeads : ℕ → MagFrame → Bytes → List (MagFrame × Bytes)
  | 0, _, _ => []
  | fuel + 1, f, data =>
    if data = [] then []
    else (f, data) ::
      feedHeads fuel (process (append f (data.take (roomOf f)))) (data.drop (roomOf f))

/-- The bytes a turn of the loop takes. -/
def taken (head : MagFrame × Bytes) : Bytes := head.2.take (roomOf head.1)

/-- The framer in front of the `process` of a turn. -/
def loaded (head : MagFrame × Bytes) : MagFrame := append head.1 (taken head)

/-- The framer that takes the inverter packet at its front, judged as a candidate. -/
def judged (f : MagFrame) : MagFrame :=
  { (if f.haveId then f else probe f) with sinceInv := 0, synced := true }

/-- What follows a packet in the cycle. -/
def next : MagState → MagState
  | .hunt => .afterInv
  | .afterInv => .afterRemote
  | .afterRemote => .hunt

/-- The packet that a round passes to `emit`, with the framer it is passed to. -/
def emitted (f : MagFrame) : Option (MagFrame × MagPkt × Bytes) :=
  match f.state with
  | .hunt =>
    if firstInverter f = some 0 then some (judged f, .inverter, f.buf.take magInvLen) else none
  | .afterInv =>
    if f.buf.length < magRemoteLen ∨
        (turnaroundByte (byteAt f.buf 0) ∧ f.buf.length < magRemoteLen + 1) ∨ strayInFront f then
      none
    else if remoteTypeOk (byteAt f.buf 20) ∧
        ¬(byteAt f.buf 20 = 0x00 ∧ magFrameIsInverter f f.buf) then
      some (f, .remote, f.buf.take magRemoteLen)
    else none
  | .afterRemote =>
    let n := magReplyLen (byteAt f.buf 0)
    if f.buf.length < 1 ∨ n = 0 ∨ f.buf.length < n ∨ !replyOk f.buf then none
    else some (toState f .hunt, replyType (byteAt f.buf 0), f.buf.take n)

/-- The packet of a call of `emit` fits the queue of held packets. -/
def Fits (call : MagFrame × MagPkt × Bytes) : Prop :=
  call.1.held.length < magHeldMax ∧ call.2.2.length ≤ magInvLen

/-- One event. -/
def frameStep (f : MagFrame) : Event → MagFrame
  | .feed data now => magFrameFeed f data now
  | .idle now => magFrameIdle f now
  | .resetStream => magFrameResetStream f

/-- The bounds of a framer between two calls. -/
structure Bounded (f : MagFrame) : Prop where
  buffered : f.buf.length ≤ 21
  few : f.held.length ≤ 3
  held : f.probing = false → f.held = []
  apart : ¬(f.haveId = true ∧ f.probing = true)

/-! ## The loop ends -/

/-- `process` makes rounds. -/
theorem roundsTo_process (f : MagFrame) : RoundsTo f (process f) := by
  refine drain_preserves (P := RoundsTo f) (fun g g' hg hround => ?_) Relation.ReflTransGen.refl
  exact hg.tail hround

/-! ## What a round emits -/

/-- A round with a packet, a round that drops what is held, and one that leaves it alone. -/
inductive Emission (f f' : MagFrame) : Prop
  | packet (g : MagFrame) (t : MagPkt) (p : Bytes) (hcall : emitted f = some (g, t, p))
      (ht : t ≠ .unknown) (hafter : f' = consume (toState (emit g t p) (next f.state)) p.length)
  | dropped (hcall : emitted f = none) (hheld : f.probing = true → f'.held = [])
      (hkept : f.probing = false → f'.held = f.held) (hprobing : f'.probing = false)
  | alone (hcall : emitted f = none) (hheld : f'.held = f.held) (hprobing : f'.probing = f.probing)
      (hid : f'.haveId = f.haveId) (hstate : f'.state = f.state ∨ f'.state = .hunt)

theorem takeInverter_eq (f : MagFrame) :
    takeInverter f = toState (emit (judged f) .inverter (f.buf.take magInvLen)) .afterInv := by
  have hbuf : (if f.haveId then f else probe f).buf = f.buf := by
    split
    · rfl
    · exact probe_buf f
  change toState (emit (judged f) .inverter ((if f.haveId then f else probe f).buf.take magInvLen))
    .afterInv = _
  rw [hbuf]

theorem emission_hunt {f f' : MagFrame} (hstate : f.state = .hunt) (h : round f = some f') :
    Emission f f' := by
  rcases Nat.lt_or_ge f.buf.length magInvLen with hlen | hlen
  · rw [round_hunt_short hstate hlen] at h
    cases h
  obtain ⟨n, hn⟩ := huntsTo_exists hlen
  rw [round_hunt hstate hlen hn, Option.some.injEq] at h
  have hfits := hn.fits
  have hcall : emitted f = if firstInverter f = some 0 then
      some (judged f, .inverter, f.buf.take magInvLen) else none := by
    rw [emitted, hstate]
  by_cases hn0 : n = 0
  · subst hn0
    have hfirst : firstInverter f = some 0 := by
      cases hf : firstInverter f with
      | some i => rw [(firstInverter_some hf).eq hn]
      | none =>
        have heq := (firstInverter_none hlen hf).eq hn
        unfold magInvLen at *
        omega
    rw [if_pos hfirst] at hcall
    refine .packet _ _ _ hcall (by decide) ?_
    rw [← h, if_pos rfl, takeInverter_eq, List.length_take, Nat.min_eq_left hlen, hstate, next]
  · have hfirst : firstInverter f ≠ some 0 := fun hf => hn0 (hn.eq (firstInverter_some hf))
    rw [if_neg hfirst] at hcall
    rw [if_neg hn0, skip_eq f hn0] at h
    subst h
    exact .dropped hcall (fun hp => by simp [consume, hp]) (fun hp => by simp [consume, hp]) rfl

theorem emission_afterInv {f f' : MagFrame} (hstate : f.state = .afterInv)
    (h : round f = some f') : Emission f f' := by
  have hnext : next f.state = .afterRemote := by rw [hstate, next]
  rw [round_afterInv hstate] at h
  have hcall := emitted.eq_def f
  rw [hstate] at hcall
  dsimp only at hcall
  split_ifs at h with h1 h2 h3 h4 h5
  · rw [if_pos (Or.inr (Or.inr h3))] at hcall
    obtain rfl := Option.some.inj h
    exact .alone hcall rfl rfl rfl (Or.inl rfl)
  all_goals
    have hwhole : ¬(f.buf.length < magRemoteLen ∨
        (turnaroundByte (byteAt f.buf 0) ∧ f.buf.length < magRemoteLen + 1) ∨ strayInFront f) :=
      fun hor => hor.elim h1 fun hor => hor.elim h2 h3
    rw [if_neg hwhole] at hcall
  · rw [if_pos h4] at hcall
    obtain rfl := Option.some.inj h
    refine .packet _ _ _ hcall (by decide) ?_
    rw [List.length_take, Nat.min_eq_left (by omega), hnext]
  · rw [if_neg h4] at hcall
    obtain rfl := Option.some.inj h
    exact .alone hcall rfl rfl rfl (Or.inr rfl)
  · rw [if_neg h4] at hcall
    obtain rfl := Option.some.inj h
    exact .alone hcall rfl rfl rfl (Or.inr rfl)

theorem toState_self {f : MagFrame} {s : MagState} (h : f.state = s) : toState f s = f := by
  subst h
  rfl

theorem emission_afterRemote {f f' : MagFrame} (hstate : f.state = .afterRemote)
    (h : round f = some f') : Emission f f' := by
  have hnext : next f.state = .hunt := by rw [hstate, next]
  rw [round_afterRemote hstate] at h
  have hcall := emitted.eq_def f
  rw [hstate] at hcall
  dsimp only at hcall
  split_ifs at h with h1 h2 h3 h4
  · rw [if_pos (Or.inr (Or.inl h2))] at hcall
    obtain rfl := Option.some.inj h
    exact .alone hcall rfl rfl rfl (Or.inr rfl)
  · rw [if_pos (Or.inr (Or.inr (Or.inr h4)))] at hcall
    obtain rfl := Option.some.inj h
    exact .alone hcall rfl rfl rfl (Or.inr rfl)
  · rw [if_neg (by simp [h1, h2, h3, h4])] at hcall
    obtain rfl := Option.some.inj h
    refine .packet _ _ _ hcall (replyType_ne_unknown h2) ?_
    have hself := toState_self (emit_state (toState f .hunt) (replyType (byteAt f.buf 0))
      (f.buf.take (magReplyLen (byteAt f.buf 0))))
    rw [toState_state] at hself
    rw [hnext, hself, List.length_take, Nat.min_eq_left (by omega)]

/-- Every round is one of these. -/
theorem emission_of_round {f f' : MagFrame} (h : round f = some f') : Emission f f' := by
  cases hstate : f.state with
  | hunt => exact emission_hunt hstate h
  | afterInv => exact emission_afterInv hstate h
  | afterRemote => exact emission_afterRemote hstate h

/-! ## The packets on probation -/

/-- How many packets a candidate holds at most: its own, the remote's and one reply. -/
def heldLimit : MagState → ℕ
  | .hunt => 3
  | .afterInv => 1
  | .afterRemote => 2

/-- What holds of the packets held, between any two rounds. -/
structure Probation (f : MagFrame) : Prop where
  held : f.probing = false → f.held = []
  apart : f.probing = true → f.haveId = false
  few : f.held.length ≤ heldLimit f.state

theorem Probation.few_three {f : MagFrame} (h : Probation f) : f.held.length ≤ 3 := by
  have hfew := h.few
  cases hstate : f.state <;> rw [hstate] at hfew <;> simp only [heldLimit] at hfew <;> omega

/-- A packet that fits is held for the candidate, or delivered without one. -/
theorem emit_of_fits {f : MagFrame} {t : MagPkt} {p : Bytes} (ht : t ≠ .unknown)
    (hfits : Fits (f, t, p)) :
    emit f t p = if f.probing then { f with held := f.held ++ [⟨t, p⟩] } else deliver f t p := by
  have hroom : f.held.length < magHeldMax ∧ p.length ≤ magInvLen := hfits
  unfold emit
  cases hp : f.probing with
  | true => rw [if_pos ⟨rfl, ht⟩, if_pos hroom, if_pos rfl, ← hp]
  | false => rw [if_neg (by simp), if_neg (by simp)]

/-- One packet more is held. -/
theorem emit_held {f : MagFrame} {t : MagPkt} {p : Bytes} (ht : t ≠ .unknown)
    (hfits : Fits (f, t, p)) :
    (emit f t p).probing = f.probing ∧ (emit f t p).haveId = f.haveId ∧
      (f.probing = true → (emit f t p).held.length = f.held.length + 1) ∧
      (f.probing = false → (emit f t p).held = f.held) := by
  rw [emit_of_fits ht hfits]
  cases hp : f.probing with
  | true => simp
  | false => simp [deliver_eq, hp]

/-- A candidate starts with nothing held, and a known inverter with no candidate. -/
theorem Probation.judged {f : MagFrame} (h : Probation f) :
    (judged f).held = [] ∧ ((judged f).probing = true → (judged f).haveId = false) := by
  unfold Magnum.judged
  cases hid : f.haveId with
  | true =>
    have hp : f.probing = false := by
      cases hp : f.probing with
      | false => rfl
      | true => exact absurd (h.apart hp) (by simp [hid])
    simp [h.held hp, hp]
  | false =>
    simp only [Bool.false_eq_true, if_false]
    unfold probe
    split
    · simp [heldFlush_eq]
    · cases hp : f.probing with
      | true => simp [heldDrop_eq, hid]
      | false => simp [h.held hp, hid]

/-- No packet of a round overflows the queue. -/
theorem Probation.fits {f : MagFrame} (h : Probation f) {call : MagFrame × MagPkt × Bytes}
    (hcall : emitted f = some call) : Fits call := by
  have hfew := h.few
  unfold emitted at hcall
  cases hstate : f.state with
  | hunt =>
    rw [hstate] at hcall
    dsimp only at hcall
    split_ifs at hcall
    obtain rfl := Option.some.inj hcall
    refine ⟨?_, List.length_take_le _ _⟩
    rw [h.judged.1]
    decide
  | afterInv =>
    rw [hstate] at hcall hfew
    dsimp only at hcall
    split_ifs at hcall
    obtain rfl := Option.some.inj hcall
    refine ⟨?_, List.length_take_le _ _⟩
    simp only [heldLimit, magHeldMax] at hfew ⊢
    omega
  | afterRemote =>
    rw [hstate] at hcall hfew
    dsimp only at hcall
    split_ifs at hcall
    obtain rfl := Option.some.inj hcall
    refine ⟨?_, ?_⟩
    · simp only [heldLimit, magHeldMax, toState] at hfew ⊢
      omega
    · have hreply := magReplyLen_le (byteAt f.buf 0)
      have htake := List.length_take_le (magReplyLen (byteAt f.buf 0)) f.buf
      unfold magInvLen
      dsimp only
      omega

/-- How many packets are held goes with the place in the cycle. -/
theorem Probation.room {f g : MagFrame} {t : MagPkt} {p : Bytes} (h : Probation f)
    (hcall : emitted f = some (g, t, p)) :
    (g.probing = true → g.held.length + 1 ≤ heldLimit (next f.state)) ∧
      (g.probing = false → g.held = []) ∧ (g.probing = true → g.haveId = false) := by
  have hfew := h.few
  unfold emitted at hcall
  cases hstate : f.state with
  | hunt =>
    rw [hstate] at hcall
    dsimp only at hcall
    split_ifs at hcall
    cases hcall
    obtain ⟨hheld, hid⟩ := h.judged
    exact ⟨fun _ => by rw [hheld]; decide, fun _ => hheld, hid⟩
  | afterInv =>
    rw [hstate] at hcall hfew
    dsimp only at hcall
    split_ifs at hcall
    cases hcall
    simp only [heldLimit] at hfew
    exact ⟨fun _ => by simp only [next, heldLimit]; omega, h.held, h.apart⟩
  | afterRemote =>
    rw [hstate] at hcall hfew
    dsimp only at hcall
    split_ifs at hcall
    cases hcall
    simp only [heldLimit] at hfew
    refine ⟨fun _ => ?_, h.held, h.apart⟩
    simp only [next, heldLimit, toState]
    omega

/-- A round keeps the packets on probation. -/
theorem Probation.round {f f' : MagFrame} (h : Probation f) (hround : Magnum.round f = some f') :
    Probation f' := by
  cases emission_of_round hround with
  | packet g t p hcall ht hafter =>
    obtain ⟨hroom, hnone, hid⟩ := h.room hcall
    obtain ⟨hprobing, hknown, hmore, hsame⟩ := emit_held ht (h.fits hcall)
    subst hafter
    refine ⟨fun hp => ?_, fun hp => ?_, ?_⟩
    · have hp' : g.probing = false := hprobing.symm.trans hp
      exact (hsame hp').trans (hnone hp')
    · exact hknown.trans (hid (hprobing.symm.trans hp))
    · change (emit g t p).held.length ≤ heldLimit (next f.state)
      cases hp : g.probing with
      | true => exact (hmore hp).le.trans (hroom hp)
      | false =>
        rw [hsame hp, hnone hp]
        exact Nat.zero_le _
  | dropped hcall hheld hkept hprobing =>
    have hnone : f'.held = [] := by
      cases hp : f.probing with
      | true => exact hheld hp
      | false => exact (hkept hp).trans (h.held hp)
    exact ⟨fun _ => hnone, fun hp => absurd hp (by simp [hprobing]), by simp [hnone]⟩
  | alone hcall hheld hprobing hid hstate =>
    refine ⟨fun hp => ?_, fun hp => ?_, ?_⟩
    · exact hheld.trans (h.held (hprobing.symm.trans hp))
    · exact hid.trans (h.apart (hprobing.symm.trans hp))
    · rw [hheld]
      rcases hstate with hstate | hstate
      · rw [hstate]
        exact h.few
      · rw [hstate]
        exact h.few_three

theorem Probation.roundsTo {f g : MagFrame} (h : Probation f) (hrounds : RoundsTo f g) :
    Probation g := by
  induction hrounds with
  | refl => exact h
  | tail _ hround ih => exact ih.round hround

/-! ## The calls -/

theorem Probation.bounded {f : MagFrame} (h : Probation f) (hlen : f.buf.length ≤ magRemoteLen) :
    Bounded f :=
  ⟨hlen, h.few_three, h.held, fun hboth => absurd (h.apart hboth.2) (by simp [hboth.1])⟩

theorem Probation.append {f : MagFrame} (h : Probation f) (data : Bytes) :
    Probation (append f data) := ⟨h.held, h.apart, h.few⟩

/-- Noting new bytes can only forget the inverter. -/
theorem Probation.noteBytes {f : MagFrame} (h : Probation f) (data : Bytes) (now : Double) :
    Probation (noteBytes f data now) := by
  refine ⟨h.held, fun hp => ?_, h.few⟩
  have hid : f.haveId = false := h.apart hp
  unfold Magnum.noteBytes
  dsimp only
  rw [hid, ite_self]

/-- The top of the loop is come to with the packets on probation and a short buffer. -/
theorem feedHeads_probation {fuel : ℕ} {f : MagFrame} {data : Bytes} (h : Probation f)
    (hlen : f.buf.length ≤ magRemoteLen) {head : MagFrame × Bytes}
    (hhead : head ∈ feedHeads fuel f data) :
    Probation head.1 ∧ head.1.buf.length ≤ magRemoteLen := by
  induction fuel generalizing f data with
  | zero => cases hhead
  | succ fuel ih =>
    rw [feedHeads] at hhead
    split at hhead
    · cases hhead
    · rcases List.mem_cons.mp hhead with rfl | hrest
      · exact ⟨h, hlen⟩
      · exact ih ((h.append _).roundsTo (roundsTo_process _)) (length_process _) hrest

/-- There is room for a byte or more. -/
theorem roomOf_pos {f : MagFrame} (hlen : f.buf.length ≤ magRemoteLen) : 0 < roomOf f := by
  unfold roomOf magBufSize magRemoteLen at *
  omega

/-- The turns of the loop take all bytes. -/
theorem feedHeads_taken {fuel : ℕ} {f : MagFrame} {data : Bytes}
    (hlen : f.buf.length ≤ magRemoteLen) (hfuel : data.length ≤ fuel) :
    (feedHeads fuel f data).flatMap taken = data := by
  induction fuel generalizing f data with
  | zero =>
    rw [List.length_eq_zero_iff.mp (Nat.le_zero.mp hfuel)]
    rfl
  | succ fuel ih =>
    rw [feedHeads]
    split
    case isTrue hnil => rw [hnil]; rfl
    case isFalse hsome =>
      have hroom := roomOf_pos hlen
      have hpos := List.length_pos_of_ne_nil hsome
      have hrest := @ih (process (append f (data.take (roomOf f)))) (data.drop (roomOf f))
        (length_process _) (by rw [List.length_drop]; omega)
      rw [List.flatMap_cons, hrest, taken, List.take_append_drop]

theorem feedLoop_bounded {fuel : ℕ} {f : MagFrame} (h : Probation f)
    (hlen : f.buf.length ≤ magRemoteLen) (data : Bytes) :
    Probation (feedLoop fuel f data) ∧ (feedLoop fuel f data).buf.length ≤ magRemoteLen := by
  induction fuel generalizing f data with
  | zero => exact ⟨h, hlen⟩
  | succ fuel ih =>
    rw [feedLoop]
    split
    · exact ⟨h, hlen⟩
    · exact ih ((h.append _).roundsTo (roundsTo_process _)) (length_process _) _

/-- What every call keeps. -/
structure Rest (f : MagFrame) : Prop where
  probation : Probation f
  short : f.buf.length ≤ magRemoteLen

theorem Rest.feed {f : MagFrame} (h : Rest f) (data : Bytes) (now : Double) :
    Rest (magFrameFeed f data now) := by
  unfold magFrameFeed
  split
  · exact h
  · obtain ⟨hprobation, hshort⟩ := @feedLoop_bounded (data.length + 1) _
      (h.probation.noteBytes data now) h.short data
    exact ⟨hprobation, hshort⟩

/-- Bytes that are part of no packet are delivered past the queue. -/
theorem emit_unknown (f : MagFrame) (p : Bytes) : emit f .unknown p = deliver f .unknown p := by
  rw [emit, if_neg (by simp)]

/-- A candidate may be dropped when the bus is quiet. -/
theorem Probation.waited {f : MagFrame} (h : Probation f) (drop : Prop) [Decidable drop] :
    Probation (if f.probing ∧ drop then heldDrop f else f) := by
  split
  · rw [heldDrop_eq]
    exact ⟨fun _ => rfl, fun hp => absurd hp Bool.false_ne_true, Nat.zero_le _⟩
  · exact h

theorem Rest.idle {f : MagFrame} (h : Rest f) (now : Double) : Rest (magFrameIdle f now) := by
  have hwaited := h.probation.waited ((now.sub f.lastRx).ge magProbeS)
  have hbuf : (if f.probing ∧ (now.sub f.lastRx).ge magProbeS then heldDrop f else f).buf =
      f.buf := by
    split
    · rw [heldDrop_eq]
    · rfl
  unfold magFrameIdle
  dsimp only
  generalize (if f.probing ∧ (now.sub f.lastRx).ge magProbeS then heldDrop f else f) = w
    at hwaited hbuf ⊢
  by_cases hstay : w.buf = [] ∨ (now.sub f.lastRx).lt magIdleS = true
  · rw [if_pos hstay]
    exact ⟨hwaited, hbuf ▸ h.short⟩
  · rw [if_neg hstay, emit_unknown, deliver_eq]
    refine ⟨⟨?_, ?_, ?_⟩, Nat.zero_le _⟩
    · split <;> exact hwaited.held
    · split <;> exact hwaited.apart
    · split <;> exact hwaited.few_three

theorem Rest.resetStream {f : MagFrame} : Rest (magFrameResetStream f) :=
  ⟨⟨fun _ => rfl, fun hp => absurd hp Bool.false_ne_true, Nat.zero_le _⟩, Nat.zero_le _⟩

theorem rest_frameStep (f : MagFrame) (e : Event) (h : Rest f) : Rest (frameStep f e) := by
  cases e with
  | feed data now => exact h.feed data now
  | idle now => exact h.idle now
  | resetStream => exact .resetStream

theorem rest_run (es : List Event) : Rest (run frameStep magFrameInit es) := by
  have hinit : Rest magFrameInit :=
    ⟨⟨fun _ => rfl, fun hp => absurd hp Bool.false_ne_true, Nat.zero_le _⟩, Nat.zero_le _⟩
  have hstep (f : MagFrame) (e : Event) (h : Rest f) (_ : True) : Rest (frameStep f e) :=
    rest_frameStep f e h
  have hany : Along frameStep (fun _ _ => True) magFrameInit es :=
    along_of_mem _ fun _ _ => trivial
  exact invariant_run hstep hinit hany

/-- What is promised of a call of `mag_frame_feed`. -/
structure FeedsWithin (f : MagFrame) (data : Bytes) (now : Double) : Prop where
  after : Bounded (magFrameFeed f data now)
  /-- The turns of the loop take all bytes, each a byte or more. -/
  whole : (feedHeads (data.length + 1) (noteBytes f data now) data).flatMap taken = data
  takes : ∀ head ∈ feedHeads (data.length + 1) (noteBytes f data now) data, 0 < roomOf head.1
  /-- Each `process` comes to an end. -/
  ends : ∀ head ∈ feedHeads (data.length + 1) (noteBytes f data now) data,
    RoundsTo (loaded head) (process (loaded head)) ∧ round (process (loaded head)) = none
  /-- Each packet on the way fits the queue. -/
  fits : ∀ head ∈ feedHeads (data.length + 1) (noteBytes f data now) data,
    ∀ g, RoundsTo (loaded head) g → ∀ call, emitted g = some call → Fits call

theorem Rest.feedsWithin {f : MagFrame} (h : Rest f) (data : Bytes) (now : Double) :
    FeedsWithin f data now := by
  have hnoted := h.probation.noteBytes data now
  have hshort : (noteBytes f data now).buf.length ≤ magRemoteLen := h.short
  refine ⟨?_, ?_, fun head hhead => ?_, fun head _ => ?_, fun head hhead g hg call hcall => ?_⟩
  · exact (h.feed data now).probation.bounded (h.feed data now).short
  · exact feedHeads_taken hshort (Nat.le_succ _)
  · exact roomOf_pos (feedHeads_probation hnoted hshort hhead).2
  · exact ⟨roundsTo_process _, round_process _⟩
  · have hhead := (feedHeads_probation hnoted hshort hhead).1
    exact ((hhead.append (taken head)).roundsTo hg).fits hcall

/-- From every state that calls of `mag_frame_feed`, `mag_frame_idle` and
`mag_frame_reset_stream` lead to, `mag_frame_feed` ends with every bound kept, and so does
every call. `process` ends on any framer. -/
theorem framer_bounded :
    (∀ f, RoundsTo f (process f) ∧ round (process f) = none) ∧
    ∀ es, Bounded (run frameStep magFrameInit es) ∧
      ∀ data now, FeedsWithin (run frameStep magFrameInit es) data now := by
  refine ⟨fun f => ⟨roundsTo_process f, round_process f⟩, fun es => ?_⟩
  have hrest := rest_run es
  exact ⟨hrest.probation.bounded hrest.short, hrest.feedsWithin⟩

end MoonFlare.Magnum
