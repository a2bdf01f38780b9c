import MoonFlare.MagFrame

/-!
# What the framer does in a round

Every operation of the framer as one change of its fields, and a round of
`process` by cases. A round uses up bytes of the buffer or goes back to hunting,
so that the loop ends, and with it every call of `mag_frame_feed`.
-/

namespace MoonFlare.Magnum

open Drains

/-- All bytes delivered. -/
def bytesOf (ds : List Delivery) : Bytes := ds.flatMap (·.bytes)

/-! ## Operations in one piece -/

/-- A packet is counted under its type. -/
def countPacket (c : MagPkt → ℕ) (t : MagPkt) : MagPkt → ℕ :=
  if t = .unknown then c else Function.update c t (c t + 1)

theorem deliver_eq (f : MagFrame) (t : MagPkt) (p : Bytes) :
    deliver f t p = { f with
      st := { f.st with packets := countPacket f.st.packets t }
      delivered := f.delivered ++ [⟨t, p, f.lastRx⟩] } := by
  unfold deliver countPacket
  split <;> rfl

/-- Flushing delivers what is held. -/
theorem heldFlush_eq (f : MagFrame) : heldFlush f = { f with
    st := { f.st with packets := f.held.foldl (fun c h => countPacket c h.type) f.st.packets }
    delivered := f.delivered ++ f.held.map fun h => ⟨h.type, h.b, f.lastRx⟩
    held := [] } := by
  have hfold (hs : List MagHeld) (f : MagFrame) :
      hs.foldl (fun f h => deliver f h.type h.b) f = { f with
        st := { f.st with packets := hs.foldl (fun c h => countPacket c h.type) f.st.packets }
        delivered := f.delivered ++ hs.map fun h => ⟨h.type, h.b, f.lastRx⟩ } := by
    induction hs generalizing f with
    | nil => simp
    | cons h hs ih =>
      rw [List.foldl_cons, ih, deliver_eq]
      simp
  rw [heldFlush, hfold]

/-- The bytes of what is held. -/
def heldLength (hs : List MagHeld) : ℕ := (hs.map fun h => h.b.length).sum

/-- Dropping delivers what is held as unknown. -/
theorem heldDrop_eq (f : MagFrame) : heldDrop f = { f with
    st := { f.st with unknownBytes := f.st.unknownBytes + heldLength f.held }
    delivered := f.delivered ++ f.held.map fun h => ⟨.unknown, h.b, f.lastRx⟩
    held := [], probing := false } := by
  have hfold (hs : List MagHeld) (f : MagFrame) :
      hs.foldl (fun f h => deliver (addUnknown f h.b.length) .unknown h.b) f = { f with
        st := { f.st with unknownBytes := f.st.unknownBytes + heldLength hs }
        delivered := f.delivered ++ hs.map fun h => ⟨.unknown, h.b, f.lastRx⟩ } := by
    induction hs generalizing f with
    | nil => simp [heldLength]
    | cons h hs ih =>
      rw [List.foldl_cons, ih]
      simp [deliver, addUnknown, heldLength, Nat.add_assoc]
  rw [heldDrop, hfold]

/-- Skipping drops what is held, and delivers the skipped bytes. -/
theorem skip_eq (f : MagFrame) {n : ℕ} (hn : n ≠ 0) : skip f n = { f with
    st := { f.st with
      unknownBytes := f.st.unknownBytes + (if f.probing then heldLength f.held else 0) + n
      resyncs := f.st.resyncs + if f.synced then 1 else 0 }
    delivered := f.delivered ++
      (if f.probing then f.held.map fun h => ⟨.unknown, h.b, f.lastRx⟩ else []) ++
        [⟨.unknown, f.buf.take n, f.lastRx⟩]
    held := if f.probing then [] else f.held
    probing := false
    synced := false } := by
  unfold skip
  rw [if_neg hn]
  cases hp : f.probing <;> cases hs : f.synced <;>
    simp [hp, hs, heldDrop_eq, addUnknown, emit, deliver]

/-- A window is judged by what is known of the inverter. -/
theorem isInverter_eq {f g : MagFrame} (hid : f.haveId = g.haveId) (hmodel : f.invModel = g.invModel)
    (hrevision : f.invRevision = g.invRevision) (p : Bytes) :
    magFrameIsInverter f p = magFrameIsInverter g p := by
  simp only [magFrameIsInverter, hid, hmodel, hrevision]

theorem byteAt_append {p : Bytes} {i : ℕ} (hi : i < p.length) (ys : Bytes) :
    byteAt (p ++ ys) i = byteAt p i := by
  unfold byteAt
  exact List.getD_append p ys _ i hi

/-- A window is judged by its own bytes. -/
theorem isInverter_append (f : MagFrame) {p : Bytes} (hp : magInvLen ≤ p.length) (ys : Bytes) :
    magFrameIsInverter f (p ++ ys) = magFrameIsInverter f p := by
  have hbyte (i : ℕ) (hi : i ≤ 20) : byteAt (p ++ ys) i = byteAt p i :=
    byteAt_append (by unfold magInvLen at hp; omega) ys
  have hword (i : ℕ) (hi : i ≤ 19) : be16s (p ++ ys) i = be16s p i := by
    unfold be16s
    rw [hbyte i (by omega), hbyte (i + 1) (by omega)]
  unfold magFrameIsInverter
  rw [hword 18 (by omega), hword 2 (by omega), hbyte 10 (by omega), hbyte 11 (by omega),
    hbyte 12 (by omega), hbyte 13 (by omega), hbyte 14 (by omega), hbyte 15 (by omega),
    hbyte 20 (by omega)]

/-! ## What a round does -/

/-- The framer in another state. -/
def toState (f : MagFrame) (s : MagState) : MagFrame := { f with state := s }

/-- The inverter packet at the front of the buffer is taken. -/
def takeInverter (f : MagFrame) : MagFrame :=
  let f := if f.haveId then f else probe f
  toState (emit { f with sinceInv := 0, synced := true } .inverter (f.buf.take magInvLen)) .afterInv

/-- Hunting comes as far as this offset: no window in front of it passes, and
the one there does, or is not whole. -/
structure HuntsTo (f : MagFrame) (n : ℕ) : Prop where
  fits : n + (magInvLen - 1) ≤ f.buf.length
  clear : ∀ i < n, magFrameIsInverter f (f.buf.drop i) = false
  found : n + magInvLen ≤ f.buf.length → magFrameIsInverter f (f.buf.drop n) = true

theorem HuntsTo.eq {f : MagFrame} {n m : ℕ} (h : HuntsTo f n) (h' : HuntsTo f m) : n = m := by
  have hle {n m : ℕ} (h : HuntsTo f n) (h' : HuntsTo f m) : n ≤ m := by
    by_contra hlt
    have hfits := h.fits
    have hpass := h'.found (by unfold magInvLen at *; omega)
    simp [h.clear m (by omega)] at hpass
  exact le_antisymm (hle h h') (hle h' h)

theorem firstInverter_some {f : MagFrame} {n : ℕ} (h : firstInverter f = some n) : HuntsTo f n := by
  obtain ⟨hpass, hmem, hclear⟩ := List.find?_range_eq_some.mp h
  rw [List.mem_range] at hmem
  exact ⟨by unfold magInvLen at *; omega, fun i hi => by simpa using hclear i hi, fun _ => hpass⟩

theorem firstInverter_none {f : MagFrame} (hlen : magInvLen ≤ f.buf.length)
    (h : firstInverter f = none) : HuntsTo f (f.buf.length - (magInvLen - 1)) := by
  have hclear := List.find?_range_eq_none.mp h
  refine ⟨by unfold magInvLen at *; omega, fun i hi => ?_, fun hwhole => ?_⟩
  · simpa using hclear i (by unfold magInvLen at *; omega)
  · unfold magInvLen at *
    omega

/-- Hunting comes somewhere. -/
theorem huntsTo_exists {f : MagFrame} (hlen : magInvLen ≤ f.buf.length) : ∃ n, HuntsTo f n := by
  cases h : firstInverter f with
  | none => exact ⟨_, firstInverter_none hlen h⟩
  | some n => exact ⟨n, firstInverter_some h⟩

theorem hunt_eq {f : MagFrame} (hlen : magInvLen ≤ f.buf.length) {n : ℕ} (h : HuntsTo f n) :
    hunt f = if n = 0 then (takeInverter f, .bytes magInvLen) else (skip f n, .bytes n) := by
  unfold hunt
  rw [if_neg (by omega)]
  cases hfirst : firstInverter f with
  | none =>
    have hn := h.eq (firstInverter_none hlen hfirst)
    have hpos : f.buf.length - (magInvLen - 1) ≠ 0 := by unfold magInvLen at *; omega
    rw [hn, if_neg hpos]
  | some i =>
    obtain rfl := h.eq (firstInverter_some hfirst)
    rcases Nat.eq_zero_or_pos n with rfl | hpos
    · rfl
    · dsimp only
      rw [if_pos hpos, if_neg (by omega)]

/-- Too few bytes for an inverter packet are left alone. -/
theorem round_hunt_short {f : MagFrame} (hstate : f.state = .hunt)
    (hlen : f.buf.length < magInvLen) : round f = none := by
  simp [round, use, hstate, hunt, hlen]

/-- A round of hunting. -/
theorem round_hunt {f : MagFrame} (hstate : f.state = .hunt) (hlen : magInvLen ≤ f.buf.length)
    {n : ℕ} (h : HuntsTo f n) : round f =
      some (if n = 0 then consume (takeInverter f) magInvLen else consume (skip f n) n) := by
  simp only [round, use, hstate, hunt_eq hlen h]
  by_cases hn : n = 0
  · simp [hn, magInvLen]
  · simp [hn]

/-- A round behind an inverter packet. -/
theorem round_afterInv {f : MagFrame} (hstate : f.state = .afterInv) : round f =
    if f.buf.length < magRemoteLen then none
    else if turnaroundByte (byteAt f.buf 0) ∧ f.buf.length < magRemoteLen + 1 then none
    else if strayInFront f then some (consume f 1)
    else if remoteTypeOk (byteAt f.buf 20) ∧
        ¬(byteAt f.buf 20 = 0x00 ∧ magFrameIsInverter f f.buf) then
      some (consume (toState (emit f .remote (f.buf.take magRemoteLen)) .afterRemote) magRemoteLen)
    else if magFrameIsInverter f f.buf then some (toState f .hunt)
    else some (toState (addBad f) .hunt) := by
  simp only [round, use, hstate]
  unfold afterInv
  split_ifs <;> rfl

/-- A round behind a remote packet. -/
theorem round_afterRemote {f : MagFrame} (hstate : f.state = .afterRemote) : round f =
    if f.buf.length < 1 then none
    else if magReplyLen (byteAt f.buf 0) = 0 then some (toState f .hunt)
    else if f.buf.length < magReplyLen (byteAt f.buf 0) then none
    else if !replyOk f.buf then some (toState (addBad f) .hunt)
    else some (consume (emit (toState f .hunt) (replyType (byteAt f.buf 0))
      (f.buf.take (magReplyLen (byteAt f.buf 0)))) (magReplyLen (byteAt f.buf 0))) := by
  simp only [round, use, hstate]
  unfold afterRemote
  dsimp only
  split_ifs <;> simp_all [addBad, toState]

/-! ## The end of the loop -/

theorem emit_fields (f : MagFrame) (t : MagPkt) (p : Bytes) :
    (emit f t p).buf = f.buf ∧ (emit f t p).state = f.state ∧ (emit f t p).synced = f.synced ∧
      (emit f t p).haveId = f.haveId ∧ (emit f t p).invModel = f.invModel ∧
      (emit f t p).invRevision = f.invRevision := by
  unfold emit
  rw [heldDrop_eq]
  split_ifs <;> exact ⟨rfl, rfl, rfl, rfl, rfl, rfl⟩

@[simp] theorem emit_buf (f : MagFrame) (t : MagPkt) (p : Bytes) : (emit f t p).buf = f.buf :=
  (emit_fields f t p).1

@[simp] theorem emit_state (f : MagFrame) (t : MagPkt) (p : Bytes) :
    (emit f t p).state = f.state := (emit_fields f t p).2.1

@[simp] theorem skip_buf (f : MagFrame) (n : ℕ) : (skip f n).buf = f.buf := by
  rcases eq_or_ne n 0 with rfl | hn
  · rfl
  · rw [skip_eq f hn]

@[simp] theorem skip_state (f : MagFrame) (n : ℕ) : (skip f n).state = f.state := by
  rcases eq_or_ne n 0 with rfl | hn
  · rfl
  · rw [skip_eq f hn]

@[simp] theorem probe_buf (f : MagFrame) : (probe f).buf = f.buf := by
  unfold probe
  rw [heldFlush_eq, heldDrop_eq]
  split_ifs <;> rfl

@[simp] theorem takeInverter_buf (f : MagFrame) : (takeInverter f).buf = f.buf := by
  unfold takeInverter toState
  dsimp only
  rw [emit_buf]
  dsimp only
  split
  · rfl
  · exact probe_buf f

@[simp] theorem toState_buf (f : MagFrame) (s : MagState) : (toState f s).buf = f.buf := rfl

@[simp] theorem toState_state (f : MagFrame) (s : MagState) : (toState f s).state = s := rfl

@[simp] theorem consume_buf (f : MagFrame) (n : ℕ) : (consume f n).buf = f.buf.drop n := rfl

@[simp] theorem consume_state (f : MagFrame) (n : ℕ) : (consume f n).state = f.state := rfl

@[simp] theorem addBad_buf (f : MagFrame) : (addBad f).buf = f.buf := rfl

/-- The budget of a framer that has used bytes up. -/
theorem budget_consume {f f' : MagFrame} {n : ℕ} (hn : 0 < n) (hlen : n ≤ f.buf.length)
    (hbuf : f'.buf = f.buf.drop n) : budget f' < budget f := by
  unfold budget
  rw [hbuf, List.length_drop]
  split <;> split <;> omega

/-- Every round lowers the budget. -/
theorem round_decreases : Decreases round budget := by
  intro f f' h
  cases hstate : f.state with
  | hunt =>
    rcases Nat.lt_or_ge f.buf.length magInvLen with hlen | hlen
    · simp [round_hunt_short hstate hlen] at h
    · obtain ⟨n, hn⟩ := huntsTo_exists hlen
      rw [round_hunt hstate hlen hn, Option.some.injEq] at h
      have hfits := hn.fits
      subst h
      split
      · exact budget_consume (n := magInvLen) (by decide) hlen (by simp)
      · exact budget_consume (n := n) (by omega) (by omega) (by simp)
  | afterInv =>
    rw [round_afterInv hstate] at h
    split_ifs at h with h1 h2 h3 h4 h5
    · obtain rfl := Option.some.inj h
      exact budget_consume (n := 1) (by decide) (by unfold magRemoteLen at *; omega) (by simp)
    · obtain rfl := Option.some.inj h
      exact budget_consume (n := magRemoteLen) (by decide) (by omega) (by simp)
    · obtain rfl := Option.some.inj h
      simp [budget, hstate]
    · obtain rfl := Option.some.inj h
      simp [budget, hstate]
  | afterRemote =>
    rw [round_afterRemote hstate] at h
    split_ifs at h with h1 h2 h3 h4
    · obtain rfl := Option.some.inj h
      simp [budget, hstate]
    · obtain rfl := Option.some.inj h
      simp [budget, hstate]
    · obtain rfl := Option.some.inj h
      exact budget_consume (n := magReplyLen (byteAt f.buf 0)) (by omega) (by omega) (by simp)

theorem magReplyLen_le (b : UInt8) : magReplyLen b ≤ 18 := by
  unfold magReplyLen
  split_ifs <;> decide

/-- A framer at rest has fewer bytes than a packet and the byte behind it. -/
theorem length_of_rest {f : MagFrame} (h : round f = none) : f.buf.length ≤ magRemoteLen := by
  cases hstate : f.state with
  | hunt =>
    rcases Nat.lt_or_ge f.buf.length magInvLen with hlen | hlen
    · unfold magInvLen magRemoteLen at *
      omega
    · obtain ⟨n, hn⟩ := huntsTo_exists hlen
      simp [round_hunt hstate hlen hn] at h
  | afterInv =>
    rw [round_afterInv hstate] at h
    split_ifs at h <;> omega
  | afterRemote =>
    have hreply := magReplyLen_le (byteAt f.buf 0)
    rw [round_afterRemote hstate] at h
    unfold magRemoteLen
    split_ifs at h <;> omega

/-- The loop goes on behind a round. -/
theorem process_of_round {f f' : MagFrame} (h : round f = some f') : process f = process f' :=
  drain_of_some round_decreases h

/-- `process` ends at rest. -/
theorem round_process (f : MagFrame) : round (process f) = none := step_drain round_decreases f

theorem length_process (f : MagFrame) : (process f).buf.length ≤ magRemoteLen :=
  length_of_rest (round_process f)

end MoonFlare.Magnum
