import MoonFlare.MagRounds
import MoonFlare.Runs

/-!
# Framing and the chunks of the stream

Hunting skips as much as it can see, so that skipped bytes are delivered in
pieces that depend on the chunks. Two framers are alike when they agree in
everything but their clocks and how runs of skipped bytes are cut. Whether bytes
are processed before more of them arrive or together makes no difference up to
that.
-/

namespace MoonFlare.Magnum

open Drains Runs

/-- What is delivered, with the runs of skipped bytes cut into bytes. -/
def pieces (ds : List Delivery) : List (MagPkt × Bytes) :=
  ds.flatMap fun d =>
    if d.type = .unknown then d.bytes.map fun b => (.unknown, [b]) else [(d.type, d.bytes)]

/-- Two framers that differ in their clocks and in the cut of skipped bytes
only. -/
structure Alike (f g : MagFrame) : Prop where
  buf : f.buf = g.buf
  state : f.state = g.state
  synced : f.synced = g.synced
  haveId : f.haveId = g.haveId
  invModel : f.invModel = g.invModel
  invRevision : f.invRevision = g.invRevision
  probing : f.probing = g.probing
  probeModel : f.probeModel = g.probeModel
  probeRevision : f.probeRevision = g.probeRevision
  held : f.held = g.held
  packets : f.st.packets = g.st.packets
  badPackets : f.st.badPackets = g.st.badPackets
  unknownBytes : f.st.unknownBytes = g.st.unknownBytes
  resyncs : f.st.resyncs = g.st.resyncs
  delivered : pieces f.delivered = pieces g.delivered

theorem alike_equivalence : Equivalence Alike where
  refl _ := ⟨rfl, rfl, rfl, rfl, rfl, rfl, rfl, rfl, rfl, rfl, rfl, rfl, rfl, rfl, rfl⟩
  symm h :=
    ⟨h.buf.symm, h.state.symm, h.synced.symm, h.haveId.symm, h.invModel.symm, h.invRevision.symm,
      h.probing.symm, h.probeModel.symm, h.probeRevision.symm, h.held.symm, h.packets.symm,
      h.badPackets.symm, h.unknownBytes.symm, h.resyncs.symm, h.delivered.symm⟩
  trans h k :=
    ⟨h.buf.trans k.buf, h.state.trans k.state, h.synced.trans k.synced, h.haveId.trans k.haveId,
      h.invModel.trans k.invModel, h.invRevision.trans k.invRevision, h.probing.trans k.probing,
      h.probeModel.trans k.probeModel, h.probeRevision.trans k.probeRevision, h.held.trans k.held,
      h.packets.trans k.packets, h.badPackets.trans k.badPackets,
      h.unknownBytes.trans k.unknownBytes, h.resyncs.trans k.resyncs,
      h.delivered.trans k.delivered⟩

@[simp] theorem pieces_append (ds es : List Delivery) :
    pieces (ds ++ es) = pieces ds ++ pieces es := List.flatMap_append

/-- The time of a delivery is no part of its pieces. -/
theorem pieces_single (t : MagPkt) (p : Bytes) (now now' : Double) :
    pieces [⟨t, p, now⟩] = pieces [⟨t, p, now'⟩] := rfl

theorem pieces_map (hs : List MagHeld) (g : MagHeld → MagPkt) (now now' : Double) :
    pieces (hs.map fun h => ⟨g h, h.b, now⟩) = pieces (hs.map fun h => ⟨g h, h.b, now'⟩) := by
  simp only [pieces, List.flatMap_map]

/-! ## Alike framers stay alike -/

namespace Alike

variable {f g : MagFrame}

theorem deliver (h : Alike f g) (t : MagPkt) (p : Bytes) :
    Alike (deliver f t p) (deliver g t p) := by
  rw [deliver_eq, deliver_eq]
  exact { h with
    packets := congrArg (countPacket · t) h.packets
    delivered := by simp only [pieces_append, h.delivered, pieces_single t p f.lastRx g.lastRx] }

theorem addUnknown (h : Alike f g) (n : ℕ) : Alike (addUnknown f n) (addUnknown g n) :=
  { h with unknownBytes := congrArg (· + n) h.unknownBytes }

theorem addBad (h : Alike f g) : Alike (addBad f) (addBad g) :=
  { h with badPackets := congrArg (· + 1) h.badPackets }

theorem toState (h : Alike f g) (s : MagState) : Alike (toState f s) (toState g s) :=
  { h with state := rfl }

theorem heldFlush (h : Alike f g) : Alike (heldFlush f) (heldFlush g) := by
  rw [heldFlush_eq, heldFlush_eq]
  exact { h with
    packets := by simp only [h.packets, h.held]
    delivered := by
      simp only [pieces_append, h.delivered, h.held,
        pieces_map g.held MagHeld.type f.lastRx g.lastRx]
    held := rfl }

theorem heldDrop (h : Alike f g) : Alike (heldDrop f) (heldDrop g) := by
  rw [heldDrop_eq, heldDrop_eq]
  exact { h with
    unknownBytes := by simp only [h.unknownBytes, h.held]
    delivered := by
      simp only [pieces_append, h.delivered, h.held,
        pieces_map g.held (fun _ => .unknown) f.lastRx g.lastRx]
    held := rfl
    probing := rfl }

theorem emit (h : Alike f g) (t : MagPkt) (p : Bytes) : Alike (emit f t p) (emit g t p) := by
  unfold Magnum.emit
  by_cases hp : f.probing = true ∧ t ≠ .unknown
  · have hp' : g.probing = true ∧ t ≠ .unknown := ⟨h.probing ▸ hp.1, hp.2⟩
    rw [if_pos hp, if_pos hp']
    by_cases hroom : f.held.length < magHeldMax ∧ p.length ≤ magInvLen
    · have hroom' : g.held.length < magHeldMax ∧ p.length ≤ magInvLen := ⟨h.held ▸ hroom.1, hroom.2⟩
      rw [if_pos hroom, if_pos hroom']
      exact { h with held := congrArg (· ++ [⟨t, p⟩]) h.held }
    · have hroom' : ¬(g.held.length < magHeldMax ∧ p.length ≤ magInvLen) := by
        rw [← h.held]
        exact hroom
      rw [if_neg hroom, if_neg hroom']
      exact (h.heldDrop.addUnknown p.length).deliver .unknown p
  · have hp' : ¬(g.probing = true ∧ t ≠ .unknown) := by
      rw [← h.probing]
      exact hp
    rw [if_neg hp, if_neg hp']
    exact h.deliver t p

theorem emitSame (h : Alike f g) (t : MagPkt) {p q : Bytes} (hp : p = q) :
    Alike (Magnum.emit f t p) (Magnum.emit g t q) := hp ▸ h.emit t p

theorem skip (h : Alike f g) (n : ℕ) : Alike (skip f n) (skip g n) := by
  rcases eq_or_ne n 0 with rfl | hn
  · exact h
  rw [skip_eq f hn, skip_eq g hn]
  exact { h with
    unknownBytes := by simp only [h.unknownBytes, h.probing, h.held]
    resyncs := by simp only [h.resyncs, h.synced]
    delivered := by
      have hheld := pieces_map g.held (fun _ => .unknown) f.lastRx g.lastRx
      cases hp : g.probing <;>
        simp only [pieces_append, h.delivered, h.held, h.probing, h.buf, hp, hheld,
          pieces_single .unknown (g.buf.take n) f.lastRx g.lastRx, if_true, Bool.false_eq_true,
          if_false]
    held := by simp only [h.held, h.probing]
    probing := rfl
    synced := rfl }

theorem isInverter (h : Alike f g) (p : Bytes) :
    magFrameIsInverter f p = magFrameIsInverter g p :=
  isInverter_eq h.haveId h.invModel h.invRevision p

theorem probe (h : Alike f g) : Alike (probe f) (probe g) := by
  unfold Magnum.probe
  by_cases hp : f.probing = true ∧ f.synced = true ∧ byteAt f.buf 14 = f.probeModel ∧
      byteAt f.buf 10 = f.probeRevision
  · have hp' : g.probing = true ∧ g.synced = true ∧ byteAt g.buf 14 = g.probeModel ∧
        byteAt g.buf 10 = g.probeRevision := by
      rw [← h.probing, ← h.synced, ← h.buf, ← h.probeModel, ← h.probeRevision]
      exact hp
    rw [if_pos hp, if_pos hp']
    exact heldFlush { h with
      probing := rfl
      haveId := rfl
      invModel := congrArg (byteAt · 14) h.buf
      invRevision := congrArg (byteAt · 10) h.buf }
  · have hp' : ¬(g.probing = true ∧ g.synced = true ∧ byteAt g.buf 14 = g.probeModel ∧
        byteAt g.buf 10 = g.probeRevision) := by
      rw [← h.probing, ← h.synced, ← h.buf, ← h.probeModel, ← h.probeRevision]
      exact hp
    rw [if_neg hp, if_neg hp']
    have hdropped : Alike (if f.probing then Magnum.heldDrop f else f)
        (if g.probing then Magnum.heldDrop g else g) := by
      rw [h.probing]
      split
      · exact h.heldDrop
      · exact h
    exact { hdropped with
      probing := rfl
      probeModel := congrArg (byteAt · 14) hdropped.buf
      probeRevision := congrArg (byteAt · 10) hdropped.buf }

theorem takeInverter (h : Alike f g) : Alike (takeInverter f) (takeInverter g) := by
  unfold Magnum.takeInverter
  have hprobed : Alike (if f.haveId then f else Magnum.probe f)
      (if g.haveId then g else Magnum.probe g) := by
    rw [h.haveId]
    split
    · exact h
    · exact h.probe
  have hsynced : Alike { (if f.haveId then f else Magnum.probe f) with sinceInv := 0, synced := true }
      { (if g.haveId then g else Magnum.probe g) with sinceInv := 0, synced := true } :=
    { hprobed with synced := rfl }
  exact (hsynced.emitSame .inverter (congrArg (List.take magInvLen) hprobed.buf)).toState .afterInv

theorem consume (h : Alike f g) (n : ℕ) : Alike (consume f n) (consume g n) :=
  { h with buf := congrArg (List.drop n) h.buf }

theorem huntsTo (h : Alike f g) {n : ℕ} (hf : HuntsTo f n) : HuntsTo g n :=
  ⟨h.buf ▸ hf.fits, fun i hi => by rw [← h.isInverter, ← h.buf, hf.clear i hi],
    fun hwhole => by rw [← h.isInverter, ← h.buf, hf.found (h.buf ▸ hwhole)]⟩

theorem strayInFront (h : Alike f g) : strayInFront f = strayInFront g := by
  simp only [Magnum.strayInFront, h.buf, h.isInverter]

/-- A round of alike framers. -/
theorem round (h : Alike f g) : Option.Rel Alike (round f) (round g) := by
  cases hstate : f.state with
  | hunt =>
    have hstate' := h.state.symm.trans hstate
    rcases Nat.lt_or_ge f.buf.length magInvLen with hlen | hlen
    · rw [round_hunt_short hstate hlen, round_hunt_short hstate' (h.buf ▸ hlen)]
      exact .none
    · obtain ⟨n, hn⟩ := huntsTo_exists hlen
      rw [round_hunt hstate hlen hn, round_hunt hstate' (h.buf ▸ hlen) (h.huntsTo hn)]
      refine .some ?_
      split
      · exact h.takeInverter.consume magInvLen
      · exact (h.skip n).consume n
  | afterInv =>
    rw [round_afterInv hstate, round_afterInv (h.state.symm.trans hstate), h.strayInFront, h.buf,
      h.isInverter]
    split
    · exact .none
    split
    · exact .none
    split
    · exact .some (h.consume 1)
    split
    · exact .some (((h.emit .remote _).toState .afterRemote).consume magRemoteLen)
    split
    · exact .some (h.toState .hunt)
    · exact .some (h.addBad.toState .hunt)
  | afterRemote =>
    rw [round_afterRemote hstate, round_afterRemote (h.state.symm.trans hstate), h.buf]
    split
    · exact .none
    split
    · exact .some (h.toState .hunt)
    split
    · exact .none
    split
    · exact .some (h.addBad.toState .hunt)
    · exact .some (((h.toState .hunt).emit _ _).consume _)

theorem process (h : Alike f g) : Alike (process f) (process g) :=
  drain_congr round_decreases (fun _ _ h => h.round) h

end Alike

/-! ## More bytes in the buffer -/

@[simp] theorem isInverter_of_append (f : MagFrame) (ys p : Bytes) :
    magFrameIsInverter (append f ys) p = magFrameIsInverter f p := isInverter_eq rfl rfl rfl p

@[simp] theorem append_buf (f : MagFrame) (ys : Bytes) : (append f ys).buf = f.buf ++ ys := rfl

@[simp] theorem append_state (f : MagFrame) (ys : Bytes) : (append f ys).state = f.state := rfl

theorem append_append (f : MagFrame) (xs ys : Bytes) :
    append (append f xs) ys = append f (xs ++ ys) := by
  simp [append]

theorem emit_append (f : MagFrame) (t : MagPkt) (p ys : Bytes) :
    emit (append f ys) t p = append (emit f t p) ys := by
  unfold emit
  rw [heldDrop_eq, heldDrop_eq]
  split_ifs <;> first | rfl | contradiction

theorem skip_append (f : MagFrame) {n : ℕ} (hn : n ≤ f.buf.length) (ys : Bytes) :
    skip (append f ys) n = append (skip f n) ys := by
  rcases eq_or_ne n 0 with rfl | hne
  · rfl
  · have htake : (append f ys).buf.take n = f.buf.take n := List.take_append_of_le_length hn
    rw [skip_eq _ hne, skip_eq f hne, htake]
    rfl

theorem consume_append (f : MagFrame) {n : ℕ} (hn : n ≤ f.buf.length) (ys : Bytes) :
    consume (append f ys) n = append (consume f n) ys := by
  simp [consume, append, List.drop_append_of_le_length hn]

theorem probe_append (f : MagFrame) (hlen : magInvLen ≤ f.buf.length) (ys : Bytes) :
    probe (append f ys) = append (probe f) ys := by
  have hbyte (i : ℕ) (hi : i ≤ 20) : byteAt (f.buf ++ ys) i = byteAt f.buf i :=
    byteAt_append (by unfold magInvLen at hlen; omega) ys
  have h14 : byteAt (append f ys).buf 14 = byteAt f.buf 14 := hbyte 14 (by omega)
  have h10 : byteAt (append f ys).buf 10 = byteAt f.buf 10 := hbyte 10 (by omega)
  unfold probe
  rw [h14, h10]
  by_cases hp : f.probing = true ∧ f.synced = true ∧ byteAt f.buf 14 = f.probeModel ∧
      byteAt f.buf 10 = f.probeRevision
  · have hp' : (append f ys).probing = true ∧ (append f ys).synced = true ∧
        byteAt f.buf 14 = (append f ys).probeModel ∧
        byteAt f.buf 10 = (append f ys).probeRevision := hp
    rw [if_pos hp, if_pos hp', heldFlush_eq, heldFlush_eq]
    rfl
  · have hp' : ¬((append f ys).probing = true ∧ (append f ys).synced = true ∧
        byteAt f.buf 14 = (append f ys).probeModel ∧
        byteAt f.buf 10 = (append f ys).probeRevision) := hp
    have hdropped : (if (append f ys).probing then heldDrop (append f ys) else append f ys) =
        append (if f.probing then heldDrop f else f) ys := by
      rw [heldDrop_eq, heldDrop_eq]
      split_ifs <;> first | rfl | contradiction
    have hbuf : (if f.probing then heldDrop f else f).buf = f.buf := by
      rw [heldDrop_eq]
      split <;> rfl
    rw [if_neg hp, if_neg hp', hdropped]
    simp only [append_buf, hbuf, hbyte 14 (by omega), hbyte 10 (by omega)]
    rfl

theorem takeInverter_append (f : MagFrame) (hlen : magInvLen ≤ f.buf.length) (ys : Bytes) :
    takeInverter (append f ys) = append (takeInverter f) ys := by
  have hprobed : (if (append f ys).haveId then append f ys else probe (append f ys)) =
      append (if f.haveId then f else probe f) ys := by
    rw [probe_append f hlen]
    split_ifs <;> first | rfl | contradiction
  have hbuf : (if f.haveId then f else probe f).buf = f.buf := by
    split
    · rfl
    · exact probe_buf f
  have htake : (append (if f.haveId then f else probe f) ys).buf.take magInvLen =
      (if f.haveId then f else probe f).buf.take magInvLen := by
    rw [append_buf, List.take_append_of_le_length (hbuf ▸ hlen)]
  unfold takeInverter
  dsimp only
  rw [hprobed, htake]
  exact congrArg (toState · .afterInv) (emit_append
    { (if f.haveId then f else probe f) with sinceInv := 0, synced := true } .inverter _ ys)

/-- Where hunting comes to when more bytes have arrived: to the same offset if
that window was whole, else as far or further. -/
theorem HuntsTo.append {f : MagFrame} {n m : ℕ} {ys : Bytes} (h : HuntsTo f n)
    (h' : HuntsTo (append f ys) m) :
    n ≤ m ∧ (n + magInvLen ≤ f.buf.length → m = n) := by
  have hsame (i : ℕ) (hi : i + magInvLen ≤ f.buf.length) :
      magFrameIsInverter (Magnum.append f ys) ((Magnum.append f ys).buf.drop i) =
        magFrameIsInverter f (f.buf.drop i) := by
    have hwhole : magInvLen ≤ (f.buf.drop i).length := by
      rw [List.length_drop]
      omega
    rw [isInverter_of_append, append_buf, List.drop_append_of_le_length (by omega)]
    exact isInverter_append f hwhole ys
  have hfits := h.fits
  have hle : n ≤ m := by
    by_contra hlt
    have hwhole : m + magInvLen ≤ f.buf.length := by unfold magInvLen at *; omega
    have hpass := h'.found (by rw [append_buf, List.length_append]; omega)
    rw [hsame m hwhole, h.clear m (by omega)] at hpass
    cases hpass
  refine ⟨hle, fun hwhole => le_antisymm ?_ hle⟩
  by_contra hlt
  have hclear := h'.clear n (by omega)
  rw [hsame n hwhole, h.found hwhole] at hclear
  cases hclear

/-- Skipping twice is skipping once, up to the cut. -/
theorem alike_skip_skip (f : MagFrame) {n m : ℕ} (hn : n ≠ 0) (hm : m ≠ 0) :
    Alike (consume (skip (consume (skip f n) n) m) m) (consume (skip f (n + m)) (n + m)) := by
  rw [skip_eq f hn, skip_eq _ hm, skip_eq f (show n + m ≠ 0 by omega)]
  have hpieces : pieces [⟨.unknown, f.buf.take (n + m), f.lastRx⟩] =
      pieces [⟨.unknown, f.buf.take n, f.lastRx⟩] ++
        pieces [⟨.unknown, (f.buf.drop n).take m, f.lastRx⟩] := by
    simp [pieces, List.take_add]
  exact
    { buf := by simp [consume, Nat.add_comm]
      state := rfl
      synced := rfl
      haveId := rfl
      invModel := rfl
      invRevision := rfl
      probing := rfl
      probeModel := rfl
      probeRevision := rfl
      held := by simp [consume]
      packets := rfl
      badPackets := rfl
      unknownBytes := by simp [consume, Nat.add_assoc]
      resyncs := by simp [consume]
      delivered := by
        simp only [consume, pieces_append, hpieces, Bool.false_eq_true, if_false, List.append_nil,
          List.append_assoc] }

/-- A stray byte shows in the whole packet behind it. -/
theorem strayInFront_append {f : MagFrame}
    (hlong : turnaroundByte (byteAt f.buf 0) = true → magRemoteLen + 1 ≤ f.buf.length)
    (hne : 0 < f.buf.length) (ys : Bytes) : strayInFront (append f ys) = strayInFront f := by
  have hfirst : byteAt (append f ys).buf 0 = byteAt f.buf 0 := byteAt_append hne ys
  unfold strayInFront
  rw [hfirst]
  cases hturn : turnaroundByte (byteAt f.buf 0) with
  | false => rw [Bool.false_and, Bool.false_and]
  | true =>
    have hlen := hlong hturn
    have hnext : byteAt (append f ys).buf magRemoteLen = byteAt f.buf magRemoteLen :=
      byteAt_append (by omega) ys
    have hdrop : magInvLen ≤ (f.buf.drop 1).length := by
      rw [List.length_drop]
      unfold magInvLen magRemoteLen at *
      omega
    have hbehind : magFrameIsInverter (append f ys) ((append f ys).buf.drop 1) =
        magFrameIsInverter f (f.buf.drop 1) := by
      rw [isInverter_of_append, append_buf, List.drop_append_of_le_length (by omega)]
      exact isInverter_append f hdrop ys
    rw [hnext, hbehind]

/-- A round behind an inverter packet looks at whole packets only. -/
theorem round_append_afterInv {f f' : MagFrame} (hs : f.state = .afterInv)
    (h : round f = some f') (ys : Bytes) : round (append f ys) = some (append f' ys) := by
  rw [round_afterInv hs] at h
  rw [round_afterInv (show (append f ys).state = .afterInv from hs)]
  by_cases hlen : f.buf.length < magRemoteLen
  · rw [if_pos hlen] at h
    cases h
  have hbyte (i : ℕ) (hi : i ≤ 20) : byteAt (append f ys).buf i = byteAt f.buf i :=
    byteAt_append (by unfold magRemoteLen at hlen; omega) ys
  have hmore : (append f ys).buf.length = f.buf.length + ys.length := List.length_append
  have hwhole : magFrameIsInverter (append f ys) (append f ys).buf = magFrameIsInverter f f.buf := by
    rw [isInverter_of_append]
    exact isInverter_append f (by unfold magInvLen magRemoteLen at *; omega) ys
  rw [if_neg hlen] at h
  rw [if_neg (by omega), hbyte 0 (by omega), hbyte 20 (by omega), hwhole]
  by_cases hwait : turnaroundByte (byteAt f.buf 0) = true ∧ f.buf.length < magRemoteLen + 1
  · rw [if_pos hwait] at h
    cases h
  have hwait' : ¬(turnaroundByte (byteAt f.buf 0) = true ∧
      (append f ys).buf.length < magRemoteLen + 1) := by
    rintro ⟨hturn, hshort⟩
    exact hwait ⟨hturn, by omega⟩
  have hstray : strayInFront (append f ys) = strayInFront f := by
    refine strayInFront_append (fun hturn => ?_) (by unfold magRemoteLen at hlen; omega) ys
    by_contra hshort
    exact hwait ⟨hturn, by omega⟩
  rw [if_neg hwait] at h
  rw [if_neg hwait', hstray]
  have htake : (append f ys).buf.take magRemoteLen = f.buf.take magRemoteLen :=
    List.take_append_of_le_length (by omega)
  rw [htake, emit_append]
  split_ifs at h ⊢
  · obtain rfl := Option.some.inj h
    rw [consume_append f (by unfold magRemoteLen at hlen; omega)]
  · obtain rfl := Option.some.inj h
    exact congrArg some (consume_append
      (toState (emit f .remote (f.buf.take magRemoteLen)) .afterRemote) (by simpa using hlen) ys)
  · obtain rfl := Option.some.inj h
    rfl
  · obtain rfl := Option.some.inj h
    rfl

/-- Whether a reply is plausible shows in its own bytes. -/
theorem replyOk_append {p : Bytes} (h : magReplyLen (byteAt p 0) ≤ p.length) (h0 : 0 < p.length)
    (ys : Bytes) : replyOk (p ++ ys) = replyOk p := by
  unfold replyOk
  rw [byteAt_append h0 ys]
  by_cases hlong : 1 < p.length
  · rw [byteAt_append hlong ys]
  · have hother (b : UInt8) (hb : 1 < magReplyLen b) : byteAt p 0 ≠ b := by
      rintro rfl
      omega
    have hags : byteAt p 0 ≠ 0xA1 := hother 0xA1 (by decide)
    have hbmk : byteAt p 0 ≠ 0x81 := hother 0x81 (by decide)
    rw [if_neg hags, if_neg hbmk, if_neg hags, if_neg hbmk]

/-- A round behind a remote packet looks at whole replies only. -/
theorem round_append_afterRemote {f f' : MagFrame} (hs : f.state = .afterRemote)
    (h : round f = some f') (ys : Bytes) : round (append f ys) = some (append f' ys) := by
  rw [round_afterRemote hs] at h
  rw [round_afterRemote (show (append f ys).state = .afterRemote from hs)]
  by_cases hlen : f.buf.length < 1
  · rw [if_pos hlen] at h
    cases h
  have hmore : (append f ys).buf.length = f.buf.length + ys.length := List.length_append
  have hfirst : byteAt (append f ys).buf 0 = byteAt f.buf 0 := byteAt_append (by omega) ys
  rw [if_neg hlen] at h
  rw [if_neg (by omega), hfirst]
  by_cases hreply : magReplyLen (byteAt f.buf 0) = 0
  · rw [if_pos hreply] at h ⊢
    obtain rfl := Option.some.inj h
    rfl
  rw [if_neg hreply] at h ⊢
  by_cases hshort : f.buf.length < magReplyLen (byteAt f.buf 0)
  · rw [if_pos hshort] at h
    cases h
  rw [if_neg hshort] at h
  rw [if_neg (by omega)]
  have hok : replyOk (append f ys).buf = replyOk f.buf :=
    replyOk_append (by omega) (by omega) ys
  have htake : (append f ys).buf.take (magReplyLen (byteAt f.buf 0)) =
      f.buf.take (magReplyLen (byteAt f.buf 0)) := List.take_append_of_le_length (by omega)
  rw [hok, htake, show toState (append f ys) .hunt = append (toState f .hunt) ys from rfl,
    emit_append]
  split_ifs at h ⊢
  · obtain rfl := Option.some.inj h
    rfl
  · obtain rfl := Option.some.inj h
    exact congrArg some (consume_append _ (by simpa using hshort) ys)

/-- A round that is not of hunting is the same when more bytes have arrived. -/
theorem round_append_of_not_hunt {f f' : MagFrame} (hstate : f.state ≠ .hunt)
    (h : round f = some f') (ys : Bytes) : round (append f ys) = some (append f' ys) := by
  cases hs : f.state with
  | hunt => exact absurd hs hstate
  | afterInv => exact round_append_afterInv hs h ys
  | afterRemote => exact round_append_afterRemote hs h ys

/-- A round taken before more bytes arrive makes no difference. -/
theorem process_append_round {f f' : MagFrame} (h : round f = some f') (ys : Bytes) :
    Alike (process (append f' ys)) (process (append f ys)) := by
  by_cases hstate : f.state = .hunt
  · rcases Nat.lt_or_ge f.buf.length magInvLen with hlen | hlen
    · simp [round_hunt_short hstate hlen] at h
    obtain ⟨n, hn⟩ := huntsTo_exists hlen
    have hstate' : (append f ys).state = .hunt := hstate
    have hlen' : magInvLen ≤ (append f ys).buf.length := by
      rw [append_buf, List.length_append]
      omega
    obtain ⟨m, hm⟩ := huntsTo_exists hlen'
    obtain ⟨hle, hsame⟩ := hn.append hm
    have hfits := hn.fits
    rw [round_hunt hstate hlen hn, Option.some.injEq] at h
    subst h
    have hround := round_hunt hstate' hlen' hm
    by_cases hmn : m = n
    · subst hmn
      -- hunting comes no further, and the round is the same
      have heq : append (if m = 0 then consume (takeInverter f) magInvLen
          else consume (skip f m) m) ys =
          if m = 0 then consume (takeInverter (append f ys)) magInvLen
          else consume (skip (append f ys) m) m := by
        split
        · rw [takeInverter_append f hlen, consume_append _ (by simpa using hlen)]
        · rw [skip_append f (by omega), consume_append _ (by simp; omega)]
      rw [heq, process_of_round hround]
      exact alike_equivalence.refl _
    · -- only part of what is skipped now could be seen before
      have hpart : f.buf.length < n + magInvLen := by
        by_contra hwhole
        exact hmn (hsame (by omega))
      have hn0 : n ≠ 0 := by omega
      have hm0 : m ≠ 0 := by omega
      rw [if_neg hn0, ← consume_append _ (by simp; omega), ← skip_append f (by omega)]
      have hrest : HuntsTo (consume (skip (append f ys) n) n) (m - n) := by
        have hjudge (p : Bytes) : magFrameIsInverter (consume (skip (append f ys) n) n) p =
            magFrameIsInverter (append f ys) p := by
          rw [skip_eq _ hn0]
          exact isInverter_eq rfl rfl rfl p
        have hfits' := hm.fits
        refine ⟨?_, fun i hi => ?_, fun hwhole => ?_⟩
        · rw [consume_buf, skip_buf, List.length_drop]
          omega
        · rw [hjudge, consume_buf, skip_buf, List.drop_drop]
          exact hm.clear _ (by omega)
        · rw [consume_buf, skip_buf, List.length_drop] at hwhole
          rw [hjudge, consume_buf, skip_buf, List.drop_drop,
            show n + (m - n) = m by omega]
          exact hm.found (by omega)
      have hlonger : magInvLen ≤ (consume (skip (append f ys) n) n).buf.length := by
        have hfits' := hm.fits
        rw [consume_buf, skip_buf, List.length_drop]
        unfold magInvLen at *
        omega
      have hround' := round_hunt (f := consume (skip (append f ys) n) n)
        (by simpa using hstate) hlonger hrest
      rw [if_neg hm0] at hround
      rw [if_neg (show m - n ≠ 0 by omega)] at hround'
      have htwice := alike_skip_skip (append f ys) hn0 (show m - n ≠ 0 by omega)
      rw [show n + (m - n) = m by omega] at htwice
      rw [process_of_round hround, process_of_round hround']
      exact htwice.process
  · have hround := round_append_of_not_hunt hstate h ys
    rw [process_of_round hround]
    exact alike_equivalence.refl _

/-- Processing before more bytes arrive makes no difference. -/
theorem process_append (f : MagFrame) (ys : Bytes) :
    Alike (process (append (process f) ys)) (process (append f ys)) :=
  drain_add round_decreases alike_equivalence ys (fun _ _ h => process_append_round h ys) f

/-! ## Feeding -/

theorem Alike.append {f g : MagFrame} (h : Alike f g) (ys : Bytes) :
    Alike (append f ys) (Magnum.append g ys) :=
  { h with buf := congrArg (· ++ ys) h.buf }

/-- The loop of `mag_frame_feed` over a framer at rest, with any number of
rounds that is no less than the bytes it is given. -/
theorem feedLoop_of_short {f : MagFrame} (hlen : f.buf.length ≤ magRemoteLen) {data : Bytes}
    (hdata : data ≠ []) {fuel : ℕ} (hfuel : data.length ≤ fuel) :
    Alike (feedLoop fuel f data) (process (append f data)) := by
  induction fuel generalizing f data with
  | zero => exact absurd (List.length_eq_zero_iff.mp (by omega)) hdata
  | succ fuel ih =>
    rw [feedLoop, if_neg hdata]
    dsimp only
    have hroom : 0 < magBufSize - f.buf.length := by
      unfold magBufSize magRemoteLen at *
      omega
    have hsplit := List.take_append_drop (magBufSize - f.buf.length) data
    by_cases hrest : data.drop (magBufSize - f.buf.length) = []
    · rw [hrest, List.append_nil] at hsplit
      rw [hrest, hsplit]
      cases fuel <;> exact alike_equivalence.refl _
    · have hpos : 0 < data.length := List.length_pos_of_ne_nil hdata
      refine alike_equivalence.trans
        (ih (length_process _) hrest (by rw [List.length_drop]; omega)) ?_
      refine alike_equivalence.trans (process_append _ _) ?_
      rw [append_append, hsplit]
      exact alike_equivalence.refl _

/-- The loop of `mag_frame_feed`, whose first round may find the buffer full. -/
theorem feedLoop_alike (f : MagFrame) {data : Bytes} (hdata : data ≠ []) :
    Alike (feedLoop (data.length + 1) f data) (process (append f data)) := by
  rw [feedLoop, if_neg hdata]
  dsimp only
  have hsplit := List.take_append_drop (magBufSize - f.buf.length) data
  by_cases hrest : data.drop (magBufSize - f.buf.length) = []
  · rw [hrest, List.append_nil] at hsplit
    rw [hrest, hsplit]
    cases data.length <;> exact alike_equivalence.refl _
  · refine alike_equivalence.trans
      (feedLoop_of_short (length_process _) hrest (by rw [List.length_drop]; omega)) ?_
    refine alike_equivalence.trans (process_append _ _) ?_
    rw [append_append, hsplit]
    exact alike_equivalence.refl _

/-- Feeding bytes without forgetting is processing them behind the buffer. -/
theorem magFrameFeed_alike {f : MagFrame} {data : Bytes} (hdata : data ≠ [])
    (hkeeps : forgets f data.length = false) (now : Double) :
    Alike (magFrameFeed f data now) (process (append f data)) := by
  have hnoted : Alike (noteBytes f data now) f :=
    { alike_equivalence.refl f with haveId := by simp [noteBytes, hkeeps] }
  rw [magFrameFeed, if_neg hdata]
  exact alike_equivalence.trans (feedLoop_alike _ hdata) (hnoted.append data).process

/-- The counters that only `mag_frame_feed` itself changes. -/
def received (f : MagFrame) : ℕ × ℕ := (f.st.bytesRead, f.st.ffBytes)

theorem emit_received (f : MagFrame) (t : MagPkt) (p : Bytes) :
    received (emit f t p) = received f := by
  unfold emit
  simp only [heldDrop_eq, deliver_eq]
  split_ifs <;> rfl

theorem skip_received (f : MagFrame) (n : ℕ) : received (skip f n) = received f := by
  rcases eq_or_ne n 0 with rfl | hn
  · rfl
  · rw [skip_eq f hn]
    rfl

theorem takeInverter_received (f : MagFrame) : received (takeInverter f) = received f := by
  have hprobe : received (probe f) = received f := by
    unfold probe
    rw [heldFlush_eq, heldDrop_eq]
    split_ifs <;> rfl
  have hemit := emit_received { (if f.haveId then f else probe f) with sinceInv := 0, synced := true }
    .inverter ((if f.haveId then f else probe f).buf.take magInvLen)
  refine (show received (takeInverter f) = _ from hemit).trans ?_
  split
  · rfl
  · exact hprobe

theorem round_received {f f' : MagFrame} (h : round f = some f') : received f' = received f := by
  cases hstate : f.state with
  | hunt =>
    rcases Nat.lt_or_ge f.buf.length magInvLen with hlen | hlen
    · simp [round_hunt_short hstate hlen] at h
    · obtain ⟨n, hn⟩ := huntsTo_exists hlen
      rw [round_hunt hstate hlen hn, Option.some.injEq] at h
      subst h
      split
      · exact takeInverter_received f
      · exact skip_received f n
  | afterInv =>
    rw [round_afterInv hstate] at h
    split_ifs at h
    · obtain rfl := Option.some.inj h
      rfl
    · obtain rfl := Option.some.inj h
      exact emit_received f .remote _
    · obtain rfl := Option.some.inj h
      rfl
    · obtain rfl := Option.some.inj h
      rfl
  | afterRemote =>
    rw [round_afterRemote hstate] at h
    split_ifs at h
    · obtain rfl := Option.some.inj h
      rfl
    · obtain rfl := Option.some.inj h
      rfl
    · obtain rfl := Option.some.inj h
      exact emit_received (toState f .hunt) _ _

theorem process_received (f : MagFrame) : received (process f) = received f :=
  drain_preserves (P := fun g => received g = received f)
    (fun _ _ hg hround => (round_received hround).trans hg) rfl

theorem magFrameFeed_received (f : MagFrame) (data : Bytes) (now : Double) :
    received (magFrameFeed f data now) =
      (f.st.bytesRead + data.length, f.st.ffBytes + data.count 0xFF) := by
  have hloop (fuel : ℕ) (f : MagFrame) (data : Bytes) :
      received (feedLoop fuel f data) = received f := by
    induction fuel generalizing f data with
    | zero => rfl
    | succ fuel ih =>
      rw [feedLoop]
      split
      · rfl
      · exact (ih _ _).trans (process_received _)
  unfold magFrameFeed
  split
  case isTrue hdata =>
    subst hdata
    rfl
  case isFalse => exact hloop _ _ _

/-! ## Chunks -/

/-- Bytes fed in one call, and when. -/
abbrev Chunk : Type := Bytes × Double

/-- A call of `mag_frame_feed`. -/
def feed (f : MagFrame) (c : Chunk) : MagFrame := magFrameFeed f c.1 c.2

/-- A call does not forget the inverter. -/
def Keeps (f : MagFrame) (c : Chunk) : Prop := c.1 ≠ [] → forgets f c.1.length = false

/-- The bytes of some chunks. -/
def stream (cs : List Chunk) : Bytes := (cs.map Prod.fst).flatten

/-- Feeding chunks is processing their bytes together. -/
theorem run_feed_alike {f : MagFrame} {cs : List Chunk} (hkeeps : Along feed Keeps f cs) :
    Alike (run feed f cs) (if stream cs = [] then f else process (append f (stream cs))) := by
  induction cs generalizing f with
  | nil => exact alike_equivalence.refl f
  | cons c cs ih =>
    obtain ⟨hc, hrest⟩ := hkeeps
    have hstream : stream (c :: cs) = c.1 ++ stream cs := rfl
    rw [run_cons, hstream]
    by_cases hempty : c.1 = []
    · have hsame : feed f c = f := by rw [feed, magFrameFeed, if_pos hempty]
      rw [hsame] at hrest ⊢
      rw [hempty, List.nil_append]
      exact ih hrest
    · have hfed : Alike (feed f c) (process (append f c.1)) :=
        magFrameFeed_alike hempty (hc hempty) c.2
      rw [if_neg (by simp [hempty])]
      refine alike_equivalence.trans (ih hrest) ?_
      split
      case isTrue hnone =>
        rw [hnone, List.append_nil]
        exact hfed
      case isFalse =>
        rw [← append_append]
        exact alike_equivalence.trans (hfed.append (stream cs)).process (process_append _ _)

theorem run_feed_received (f : MagFrame) (cs : List Chunk) :
    received (run feed f cs) =
      (f.st.bytesRead + (stream cs).length, f.st.ffBytes + (stream cs).count 0xFF) := by
  induction cs generalizing f with
  | nil => rfl
  | cons c cs ih =>
    have hstream : stream (c :: cs) = c.1 ++ stream cs := rfl
    have hfirst := magFrameFeed_received f c.1 c.2
    rw [run_cons, ih, hstream, List.length_append, List.count_append]
    have hread : (feed f c).st.bytesRead = f.st.bytesRead + c.1.length := congrArg Prod.fst hfirst
    have hff : (feed f c).st.ffBytes = f.st.ffBytes + c.1.count 0xFF := congrArg Prod.snd hfirst
    rw [hread, hff, Nat.add_assoc, Nat.add_assoc]

/-- What is seen of a framer: the packets delivered, all bytes delivered, the
counters, and its state without its clocks. -/
structure Observed where
  packets : List (MagPkt × Bytes)
  bytes : Bytes
  st : MagFrameStats
  buf : Bytes
  state : MagState
  synced : Bool
  haveId : Bool
  invModel : UInt8
  invRevision : UInt8
  probing : Bool
  probeModel : UInt8
  probeRevision : UInt8
  held : List MagHeld

/-- The packets delivered, skipped bytes apart. -/
def packetsOf (ds : List Delivery) : List (MagPkt × Bytes) :=
  (ds.filter fun d => d.type ≠ .unknown).map fun d => (d.type, d.bytes)

/-- What is seen of a framer. -/
def observed (f : MagFrame) : Observed :=
  ⟨packetsOf f.delivered, bytesOf f.delivered, f.st, f.buf, f.state, f.synced, f.haveId, f.invModel,
    f.invRevision, f.probing, f.probeModel, f.probeRevision, f.held⟩

/-- The packets delivered are among the pieces. -/
theorem packetsOf_eq (ds : List Delivery) :
    packetsOf ds = (pieces ds).filter fun p => p.1 ≠ .unknown := by
  induction ds with
  | nil => rfl
  | cons d ds ih =>
    have hcons : pieces (d :: ds) = pieces [d] ++ pieces ds := pieces_append [d] ds
    rw [hcons, List.filter_append, ← ih]
    by_cases ht : d.type = .unknown <;> simp [packetsOf, pieces, ht]

/-- The bytes delivered are those of the pieces. -/
theorem bytesOf_eq (ds : List Delivery) : bytesOf ds = (pieces ds).flatMap (·.2) := by
  induction ds with
  | nil => rfl
  | cons d ds ih =>
    have hcons : pieces (d :: ds) = pieces [d] ++ pieces ds := pieces_append [d] ds
    rw [hcons, List.flatMap_append, ← ih]
    by_cases ht : d.type = .unknown <;> simp [bytesOf, pieces, ht, List.flatMap_map]

/-- Alike framers that have received the same look the same. -/
theorem Alike.observed {f g : MagFrame} (h : Alike f g) (hreceived : received f = received g) :
    observed f = Magnum.observed g := by
  have hst : f.st = g.st := by
    have hread : f.st.bytesRead = g.st.bytesRead := congrArg Prod.fst hreceived
    have hff : f.st.ffBytes = g.st.ffBytes := congrArg Prod.snd hreceived
    cases hf : f.st
    cases hg : g.st
    simpa [hf, hg] using And.intro hread (And.intro h.packets (And.intro h.badPackets
      (And.intro h.unknownBytes (And.intro h.resyncs hff))))
  unfold Magnum.observed
  rw [packetsOf_eq, packetsOf_eq, bytesOf_eq, bytesOf_eq, h.delivered, hst, h.buf, h.state, h.synced,
    h.haveId, h.invModel, h.invRevision, h.probing, h.probeModel, h.probeRevision, h.held]

/-- Two ways to cut a stream into calls, neither of which forgets the inverter,
come to the same. -/
theorem observed_feed_of_stream_eq (f : MagFrame) {cs ds : List Chunk}
    (hstream : stream cs = stream ds) (hcs : Along feed Keeps f cs) (hds : Along feed Keeps f ds) :
    observed (run feed f cs) = observed (run feed f ds) := by
  have hc := run_feed_alike hcs
  have hd := run_feed_alike hds
  rw [hstream] at hc
  refine Alike.observed (alike_equivalence.trans hc (alike_equivalence.symm hd)) ?_
  rw [run_feed_received, run_feed_received, hstream]

/-- Two inverter packets with a stray byte in front of them, in one call and cut
inside each of the packets. -/
theorem observed_feed_of_stream_eq_pair :
    observed (run feed magFrameInit
        [([0x55] ++ inverterPacket ++ inverterPacket, Double.zero)]) =
      observed (run feed magFrameInit
        [([0x55] ++ inverterPacket.take 5, Double.zero),
          (inverterPacket.drop 5 ++ inverterPacket.take 12, Double.zero),
          (inverterPacket.drop 12, Double.half)]) :=
  observed_feed_of_stream_eq magFrameInit rfl ⟨by unfold Keeps; decide +kernel, trivial⟩
    ⟨by unfold Keeps; decide +kernel, by unfold Keeps; decide +kernel,
      by unfold Keeps; decide +kernel, trivial⟩

end MoonFlare.Magnum
