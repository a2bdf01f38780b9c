import MoonFlare.MagTap

/-!
# The order in which a tap delivers

Bytes are delivered, held or buffered. Rounds keep them in stream order, and so
does an idle timeout that has nothing held. One that counts buffered bytes as
unknown while a candidate is still held delivers them in front of it.
-/

namespace MoonFlare.Magnum

open Drains Runs

/-- The bytes of what is held. -/
def heldBytes (hs : List MagHeld) : Bytes := hs.flatMap (·.b)

/-- The bytes delivered, then those held. -/
def passed (f : MagFrame) : Bytes := bytesOf f.delivered ++ heldBytes f.held

/-- The bytes of some segments. -/
def segmentBytes (ss : List Segment) : Bytes := ss.flatMap (·.bytes)

/-- Some segments without the turnaround bytes. -/
def withoutTurnaround (ss : List Segment) : List Segment :=
  ss.filter fun s => s.fate ≠ .turnaround

/-- The stream is what left the buffer and what is in it; without the
turnaround bytes it is what is delivered, held and buffered, in this order. -/
structure InOrder (w : Tap) : Prop where
  whole : w.fed = segmentBytes w.history ++ w.f.buf
  order : bytesOf w.f.delivered ++ heldBytes w.f.held ++ w.f.buf =
    segmentBytes (withoutTurnaround w.history) ++ w.f.buf

/-- What an idle timeout finds held, after a candidate that waited too long was
given up. -/
def heldAt (f : MagFrame) (now : Double) : List MagHeld :=
  if f.probing ∧ (now.sub f.lastRx).ge magProbeS then [] else f.held

/-- The condition on an event: buffered bytes are counted as unknown only when
it makes no difference that they are delivered in front of what is held. -/
def TailBehindHeld (w : Tap) : Event → Prop
  | .idle now => settles w.f now = true →
    w.f.buf ++ heldBytes (heldAt w.f now) = heldBytes (heldAt w.f now) ++ w.f.buf
  | .feed _ _ => True
  | .resetStream => True

/-- Packets are held only for a candidate. -/
def OnProbation (f : MagFrame) : Prop := f.held ≠ [] → f.probing = true

theorem held_of_not_probing {f : MagFrame} (h : OnProbation f) (hp : f.probing = false) :
    f.held = [] := by
  by_contra hne
  simp [h hne] at hp

@[simp] theorem bytesOf_append (ds es : List Delivery) :
    bytesOf (ds ++ es) = bytesOf ds ++ bytesOf es := List.flatMap_append

@[simp] theorem heldBytes_append (hs ks : List MagHeld) :
    heldBytes (hs ++ ks) = heldBytes hs ++ heldBytes ks := List.flatMap_append

@[simp] theorem segmentBytes_append (ss ts : List Segment) :
    segmentBytes (ss ++ ts) = segmentBytes ss ++ segmentBytes ts := List.flatMap_append

@[simp] theorem withoutTurnaround_append (ss ts : List Segment) :
    withoutTurnaround (ss ++ ts) = withoutTurnaround ss ++ withoutTurnaround ts :=
  List.filter_append ..

/-- Delivering what is held delivers its bytes, whatever the types. -/
theorem bytesOf_map (hs : List MagHeld) (t : MagHeld → MagPkt) (now : Double) :
    bytesOf (hs.map fun h => ⟨t h, h.b, now⟩) = heldBytes hs := by
  simp only [bytesOf, heldBytes, List.flatMap_map]

/-! ## Rounds -/

theorem heldDrop_passed (f : MagFrame) :
    passed (heldDrop f) = passed f ∧ OnProbation (heldDrop f) := by
  rw [heldDrop_eq]
  refine ⟨?_, fun h => absurd rfl h⟩
  simp only [passed, bytesOf_append, bytesOf_map f.held fun _ => .unknown]
  simp [heldBytes]

theorem heldFlush_passed (f : MagFrame) :
    passed (heldFlush f) = passed f ∧ OnProbation (heldFlush f) := by
  rw [heldFlush_eq]
  refine ⟨?_, fun h => absurd rfl h⟩
  simp only [passed, bytesOf_append, bytesOf_map f.held MagHeld.type]
  simp [heldBytes]

/-- A packet passes behind what passed before. -/
theorem emit_passed {f : MagFrame} (h : OnProbation f) {t : MagPkt} (p : Bytes)
    (ht : t ≠ .unknown ∨ f.probing = false) :
    passed (emit f t p) = passed f ++ p ∧ OnProbation (emit f t p) := by
  unfold emit
  split
  case isTrue hp =>
    split
    · refine ⟨?_, fun _ => hp.1⟩
      simp [passed, heldBytes]
    · obtain ⟨hpassed, -⟩ := heldDrop_passed f
      have hnone : (heldDrop f).held = [] := by rw [heldDrop_eq]
      rw [deliver_eq]
      refine ⟨?_, fun hne => absurd hnone hne⟩
      simp only [passed, addUnknown, hnone] at hpassed ⊢
      simp only [bytesOf_append, heldBytes, List.flatMap_nil, List.append_nil] at hpassed ⊢
      rw [hpassed]
      simp [bytesOf]
  case isFalse hp =>
    have hprobing : f.probing = false := by
      rcases ht with ht | hf
      · simpa [ht] using hp
      · exact hf
    have hnone := held_of_not_probing h hprobing
    rw [deliver_eq]
    refine ⟨?_, h⟩
    simp [passed, hnone, bytesOf, heldBytes]

theorem skip_passed {f : MagFrame} (h : OnProbation f) {n : ℕ} (hn : n ≠ 0) :
    passed (skip f n) = passed f ++ f.buf.take n ∧ OnProbation (skip f n) := by
  rw [skip_eq f hn]
  cases hp : f.probing with
  | false =>
    have hnone := held_of_not_probing h hp
    refine ⟨?_, fun hne => absurd hnone (by simpa using hne)⟩
    simp [passed, hnone, bytesOf, heldBytes]
  | true =>
    refine ⟨?_, fun hne => absurd rfl hne⟩
    simp only [passed, if_true, bytesOf_append, bytesOf_map f.held fun _ => .unknown]
    simp [bytesOf, heldBytes]

theorem takeInverter_passed {f : MagFrame} (h : OnProbation f) :
    passed (takeInverter f) = passed f ++ f.buf.take magInvLen ∧ OnProbation (takeInverter f) := by
  have hprobe : passed (probe f) = passed f ∧ OnProbation (probe f) := by
    unfold probe
    split
    · exact heldFlush_passed _
    · refine ⟨?_, fun _ => rfl⟩
      split
      · exact (heldDrop_passed f).1
      · rfl
  have hknown : passed (if f.haveId then f else probe f) = passed f ∧
      OnProbation (if f.haveId then f else probe f) := by
    split
    · exact ⟨rfl, h⟩
    · exact hprobe
  have hbuf : (if f.haveId then f else probe f).buf = f.buf := by
    split
    · rfl
    · exact probe_buf f
  obtain ⟨hpassed, hprobation⟩ := emit_passed (t := .inverter)
    (f := { (if f.haveId then f else probe f) with sinceInv := 0, synced := true }) hknown.2
    ((if f.haveId then f else probe f).buf.take magInvLen) (Or.inl (by decide))
  refine ⟨?_, hprobation⟩
  refine (show passed (takeInverter f) = _ from hpassed).trans ?_
  rw [hbuf]
  exact congrArg (· ++ f.buf.take magInvLen) hknown.1

/-- What a round does to the bytes: its segment leaves the buffer, and passes
behind what passed before unless it is a turnaround byte. -/
theorem turn_passed {f f' : MagFrame} {ss : List Segment} (h : OnProbation f) (hturn : Turn f f' ss) :
    passed f' = passed f ++ segmentBytes (withoutTurnaround ss) ∧ OnProbation f' ∧
      segmentBytes ss ++ f'.buf = f.buf := by
  have hkept (fate : Fate) (hfate : fate ≠ .turnaround) (p : Bytes) :
      segmentBytes (withoutTurnaround [⟨fate, p⟩]) = p := by
    simp [withoutTurnaround, hfate, segmentBytes]
  have hcut (fate : Fate) (n : ℕ) : segmentBytes [⟨fate, f.buf.take n⟩] ++ f.buf.drop n = f.buf := by
    rw [segmentBytes, List.flatMap_singleton, List.take_append_drop]
  cases hturn with
  | inverter hstate hlen hpass =>
    obtain ⟨hpassed, hprobation⟩ := takeInverter_passed h
    rw [hkept .inverter (by decide), consume_buf, takeInverter_buf]
    exact ⟨hpassed, hprobation, hcut _ _⟩
  | skipped n hn hlen =>
    obtain ⟨hpassed, hprobation⟩ := skip_passed h hn
    rw [hkept .skipped (by decide), consume_buf, skip_buf]
    exact ⟨hpassed, hprobation, hcut _ _⟩
  | turnaround hlen => exact ⟨(List.append_nil _).symm, h, hcut _ _⟩
  | remote hlen =>
    obtain ⟨hpassed, hprobation⟩ := emit_passed h (t := .remote) (f.buf.take magRemoteLen)
      (Or.inl (by decide))
    rw [hkept .remote (by decide), consume_buf, toState_buf, emit_buf]
    exact ⟨hpassed, hprobation, hcut _ _⟩
  | reply n t ht hn hlen =>
    obtain ⟨hpassed, hprobation⟩ := emit_passed (f := toState f .hunt) h (f.buf.take n) (Or.inl ht)
    rw [hkept .reply (by decide), consume_buf, emit_buf, toState_buf]
    exact ⟨hpassed, hprobation, hcut _ _⟩
  | hunting => exact ⟨(List.append_nil _).symm, h, rfl⟩
  | failing => exact ⟨(List.append_nil _).symm, h, rfl⟩

/-! ## Calls -/

/-- What passed is the stream that left the buffer, without turnaround bytes. -/
structure Sound (w : Tap) : Prop where
  probation : OnProbation w.f
  order : passed w.f = segmentBytes (withoutTurnaround w.history)

/-- The stream as far as it was copied to the buffer. -/
def copied (w : Tap) : Bytes := segmentBytes w.history ++ w.f.buf

theorem tapRound_sound {w w' : Tap} (h : Sound w) (hround : tapRound w = some w') :
    Sound w' ∧ copied w' = copied w := by
  obtain ⟨f', hf', rfl⟩ := Option.map_eq_some_iff.mp hround
  obtain ⟨hpassed, hprobation, hbuf⟩ := turn_passed h.probation (turn_of_round hf')
  refine ⟨⟨hprobation, ?_⟩, ?_⟩
  · rw [hpassed, h.order, withoutTurnaround_append, segmentBytes_append]
  · simp only [copied, segmentBytes_append, List.append_assoc, hbuf]

theorem tapProcess_sound {w : Tap} (h : Sound w) :
    Sound (tapProcess w) ∧ copied (tapProcess w) = copied w :=
  drain_preserves (P := fun t : Tap => Sound t ∧ copied t = copied w)
    (fun t t' ht hround => by
      obtain ⟨hsound, hsame⟩ := tapRound_sound ht.1 hround
      exact ⟨hsound, hsame.trans ht.2⟩) ⟨h, rfl⟩

/-- The loop of `mag_frame_feed` buffers all bytes it is given. -/
theorem tapFeedLoop_sound {fuel : ℕ} {w : Tap} {data : Bytes} (h : Sound w)
    (hfuel : data.length < fuel ∨ data.length ≤ fuel ∧ w.f.buf.length ≤ magRemoteLen) :
    Sound (tapFeedLoop fuel w data) ∧
      copied (tapFeedLoop fuel w data) = copied w ++ data := by
  induction fuel generalizing w data with
  | zero =>
    have hnone : data = [] := List.length_eq_zero_iff.mp (by omega)
    subst hnone
    exact ⟨h, (List.append_nil _).symm⟩
  | succ fuel ih =>
    rw [tapFeedLoop]
    split
    case isTrue hnone =>
      subst hnone
      exact ⟨h, (List.append_nil _).symm⟩
    case isFalse hdata =>
      dsimp only
      have hadded : Sound { w with f := append w.f (data.take (magBufSize - w.f.buf.length)) } :=
        ⟨h.probation, h.order⟩
      obtain ⟨hsound, hsame⟩ := tapProcess_sound hadded
      have hrest : (data.drop (magBufSize - w.f.buf.length)).length ≤ fuel := by
        have hpos : 0 < data.length := List.length_pos_of_ne_nil hdata
        rw [List.length_drop]
        unfold magBufSize magRemoteLen at *
        omega
      have hshort : (tapProcess { w with
          f := append w.f (data.take (magBufSize - w.f.buf.length)) }).f.buf.length ≤
            magRemoteLen := by
        rw [tapProcess_f]
        exact length_process _
      obtain ⟨hdone, hall⟩ := ih hsound (Or.inr ⟨hrest, hshort⟩)
      refine ⟨hdone, ?_⟩
      rw [hall, hsame]
      simp [copied, append, List.append_assoc]

theorem tapFeed_sound {w : Tap} (h : Sound w) (data : Bytes) (now : Double) :
    Sound (tapFeed w data now) ∧ copied (tapFeed w data now) = copied w ++ data := by
  unfold tapFeed
  split
  case isTrue hnone =>
    rw [hnone, List.append_nil]
    exact ⟨h, rfl⟩
  case isFalse =>
    have hnoted : Sound { w with f := noteBytes w.f data now, fed := w.fed ++ data } :=
      ⟨h.probation, h.order⟩
    exact tapFeedLoop_sound hnoted (Or.inl (Nat.lt_succ_self _))

/-- The framer at an idle timeout, after a candidate that waited too long was
given up. -/
def waited (f : MagFrame) (now : Double) : MagFrame :=
  if f.probing ∧ (now.sub f.lastRx).ge magProbeS then heldDrop f else f

theorem waited_spec {f : MagFrame} (h : OnProbation f) (now : Double) :
    passed (waited f now) = passed f ∧ OnProbation (waited f now) ∧
      (waited f now).held = heldAt f now ∧ (waited f now).buf = f.buf := by
  unfold waited heldAt
  split
  · obtain ⟨hpassed, hprobation⟩ := heldDrop_passed f
    rw [heldDrop_eq] at *
    exact ⟨hpassed, hprobation, rfl, rfl⟩
  · exact ⟨rfl, h, rfl, rfl⟩

/-- An idle timeout that leaves the buffered bytes alone. -/
theorem magFrameIdle_of_not_settles {f : MagFrame} (hf : OnProbation f) {now : Double}
    (h : settles f now = false) : magFrameIdle f now = waited f now := by
  have hbuf : (waited f now).buf = f.buf := (waited_spec hf now).2.2.2
  have hwait : (waited f now).buf = [] ∨ (now.sub f.lastRx).lt magIdleS = true := by
    rw [hbuf]
    by_cases hb : f.buf = []
    · exact Or.inl hb
    · exact Or.inr (by simpa [settles, hb] using h)
  exact if_pos hwait

/-- An idle timeout that counts the buffered bytes as unknown delivers them
whatever is held. -/
theorem magFrameIdle_of_settles {f : MagFrame} (hf : OnProbation f) {now : Double}
    (h : settles f now = true) :
    (magFrameIdle f now).buf = [] ∧ (magFrameIdle f now).held = heldAt f now ∧
      (magFrameIdle f now).probing = (waited f now).probing ∧
      bytesOf (magFrameIdle f now).delivered = bytesOf (waited f now).delivered ++ f.buf := by
  obtain ⟨-, -, hheld, hbuf⟩ := waited_spec hf now
  have hgo : ¬((waited f now).buf = [] ∨ (now.sub f.lastRx).lt magIdleS = true) := by
    rw [hbuf]
    simpa [settles, not_or] using h
  have hbad (g : MagFrame) : (if g.state ≠ .hunt then addBad g else g).held = g.held ∧
      (if g.state ≠ .hunt then addBad g else g).probing = g.probing ∧
      (if g.state ≠ .hunt then addBad g else g).delivered = g.delivered ∧
      (if g.state ≠ .hunt then addBad g else g).buf = g.buf := by
    split <;> exact ⟨rfl, rfl, rfl, rfl⟩
  obtain ⟨hheld', hprobing', hdelivered', hbuf'⟩ := hbad (waited f now)
  have hidle : magFrameIdle f now = { deliver (addUnknown
      (if (waited f now).state ≠ .hunt then addBad (waited f now) else waited f now)
      (if (waited f now).state ≠ .hunt then addBad (waited f now) else waited f now).buf.length)
      .unknown (if (waited f now).state ≠ .hunt then addBad (waited f now) else waited f now).buf with
        buf := [], state := .hunt } := by
    refine (show magFrameIdle f now = _ from if_neg hgo).trans ?_
    dsimp only
    rw [emit, if_neg (by simp)]
    rfl
  rw [hidle, deliver_eq]
  refine ⟨rfl, ?_, ?_, ?_⟩
  · exact hheld'.trans hheld
  · exact hprobing'
  · simp only [addUnknown, bytesOf_append, hdelivered', hbuf', hbuf]
    simp [bytesOf]

/-- What an idle timeout does to the bytes. -/
theorem tapIdle_inOrder_iff {w : Tap} (h : OnProbation w.f) (hw : InOrder w) (now : Double) :
    OnProbation (tapIdle w now).f ∧ (InOrder (tapIdle w now) ↔ TailBehindHeld w (.idle now)) := by
  obtain ⟨hpassed, hprobation, hheld, hbuf⟩ := waited_spec h now
  have horder : passed w.f = segmentBytes (withoutTurnaround w.history) :=
    List.append_cancel_right hw.order
  cases hsettles : settles w.f now with
  | false =>
    have hidle := magFrameIdle_of_not_settles h hsettles
    have hf : (tapIdle w now).f = waited w.f now := hidle
    have hhistory : (tapIdle w now).history = w.history := by simp [tapIdle, hsettles]
    refine ⟨hf ▸ hprobation, iff_of_true ⟨?_, ?_⟩ fun hyes => ?_⟩
    · rw [hf, hhistory, hbuf]
      exact hw.whole
    · rw [hf, hhistory]
      exact congrArg (· ++ (waited w.f now).buf) (hpassed.trans horder)
    · simp [hsettles] at hyes
  | true =>
    obtain ⟨hbuf', hheld', hprobing', hdelivered'⟩ := magFrameIdle_of_settles h hsettles
    have hhistory : (tapIdle w now).history = w.history ++ [⟨.timedOut, w.f.buf⟩] := by
      simp [tapIdle, hsettles]
    have hprobation' : OnProbation (tapIdle w now).f := by
      intro hne
      refine hprobing'.trans (hprobation ?_)
      rw [hheld, ← hheld']
      exact hne
    refine ⟨hprobation', ?_⟩
    have hkept : passed (waited w.f now) =
        bytesOf (waited w.f now).delivered ++ heldBytes (heldAt w.f now) := by
      rw [← hheld]
      rfl
    have hlast : segmentBytes (withoutTurnaround (tapIdle w now).history) =
        bytesOf (waited w.f now).delivered ++ heldBytes (heldAt w.f now) ++ w.f.buf := by
      rw [hhistory, withoutTurnaround_append, segmentBytes_append, ← horder, ← hpassed, hkept]
      simp [withoutTurnaround, segmentBytes]
    constructor
    · intro hafter _
      have heq := hafter.order
      rw [hlast] at heq
      change bytesOf (magFrameIdle w.f now).delivered ++ heldBytes (magFrameIdle w.f now).held ++
        (magFrameIdle w.f now).buf = _ ++ (magFrameIdle w.f now).buf at heq
      rw [hdelivered', hheld', hbuf', List.append_nil, List.append_nil, List.append_assoc,
        List.append_assoc] at heq
      exact List.append_cancel_left heq
    · intro hbehind
      refine ⟨?_, ?_⟩
      · rw [hhistory, segmentBytes_append]
        change w.fed = _ ++ (magFrameIdle w.f now).buf
        rw [hbuf', List.append_nil, hw.whole]
        simp [segmentBytes]
      · rw [hlast]
        change bytesOf (magFrameIdle w.f now).delivered ++ heldBytes (magFrameIdle w.f now).held ++
          (magFrameIdle w.f now).buf = _ ++ (magFrameIdle w.f now).buf
        rw [hdelivered', hheld', hbuf', List.append_nil, List.append_nil, List.append_assoc,
          hbehind hsettles, List.append_assoc]

/-- Feeding keeps the order. -/
theorem tapFeed_inOrder {w : Tap} (h : OnProbation w.f) (hw : InOrder w) (data : Bytes)
    (now : Double) : OnProbation (tapFeed w data now).f ∧ InOrder (tapFeed w data now) := by
  have hsound : Sound w := ⟨h, List.append_cancel_right hw.order⟩
  obtain ⟨hsound', hcopied⟩ := tapFeed_sound hsound data now
  refine ⟨hsound'.probation, ?_, congrArg (· ++ (tapFeed w data now).f.buf) hsound'.order⟩
  rw [tapFeed_fed, hw.whole]
  exact hcopied.symm

/-- In every run of feeds and idle timeouts the stream is in order after every
event exactly when no tail that was settled overtook what was held. -/
theorem always_inOrder_iff {es : List Event} (hes : ∀ e ∈ es, e ≠ .resetStream) :
    Always tapStep InOrder tapInit es ↔ Along tapStep TailBehindHeld tapInit es := by
  have hstep : ∀ w e, OnProbation w.f ∧ InOrder w → e ≠ Event.resetStream → TailBehindHeld w e →
      OnProbation (tapStep w e).f ∧ InOrder (tapStep w e) := by
    rintro w e ⟨h, hw⟩ he hok
    cases e with
    | feed data now => exact tapFeed_inOrder h hw data now
    | idle now =>
      obtain ⟨hprobation, hiff⟩ := tapIdle_inOrder_iff h hw now
      exact ⟨hprobation, hiff.mpr hok⟩
    | resetStream => exact absurd rfl he
  have hiff : ∀ w e, OnProbation w.f ∧ InOrder w → e ≠ Event.resetStream →
      (InOrder (tapStep w e) ↔ TailBehindHeld w e) := by
    rintro w e ⟨h, hw⟩ he
    cases e with
    | feed data now => exact iff_of_true (tapFeed_inOrder h hw data now).2 trivial
    | idle now => exact (tapIdle_inOrder_iff h hw now).2
    | resetStream => exact absurd rfl he
  have hinit : OnProbation tapInit.f ∧ InOrder tapInit := ⟨fun h => absurd rfl h, rfl, rfl⟩
  exact @along_congr _ _ _ (fun w => OnProbation w.f ∧ InOrder w) _ _ _ hstep hiff _ hinit _ hes

/-- A candidate that is held with one more byte behind it: when the bus has been
quiet for a second the candidate is given up first and the byte settled behind it. -/
theorem always_inOrder_iff_byte :
    Always tapStep InOrder tapInit
      [.feed (inverterPacket ++ [0x01]) Double.zero, .idle Double.one] :=
  (always_inOrder_iff (by decide)).mpr
    ⟨trivial, by unfold TailBehindHeld; decide +kernel, trivial⟩

/-- A candidate is held when the bus goes quiet for half a second behind one
more byte: the byte is delivered in front of the candidate. -/
theorem tail_overtakes_candidate :
    ¬Always tapStep InOrder tapInit
      [.feed (inverterPacket ++ [0x01]) Double.zero, .idle Double.half] := by
  intro h
  have horder := h.2.1.order
  exact absurd horder (by decide +kernel)

end MoonFlare.Magnum
