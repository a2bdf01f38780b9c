import MoonFlare.MagOrder

/-!
# How a tap comes to know its inverter

The inverter is known from two packets in step: a candidate, and a second packet
of its model and revision with nothing but remote packets, replies and turnaround
bytes in between. The framer keeps no record of what is in between. It has to
give the candidate up whenever bytes are lost, and an idle timeout that counts
buffered bytes as unknown within a second does not.
-/

namespace MoonFlare.Magnum

open Drains Runs

/-- A window passes as an inverter packet while no inverter is known. -/
def passes (win : Bytes) : Bool := magFrameIsInverter magFrameInit win

/-- A segment that may lie between two packets in step. -/
def between (s : Segment) : Bool :=
  s.fate = .remote || s.fate = .reply || s.fate = .turnaround

/-- The segments so far end with a packet like this one and segments that may
lie behind it; the packet and what follows it is held. -/
structure Behind (held : List MagHeld) (history : List Segment) (win : Bytes) (mid : List Segment) :
    Prop where
  segments : ∃ pre, history = pre ++ ⟨.inverter, win⟩ :: mid
  between : ∀ s ∈ mid, between s = true
  length : win.length = magInvLen
  passes : passes win = true
  held : held.map (·.b) = win :: (withoutTurnaround mid).map (·.bytes)

/-- The segments so far end with two packets in step, of one model and revision;
what is passed on now is the first one and the packets in between. -/
def InStep (held : List MagHeld) (history : List Segment) : Prop :=
  ∃ history' win mid win', history = history' ++ [⟨.inverter, win'⟩] ∧ Behind held history' win mid ∧
    passes win' = true ∧ byteAt win' 14 = byteAt win 14 ∧ byteAt win' 10 = byteAt win 10

/-- Whenever the inverter became known, two packets were in step. -/
def LearnedInStep (w : Tap) : Prop := ∀ l ∈ w.learned, InStep l.1 l.2

/-- The condition on an event: buffered bytes are counted as unknown only when
no candidate is waiting, or it has waited for so long that it is given up. -/
def GivenUp (w : Tap) : Event → Prop
  | .idle now => settles w.f now = true → w.f.probing = true →
    (now.sub w.f.lastRx).ge magProbeS = true
  | .feed _ _ => True
  | .resetStream => True

/-- What a waiting candidate means. -/
structure Evidence (w : Tap) : Prop where
  probation : OnProbation w.f
  learned : LearnedInStep w
  candidate : w.f.probing = true → w.f.haveId = false ∧ ∃ win mid,
    Behind w.f.held w.history win mid ∧ byteAt win 14 = w.f.probeModel ∧
      byteAt win 10 = w.f.probeRevision

/-- A window is judged by its own 21 bytes. -/
theorem passes_take {f : MagFrame} (hid : f.haveId = false) (hlen : magInvLen ≤ f.buf.length)
    (hpass : magFrameIsInverter f f.buf = true) : passes (f.buf.take magInvLen) = true := by
  have hwin : magInvLen ≤ (f.buf.take magInvLen).length := by
    rw [List.length_take]
    omega
  have hsame : magFrameIsInverter f f.buf = magFrameIsInverter f (f.buf.take magInvLen) := by
    conv => lhs; rw [← List.take_append_drop magInvLen f.buf]
    exact isInverter_append f hwin _
  rw [hsame] at hpass
  simpa [passes, magFrameIsInverter, hid, magFrameInit] using hpass

theorem byteAt_take {p : Bytes} {n i : ℕ} (hi : i < n) (hlen : n ≤ p.length) :
    byteAt (p.take n) i = byteAt p i := by
  have hwin : i < (p.take n).length := by
    rw [List.length_take]
    omega
  have hsame := byteAt_append hwin (p.drop n)
  rw [List.take_append_drop] at hsame
  exact hsame.symm

/-- A packet that is held keeps everything else. -/
theorem emit_probing {f : MagFrame} {t : MagPkt} (ht : t ≠ .unknown) (p : Bytes)
    (h : (emit f t p).probing = true) :
    f.probing = true ∧ emit f t p = { f with held := f.held ++ [⟨t, p⟩] } := by
  by_cases hp : f.probing = true
  · by_cases hroom : f.held.length < magHeldMax ∧ p.length ≤ magInvLen
    · refine ⟨hp, ?_⟩
      rw [emit, if_pos ⟨hp, ht⟩, if_pos hroom]
    · rw [emit, if_pos ⟨hp, ht⟩, if_neg hroom, deliver_eq, heldDrop_eq] at h
      cases h
  · rw [emit, if_neg (by simp [hp]), deliver_eq] at h
    exact absurd h hp

/-- A packet behind a candidate. -/
theorem Behind.snoc {held : List MagHeld} {history mid : List Segment} {win : Bytes}
    (h : Behind held history win mid) {fate : Fate} (hfate : fate = .remote ∨ fate = .reply)
    (t : MagPkt) (p : Bytes) :
    Behind (held ++ [⟨t, p⟩]) (history ++ [⟨fate, p⟩]) win (mid ++ [⟨fate, p⟩]) where
  segments := by
    obtain ⟨pre, hpre⟩ := h.segments
    exact ⟨pre, by rw [hpre, List.append_assoc, List.cons_append]⟩
  between := fun s hs => by
    rcases List.mem_append.mp hs with hs | hs
    · exact h.between s hs
    · rw [List.mem_singleton.mp hs]
      rcases hfate with rfl | rfl <;> rfl
  length := h.length
  passes := h.passes
  held := by
    have hkept : withoutTurnaround [⟨fate, p⟩] = [⟨fate, p⟩] := by
      rcases hfate with rfl | rfl <;> rfl
    rw [List.map_append, h.held, withoutTurnaround_append, hkept, List.map_append]
    rfl

/-- A turnaround byte behind a candidate. -/
theorem Behind.turnaround {held : List MagHeld} {history mid : List Segment} {win : Bytes}
    (h : Behind held history win mid) (p : Bytes) :
    Behind held (history ++ [⟨.turnaround, p⟩]) win (mid ++ [⟨.turnaround, p⟩]) where
  segments := by
    obtain ⟨pre, hpre⟩ := h.segments
    exact ⟨pre, by rw [hpre, List.append_assoc, List.cons_append]⟩
  between := fun s hs => by
    rcases List.mem_append.mp hs with hs | hs
    · exact h.between s hs
    · rw [List.mem_singleton.mp hs]
      rfl
  length := h.length
  passes := h.passes
  held := by
    rw [h.held, withoutTurnaround_append]
    simp [withoutTurnaround]

/-- The inverter packet at the front: it confirms the candidate, becomes a
candidate itself, or is one of the inverter that is known. -/
theorem takeInverter_cases {f : MagFrame} (h : OnProbation f)
    (hid : f.probing = true → f.haveId = false) :
    (f.haveId = true ∧ (takeInverter f).probing = false) ∨
    (f.haveId = false ∧ f.probing = true ∧ byteAt f.buf 14 = f.probeModel ∧
      byteAt f.buf 10 = f.probeRevision ∧ (takeInverter f).probing = false) ∨
    (f.haveId = false ∧ (takeInverter f).haveId = false ∧
      (takeInverter f).held = [⟨.inverter, f.buf.take magInvLen⟩] ∧
      (takeInverter f).probeModel = byteAt f.buf 14 ∧
      (takeInverter f).probeRevision = byteAt f.buf 10) := by
  have hdone (g : MagFrame) (hg : g.probing = false) :
      (emit { g with sinceInv := 0, synced := true } .inverter (g.buf.take magInvLen)).probing =
        false := by
    cases hp : (emit { g with sinceInv := 0, synced := true } .inverter
        (g.buf.take magInvLen)).probing with
    | false => rfl
    | true => exact absurd (emit_probing (by decide) _ hp).1 (by simp [hg])
  cases hknown : f.haveId with
  | true =>
    have hprobing : f.probing = false := by
      cases hp : f.probing with
      | false => rfl
      | true => exact absurd (hid hp) (by simp [hknown])
    refine Or.inl ⟨rfl, ?_⟩
    unfold takeInverter
    dsimp only
    rw [hknown, if_pos rfl]
    exact hdone f hprobing
  | false =>
    refine Or.inr ?_
    unfold takeInverter
    dsimp only
    rw [hknown, if_neg (by simp)]
    by_cases hmatch : f.probing = true ∧ f.synced = true ∧ byteAt f.buf 14 = f.probeModel ∧
        byteAt f.buf 10 = f.probeRevision
    · refine Or.inl ⟨rfl, hmatch.1, hmatch.2.2.1, hmatch.2.2.2, ?_⟩
      have hconfirmed : (probe f).probing = false := by
        rw [probe, if_pos hmatch, heldFlush_eq]
      exact hdone (probe f) hconfirmed
    · refine Or.inr ⟨rfl, ?_⟩
      have hdropped : (if f.probing then heldDrop f else f).held = [] ∧
          (if f.probing then heldDrop f else f).haveId = false ∧
          (if f.probing then heldDrop f else f).buf = f.buf := by
        rw [heldDrop_eq]
        cases hp : f.probing with
        | false => exact ⟨held_of_not_probing h hp, hknown, rfl⟩
        | true => exact ⟨rfl, hknown, rfl⟩
      obtain ⟨hheld, hidle, hbuf⟩ := hdropped
      have hprobe : (probe f).held = [] ∧ (probe f).haveId = false ∧ (probe f).probing = true ∧
          (probe f).probeModel = byteAt f.buf 14 ∧ (probe f).probeRevision = byteAt f.buf 10 := by
        rw [probe, if_neg hmatch]
        refine ⟨hheld, hidle, rfl, ?_, ?_⟩
        · exact congrArg (byteAt · 14) hbuf
        · exact congrArg (byteAt · 10) hbuf
      obtain ⟨hpheld, hpid, hpprobing, hpmodel, hprevision⟩ := hprobe
      have hroom : (probe f).held.length < magHeldMax ∧
          ((probe f).buf.take magInvLen).length ≤ magInvLen := by
        rw [hpheld, List.length_take]
        exact ⟨by decide, Nat.min_le_left _ _⟩
      have hemit : emit { probe f with sinceInv := 0, synced := true } .inverter
          ((probe f).buf.take magInvLen) = { probe f with
            sinceInv := 0, synced := true
            held := (probe f).held ++ [⟨.inverter, (probe f).buf.take magInvLen⟩] } := by
        rw [emit, if_pos ⟨hpprobing, by decide⟩, if_pos hroom]
      rw [hemit]
      refine ⟨hpid, ?_, hpmodel, hprevision⟩
      simp only [toState, hpheld, probe_buf, List.nil_append]

/-- A round, recorded: the candidate's evidence holds on, and the inverter
becomes known from packets in step only. -/
theorem tapRound_evidence {w w' : Tap} (h : Evidence w) (hround : tapRound w = some w') :
    Evidence w' := by
  obtain ⟨f', hf', rfl⟩ := Option.map_eq_some_iff.mp hround
  have hturn := turn_of_round hf'
  obtain ⟨-, hprobation, -⟩ := turn_passed h.probation hturn
  -- a turn that leaves what is known alone adds nothing to what was learned
  have hsame (hid : f'.haveId = w.f.haveId) : (if !w.f.haveId && f'.haveId then
      w.learned ++ [(w.f.held, w.history ++ segment w.f)] else w.learned) = w.learned := by
    rw [hid]
    cases w.f.haveId <;> rfl
  generalize segment w.f = ss at hturn hsame ⊢
  cases hturn with
  | inverter hstate hlen hpass =>
    have hlong : 14 < magInvLen ∧ 10 < magInvLen := by decide
    have hmodel := byteAt_take hlong.1 hlen
    have hrevision := byteAt_take hlong.2 hlen
    rcases takeInverter_cases h.probation fun hp => (h.candidate hp).1 with
      ⟨hknown, hno⟩ | ⟨hunknown, hp, hm, hr, hno⟩ | ⟨hunknown, hid, hheld, hm, hr⟩
    · refine ⟨hprobation, ?_, fun hyes => absurd (hyes.symm.trans hno) (by simp)⟩
      rw [hknown]
      exact h.learned
    · refine ⟨hprobation, ?_, fun hyes => absurd (hyes.symm.trans hno) (by simp)⟩
      intro l hl
      dsimp only at hl
      split at hl
      · rcases List.mem_append.mp hl with hl | hl
        · exact h.learned l hl
        · obtain ⟨-, win, mid, hbehind, hwm, hwr⟩ := h.candidate hp
          rw [List.mem_singleton.mp hl]
          exact ⟨w.history, win, mid, w.f.buf.take magInvLen, rfl, hbehind,
            passes_take hunknown hlen hpass, hmodel.trans (hm.trans hwm.symm),
            hrevision.trans (hr.trans hwr.symm)⟩
      · exact h.learned l hl
    · refine ⟨hprobation, ?_, fun _ => ⟨hid, w.f.buf.take magInvLen, [], ?_, ?_, ?_⟩⟩
      · rw [LearnedInStep]
        dsimp only
        rw [hsame (hid.trans hunknown.symm)]
        exact h.learned
      · exact
          { segments := ⟨w.history, rfl⟩
            between := fun s hs => absurd hs List.not_mem_nil
            length := by
              rw [List.length_take]
              omega
            passes := passes_take hunknown hlen hpass
            held := congrArg (List.map MagHeld.b) hheld }
      · exact hmodel.trans hm.symm
      · exact hrevision.trans hr.symm
  | skipped n hn hlen =>
    have hno : (skip w.f n).probing = false := by rw [skip_eq w.f hn]
    have hid : (skip w.f n).haveId = w.f.haveId := by rw [skip_eq w.f hn]
    refine ⟨hprobation, ?_, fun hyes => absurd (hyes.symm.trans hno) (by simp)⟩
    rw [LearnedInStep]
    dsimp only
    rw [hsame hid]
    exact h.learned
  | turnaround hlen =>
    refine ⟨hprobation, ?_, fun hp => ?_⟩
    · rw [LearnedInStep]
      dsimp only
      rw [hsame rfl]
      exact h.learned
    · obtain ⟨hid, win, mid, hbehind, hwm, hwr⟩ := h.candidate hp
      exact ⟨hid, win, _, hbehind.turnaround _, hwm, hwr⟩
  | remote hlen =>
    have hid := (emit_fields w.f .remote (w.f.buf.take magRemoteLen)).2.2.2.1
    refine ⟨hprobation, ?_, fun hp => ?_⟩
    · rw [LearnedInStep]
      dsimp only
      rw [hsame hid]
      exact h.learned
    · obtain ⟨hp', hheld⟩ := emit_probing (t := .remote) (by decide) _ hp
      obtain ⟨hid', win, mid, hbehind, hwm, hwr⟩ := h.candidate hp'
      refine ⟨hid.trans hid', win, mid ++ [⟨.remote, w.f.buf.take magRemoteLen⟩], ?_⟩
      rw [hheld]
      exact ⟨hbehind.snoc (Or.inl rfl) .remote _, hwm, hwr⟩
  | reply n t ht hn hlen =>
    have hid := (emit_fields (toState w.f .hunt) t (w.f.buf.take n)).2.2.2.1
    refine ⟨hprobation, ?_, fun hp => ?_⟩
    · rw [LearnedInStep]
      dsimp only
      rw [hsame hid]
      exact h.learned
    · obtain ⟨hp', hheld⟩ := emit_probing ht _ hp
      obtain ⟨hid', win, mid, hbehind, hwm, hwr⟩ := h.candidate hp'
      refine ⟨hid.trans hid', win, mid ++ [⟨.reply, w.f.buf.take n⟩], ?_⟩
      rw [hheld]
      exact ⟨hbehind.snoc (Or.inr rfl) t _, hwm, hwr⟩
  | hunting =>
    refine ⟨hprobation, ?_, fun hp => ?_⟩
    · rw [LearnedInStep]
      dsimp only
      rw [hsame rfl]
      exact h.learned
    · rw [List.append_nil]
      exact h.candidate hp
  | failing =>
    refine ⟨hprobation, ?_, fun hp => ?_⟩
    · rw [LearnedInStep]
      dsimp only
      rw [hsame rfl]
      exact h.learned
    · rw [List.append_nil]
      exact h.candidate hp

/-- Feeding keeps the evidence. -/
theorem tapFeed_evidence {w : Tap} (h : Evidence w) (data : Bytes) (now : Double) :
    Evidence (tapFeed w data now) := by
  have hloop (fuel : ℕ) (w : Tap) (h : Evidence w) (data : Bytes) :
      Evidence (tapFeedLoop fuel w data) := by
    induction fuel generalizing w data with
    | zero => exact h
    | succ fuel ih =>
      rw [tapFeedLoop]
      split
      · exact h
      · refine ih _ ?_ _
        exact drain_preserves (P := Evidence) (fun _ _ => tapRound_evidence)
          ⟨h.probation, h.learned, h.candidate⟩
  unfold tapFeed
  split
  · exact h
  · have hnoted : Evidence { w with f := noteBytes w.f data now, fed := w.fed ++ data } := by
      refine ⟨h.probation, h.learned, fun hp => ?_⟩
      obtain ⟨hid, hrest⟩ := h.candidate hp
      refine ⟨?_, hrest⟩
      simp only [noteBytes]
      split
      · rfl
      · exact hid
    exact hloop _ _ hnoted _

/-- An idle timeout that gives up the candidate before it counts bytes as
unknown keeps the evidence. -/
theorem tapIdle_evidence {w : Tap} (h : Evidence w) {now : Double} (hok : GivenUp w (.idle now)) :
    Evidence (tapIdle w now) := by
  obtain ⟨-, hprobation, hheld, -⟩ := waited_spec h.probation now
  cases hsettles : settles w.f now with
  | false =>
    have hidle : magFrameIdle w.f now = waited w.f now :=
      magFrameIdle_of_not_settles h.probation hsettles
    have hw : tapIdle w now = { w with f := waited w.f now } := by
      simp [tapIdle, hsettles, hidle]
    rw [hw]
    refine ⟨hprobation, h.learned, fun hp => ?_⟩
    dsimp only at hp ⊢
    unfold waited at hp ⊢
    split
    case isTrue hgone =>
      rw [if_pos hgone, heldDrop_eq] at hp
      cases hp
    case isFalse hstays =>
      rw [if_neg hstays] at hp
      exact h.candidate hp
  | true =>
    obtain ⟨-, hheld', hprobing', -⟩ := magFrameIdle_of_settles h.probation hsettles
    have hno : (waited w.f now).probing = false := by
      unfold waited
      split
      case isTrue => rw [heldDrop_eq]
      case isFalse hstays =>
        cases hp : w.f.probing with
        | false => rfl
        | true => exact absurd ⟨hp, hok hsettles hp⟩ hstays
    have hgone : (tapIdle w now).f.probing = false := hprobing'.trans hno
    refine ⟨fun hne => ?_, h.learned, fun hp => absurd (hp.symm.trans hgone) (by simp)⟩
    refine hprobing'.trans (hprobation ?_)
    rw [hheld, ← hheld']
    exact hne

/-- In every run in which no tail is settled while a candidate is waiting, the
inverter becomes known from two packets in step only. -/
theorem learnedInStep_of_givenUp {es : List Event} (hes : Along tapStep GivenUp tapInit es) :
    Always tapStep LearnedInStep tapInit es := by
  have hstep : ∀ w e, Evidence w → GivenUp w e → Evidence (tapStep w e) := by
    intro w e h hok
    cases e with
    | feed data now => exact tapFeed_evidence h data now
    | idle now => exact tapIdle_evidence h hok
    | resetStream => exact ⟨fun hne => absurd rfl hne, h.learned, fun hp => by cases hp⟩
  have hinit : Evidence tapInit :=
    ⟨fun h => absurd rfl h, fun l hl => absurd hl List.not_mem_nil, fun h => by cases h⟩
  exact always_of_along hstep (fun _ h => h.learned) hinit hes

/-- Two inverter packets, the second one right behind the first. -/
theorem learnedInStep_of_givenUp_pair :
    Always tapStep LearnedInStep tapInit
      [.feed inverterPacket Double.zero, .feed inverterPacket Double.half, .idle Double.one] :=
  learnedInStep_of_givenUp ⟨trivial, trivial, by unfold GivenUp; decide +kernel, trivial⟩

/-- A candidate, a byte that an idle timeout counts as unknown, and a second
packet: the inverter is known from packets that are not in step. -/
theorem known_across_lost_byte :
    ¬Always tapStep LearnedInStep tapInit
      [.feed (inverterPacket ++ [0x01]) Double.zero, .idle Double.half,
        .feed inverterPacket Double.half] := by
  intro h
  have hlearned : (tapStep (tapStep (tapStep tapInit
      (.feed (inverterPacket ++ [0x01]) Double.zero)) (.idle Double.half))
        (.feed inverterPacket Double.half)).learned =
      [([⟨.inverter, inverterPacket⟩], [⟨.inverter, inverterPacket⟩, ⟨.timedOut, [0x01]⟩,
        ⟨.inverter, inverterPacket⟩])] := by
    decide +kernel
  obtain ⟨history', win, mid, win', hhistory, hbehind, -⟩ :=
    h.2.2.1 _ (hlearned ▸ List.mem_singleton_self _)
  obtain ⟨pre, hpre⟩ := hbehind.segments
  have hlast : [⟨.inverter, inverterPacket⟩, ⟨.timedOut, [0x01]⟩] = history' := by
    have hinit := congrArg List.dropLast hhistory
    rwa [List.dropLast_concat] at hinit
  -- the segment in front of the last one is the byte that was lost
  rw [← hlast] at hpre
  match pre with
  | [] =>
    obtain ⟨-, hmid⟩ := List.cons_eq_cons.mp hpre
    have hlost := hbehind.between ⟨.timedOut, [0x01]⟩ (hmid ▸ List.mem_singleton_self _)
    exact absurd hlost (by decide)
  | [s] =>
    obtain ⟨-, hrest⟩ := List.cons_eq_cons.mp hpre
    obtain ⟨hsegment, -⟩ := List.cons_eq_cons.mp hrest
    exact Fate.noConfusion (congrArg Segment.fate hsegment)
  | s :: s' :: pre' =>
    have hlength := congrArg List.length hpre
    simp at hlength

end MoonFlare.Magnum
