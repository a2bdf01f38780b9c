import MoonFlare.MagRounds
import MoonFlare.Runs

/-!
# What becomes of the bytes of a tap

The framer with the bytes it was fed and what became of each of them: the stream
so far is cut into the segments that rounds, idle timeouts and resets have used
up, and the bytes still in the buffer. The framer itself is run unchanged; the
segments are only recorded beside it.
-/

namespace MoonFlare.Magnum

open Drains Runs

/-- What became of bytes that left the buffer. -/
inductive Fate where
  | inverter
  | remote
  | reply
  | turnaround
  | skipped
  | timedOut
  | forgotten
  deriving DecidableEq

/-- Bytes of the stream that left the buffer together. -/
structure Segment where
  fate : Fate
  bytes : Bytes
  deriving DecidableEq

/-- What becomes of the bytes that a round uses. -/
def fateOf (f : MagFrame) : Fate :=
  match f.state with
  | .hunt => if firstInverter f = some 0 then .inverter else .skipped
  | .afterInv => if strayInFront f then .turnaround else .remote
  | .afterRemote => .reply

/-- The segment that a round uses up. -/
def segment (f : MagFrame) : List Segment :=
  match (use f).2 with
  | .changed => []
  | .bytes n => [⟨fateOf f, f.buf.take n⟩]

/-- A framer on a tap. -/
structure Tap where
  f : MagFrame
  /-- All bytes fed so far. -/
  fed : Bytes
  /-- The segments that have left the buffer, in stream order. -/
  history : List Segment
  /-- What the framer held, and the segments so far, each time the inverter
  became known. -/
  learned : List (List MagHeld × List Segment)

/-- A round, recorded. -/
def tapRound (w : Tap) : Option Tap :=
  (round w.f).map fun f' =>
    { w with
      f := f'
      history := w.history ++ segment w.f
      learned := if !w.f.haveId && f'.haveId then
          w.learned ++ [(w.f.held, w.history ++ segment w.f)]
        else w.learned }

/-- `process`, recorded. -/
def tapProcess (w : Tap) : Tap := drain tapRound (fun w => budget w.f) w

/-- The loop of `mag_frame_feed`, recorded. -/
def tapFeedLoop : ℕ → Tap → Bytes → Tap
  | 0, w, _ => w
  | fuel + 1, w, data =>
    if data = [] then w
    else
      let room := magBufSize - w.f.buf.length
      tapFeedLoop fuel (tapProcess { w with f := append w.f (data.take room) }) (data.drop room)

/-- `mag_frame_feed`, recorded. -/
def tapFeed (w : Tap) (data : Bytes) (now : Double) : Tap :=
  if data = [] then w
  else tapFeedLoop (data.length + 1)
    { w with f := noteBytes w.f data now, fed := w.fed ++ data } data

/-- `mag_frame_idle` counts the buffered bytes as unknown. -/
def settles (f : MagFrame) (now : Double) : Bool :=
  decide (f.buf ≠ []) && !(now.sub f.lastRx).lt magIdleS

/-- `mag_frame_idle`, recorded. -/
def tapIdle (w : Tap) (now : Double) : Tap :=
  { w with
    f := magFrameIdle w.f now
    history := if settles w.f now then w.history ++ [⟨.timedOut, w.f.buf⟩] else w.history }

/-- `mag_frame_reset_stream`, recorded. -/
def tapReset (w : Tap) : Tap :=
  { w with
    f := magFrameResetStream w.f
    history := if w.f.buf = [] then w.history else w.history ++ [⟨.forgotten, w.f.buf⟩] }

/-- What happens on a tap. -/
inductive Event where
  | feed (data : Bytes) (now : Double)
  | idle (now : Double)
  | resetStream
  deriving DecidableEq

/-- One event. -/
def tapStep (w : Tap) : Event → Tap
  | .feed data now => tapFeed w data now
  | .idle now => tapIdle w now
  | .resetStream => tapReset w

/-- A tap before its first byte. -/
def tapInit : Tap := ⟨magFrameInit, [], [], []⟩

/-! ## The framer is run unchanged -/

theorem tapProcess_f (w : Tap) : (tapProcess w).f = process w.f :=
  drain_map round_decreases (fun w => by
    rw [tapRound, Option.map_map]
    exact congrFun Option.map_id (round w.f)) w

theorem tapFeedLoop_f (fuel : ℕ) (w : Tap) (data : Bytes) :
    (tapFeedLoop fuel w data).f = feedLoop fuel w.f data := by
  induction fuel generalizing w data with
  | zero => rfl
  | succ fuel ih =>
    rw [tapFeedLoop, feedLoop]
    split
    · rfl
    · rw [ih, tapProcess_f]

theorem tapFeed_f (w : Tap) (data : Bytes) (now : Double) :
    (tapFeed w data now).f = magFrameFeed w.f data now := by
  unfold tapFeed magFrameFeed
  split
  · rfl
  · exact tapFeedLoop_f _ _ _

theorem tapFeed_fed (w : Tap) (data : Bytes) (now : Double) :
    (tapFeed w data now).fed = w.fed ++ data := by
  have hprocess (w : Tap) : (tapProcess w).fed = w.fed :=
    drain_preserves (P := fun t : Tap => t.fed = w.fed) (fun t t' ht h => by
      obtain ⟨f', -, rfl⟩ := Option.map_eq_some_iff.mp h
      exact ht) rfl
  have hloop (fuel : ℕ) (w : Tap) (data : Bytes) : (tapFeedLoop fuel w data).fed = w.fed := by
    induction fuel generalizing w data with
    | zero => rfl
    | succ fuel ih =>
      rw [tapFeedLoop]
      split
      · rfl
      · exact (ih _ _).trans (hprocess _)
  unfold tapFeed
  split
  case isTrue h => rw [h, List.append_nil]
  case isFalse => exact hloop _ _ _

/-! ## What a recorded round does -/

/-- A round, with the framer behind it and the segment it uses up. -/
inductive Turn (f : MagFrame) : MagFrame → List Segment → Prop where
  | inverter (hstate : f.state = .hunt) (hlen : magInvLen ≤ f.buf.length)
      (hpass : magFrameIsInverter f f.buf = true) :
      Turn f (consume (takeInverter f) magInvLen) [⟨.inverter, f.buf.take magInvLen⟩]
  | skipped (n : ℕ) (hn : n ≠ 0) (hlen : n ≤ f.buf.length) :
      Turn f (consume (skip f n) n) [⟨.skipped, f.buf.take n⟩]
  | turnaround (hlen : 1 ≤ f.buf.length) : Turn f (consume f 1) [⟨.turnaround, f.buf.take 1⟩]
  | remote (hlen : magRemoteLen ≤ f.buf.length) :
      Turn f (consume (toState (emit f .remote (f.buf.take magRemoteLen)) .afterRemote) magRemoteLen)
        [⟨.remote, f.buf.take magRemoteLen⟩]
  | reply (n : ℕ) (t : MagPkt) (ht : t ≠ .unknown) (hn : n ≤ 18) (hlen : n ≤ f.buf.length) :
      Turn f (consume (emit (toState f .hunt) t (f.buf.take n)) n) [⟨.reply, f.buf.take n⟩]
  | hunting : Turn f (toState f .hunt) []
  | failing : Turn f (toState (addBad f) .hunt) []

theorem replyType_ne_unknown {b : UInt8} (h : magReplyLen b ≠ 0) : replyType b ≠ .unknown := by
  unfold magReplyLen at h
  unfold replyType
  split_ifs at h ⊢ <;> first | decide | exact absurd rfl h

/-- Every round is one of these. -/
theorem turn_of_round {f f' : MagFrame} (h : round f = some f') : Turn f f' (segment f) := by
  cases hstate : f.state with
  | hunt =>
    rcases Nat.lt_or_ge f.buf.length magInvLen with hlen | hlen
    · rw [round_hunt_short hstate hlen] at h
      cases h
    obtain ⟨n, hn⟩ := huntsTo_exists hlen
    have hfits := hn.fits
    rw [round_hunt hstate hlen hn, Option.some.injEq] at h
    subst h
    have huse : (use f).2 = if n = 0 then .bytes magInvLen else .bytes n := by
      rw [use, hstate]
      dsimp only
      rw [hunt_eq hlen hn]
      split <;> rfl
    by_cases hn0 : n = 0
    · subst hn0
      have hfirst : firstInverter f = some 0 := by
        cases hf : firstInverter f with
        | some i => rw [(firstInverter_some hf).eq hn]
        | none =>
          have heq := (firstInverter_none hlen hf).eq hn
          unfold magInvLen at *
          omega
      have hseg : segment f = [⟨.inverter, f.buf.take magInvLen⟩] := by
        rw [segment, huse, if_pos rfl]
        simp [fateOf, hstate, hfirst]
      rw [hseg, if_pos rfl]
      exact .inverter hstate hlen (hn.found (by omega))
    · have hfirst : firstInverter f ≠ some 0 := by
        intro hf
        exact hn0 (hn.eq (firstInverter_some hf))
      have hseg : segment f = [⟨.skipped, f.buf.take n⟩] := by
        rw [segment, huse, if_neg hn0]
        simp [fateOf, hstate, hfirst]
      rw [hseg, if_neg hn0]
      exact .skipped n hn0 (by omega)
  | afterInv =>
    rw [round_afterInv hstate] at h
    unfold segment use fateOf
    rw [hstate]
    dsimp only
    unfold afterInv
    split_ifs at h ⊢ with h1 h2 h3 h4 h5
    · obtain rfl := Option.some.inj h
      exact .turnaround (by unfold magRemoteLen at h1; omega)
    · obtain rfl := Option.some.inj h
      exact .remote (by omega)
    · obtain rfl := Option.some.inj h
      exact .hunting
    · obtain rfl := Option.some.inj h
      exact .failing
  | afterRemote =>
    rw [round_afterRemote hstate] at h
    unfold segment use fateOf
    rw [hstate]
    dsimp only
    unfold afterRemote
    dsimp only
    split_ifs at h ⊢ with h1 h2 h3 h4
    · obtain rfl := Option.some.inj h
      exact .hunting
    · obtain rfl := Option.some.inj h
      exact .failing
    · obtain rfl := Option.some.inj h
      exact .reply _ _ (replyType_ne_unknown h2) (magReplyLen_le _) (by omega)

end MoonFlare.Magnum
