import MoonFlare.JkWriteQueue

/-!
# The charge limits of the JK battery

The overvoltage limit and the charge voltage are those a settings frame last
reported, with the writes put into the queue since applied to them one by one. As
long as the limits that a request goes by are these, a charge voltage stays below
the overvoltage limit, and a release voltage 0.1 V below it.
-/

namespace MoonFlare.JkWrites

open Jk Runs Arithmetic

/-! ## Exact voltages -/

theorem round3_rat (v : ℚ) : round3 v =
    if 0 ≤ v then (toLong (v * 1000 + 1 / 2) : ℚ) / 1000
    else (toLong (v * 1000 - 1 / 2) : ℚ) / 1000 := by
  simp [round3]

theorem saturate_rat (low high v : ℚ) :
    saturate low high v = if v < low then low else if high < v then high else v := by
  simp [saturate]

theorem jkOvpMinV_rat : (jkOvpMinV : ℚ) = 250 / 100 := rfl

theorem jkOvpMaxV_rat : (jkOvpMaxV : ℚ) = 420 / 100 := rfl

theorem jkOvprGapV_rat : (jkOvprGapV : ℚ) = 10 / 100 := rfl

theorem jkClampOvprV_rat (volts ovpV : ℚ) : jkClampOvprV volts ovpV =
    let cap := round3 (jkClampOvpV ovpV - jkOvprGapV)
    let cap := if cap < jkOvpMinV - jkOvprGapV then jkOvpMinV - jkOvprGapV else cap
    let v := round3 volts
    let v := if cap < v then cap else v
    if v < 240 / 100 then 240 / 100 else v := by
  simp [jkClampOvprV]

theorem jkVoltsToMv_rat (volts : ℚ) :
    jkVoltsToMv volts = if 0 ≤ volts then (toLong (volts * 1000 + 1 / 2)).toNat else 0 := by
  simp [jkVoltsToMv]

theorem clampRcv_rat (rcv ovp : ℚ) : clampRcv rcv ovp =
    let rcv := if rcv < 250 / 100 then 250 / 100 else rcv
    if ovp - 1 / 100 < rcv then ovp - 1 / 100 else rcv := by
  simp [clampRcv]

theorem rcvBelow_rat (ovp : ℚ) : rcvBelow ovp =
    let rcv := ovp - 5 / 100
    let rcv := if rcv < 340 / 100 then 340 / 100 else rcv
    if ovp ≤ rcv then ovp - 1 / 100 else rcv := by
  simp [rcvBelow]

theorem rcvTooHigh_rat (c : JkCtx ℚ) (r : Request ℚ) : rcvTooHigh c r =
    (c.haveSettings && decide (wantedOvp c r - 1 / 1000 ≤ c.cellRcvV)) := rfl

/-! ## Whole millivolts -/

/-- A number of whole millivolts, half a millivolt added, is cut to itself. -/
theorem toLong_milli (k : ℕ) : toLong ((k : ℚ) / 1000 * 1000 + 1 / 2) = k := by
  have hpos : (0 : ℚ) ≤ k := Nat.cast_nonneg k
  rw [toLong_rat, div_mul_cancel₀ _ (by norm_num), if_pos (by linarith), Int.floor_eq_iff]
  constructor <;> push_cast <;> linarith

theorem round3_milli (k : ℕ) : round3 ((k : ℚ) / 1000) = k / 1000 := by
  have hpos : (0 : ℚ) ≤ k / 1000 := by positivity
  rw [round3_rat, if_pos hpos, toLong_milli, Int.cast_natCast]

theorem jkVoltsToMv_milli (k : ℕ) : jkVoltsToMv ((k : ℚ) / 1000) = k := by
  have hpos : (0 : ℚ) ≤ k / 1000 := by positivity
  rw [jkVoltsToMv_rat, if_pos hpos, toLong_milli, Int.toNat_natCast]

/-- A voltage below half a millivolt behind some is written as at most these. -/
theorem jkVoltsToMv_lt {v : ℚ} {k : ℕ} (h : v < (k : ℚ) / 1000 + 1 / 2000) : jkVoltsToMv v ≤ k := by
  rw [jkVoltsToMv_rat]
  split
  · next hpos =>
    have hnonneg : (0 : ℚ) ≤ v * 1000 + 1 / 2 := by linarith
    have hfloor : ⌊v * 1000 + 1 / 2⌋ < (k : ℤ) + 1 := by
      rw [Int.floor_lt]
      push_cast
      linarith
    rw [toLong_rat, if_pos hnonneg]
    omega
  · exact Nat.zero_le k

theorem round3_whole (v : ℚ) : ∃ z : ℤ, round3 v = z / 1000 := by
  rw [round3_rat]
  split
  · exact ⟨_, rfl⟩
  · exact ⟨_, rfl⟩

/-- An overvoltage limit is written in whole millivolts, from 2.50 V to 4.20 V. -/
theorem jkClampOvpV_milli (v : ℚ) :
    ∃ k : ℕ, jkClampOvpV v = (k : ℚ) / 1000 ∧ 2500 ≤ k ∧ k ≤ 4200 := by
  rw [jkClampOvpV, saturate_rat, jkOvpMinV_rat, jkOvpMaxV_rat]
  obtain ⟨z, hz⟩ := round3_whole v
  rw [hz]
  split
  · exact ⟨2500, by norm_num, le_refl _, by norm_num⟩
  next hlow =>
    split
    · exact ⟨4200, by norm_num, by norm_num, le_refl _⟩
    next hhigh =>
      have hz1 : (2500 : ℚ) ≤ z := by linarith
      have hz2 : (z : ℚ) ≤ 4200 := by linarith
      have hlow' : 2500 ≤ z := by exact_mod_cast hz1
      have hhigh' : z ≤ 4200 := by exact_mod_cast hz2
      obtain ⟨k, rfl⟩ := Int.eq_ofNat_of_zero_le (by omega : 0 ≤ z)
      exact ⟨k, by push_cast; rfl, by omega, by omega⟩

/-- So is the one a request writes. -/
theorem wantedOvp_milli (c : JkCtx ℚ) (r : Request ℚ) :
    ∃ k : ℕ, wantedOvp c r = (k : ℚ) / 1000 ∧ 2500 ≤ k ∧ k ≤ 4200 := jkClampOvpV_milli _

/-- Whole millivolts within the bounds are kept. -/
theorem jkClampOvpV_of_mem {k : ℕ} (hlow : 2500 ≤ k) (hhigh : k ≤ 4200) :
    jkClampOvpV ((k : ℚ) / 1000) = k / 1000 := by
  have hlow' : (2500 : ℚ) ≤ k := by exact_mod_cast hlow
  have hhigh' : (k : ℚ) ≤ 4200 := by exact_mod_cast hhigh
  rw [jkClampOvpV, saturate_rat, jkOvpMinV_rat, jkOvpMaxV_rat, round3_milli, if_neg (by linarith),
    if_neg (by linarith)]

theorem jkClampOvpV_of_gt {k : ℕ} (hhigh : 4200 < k) :
    jkClampOvpV ((k : ℚ) / 1000) = 420 / 100 := by
  have hhigh' : (4200 : ℚ) < k := by exact_mod_cast hhigh
  rw [jkClampOvpV, saturate_rat, jkOvpMinV_rat, jkOvpMaxV_rat, round3_milli, if_neg (by linarith),
    if_pos (by linarith)]

/-- The release voltage is 0.1 V below the overvoltage limit. -/
theorem jkClampOvprV_le (v : ℚ) {k : ℕ} (hlow : 2500 ≤ k) (hhigh : k ≤ 4200) :
    jkVoltsToMv (jkClampOvprV v ((k : ℚ) / 1000)) + 100 ≤ k := by
  have hlow' : (2500 : ℚ) ≤ k := by exact_mod_cast hlow
  have hcap : (k : ℚ) / 1000 - jkOvprGapV = ((k - 100 : ℕ) : ℚ) / 1000 := by
    rw [jkOvprGapV_rat, Nat.cast_sub (by omega)]
    push_cast
    ring
  have hle : jkClampOvprV v ((k : ℚ) / 1000) ≤ ((k - 100 : ℕ) : ℚ) / 1000 := by
    have hmin : (2400 : ℚ) ≤ ((k - 100 : ℕ) : ℚ) := by
      have hnat : 2400 ≤ k - 100 := by omega
      exact_mod_cast hnat
    have hgap : ¬((k - 100 : ℕ) : ℚ) / 1000 < jkOvpMinV - jkOvprGapV := by
      rw [jkOvpMinV_rat, jkOvprGapV_rat]
      linarith
    rw [jkClampOvprV_rat, jkClampOvpV_of_mem hlow hhigh, hcap, round3_milli]
    dsimp only
    rw [if_neg hgap]
    have hheld : (if ((k - 100 : ℕ) : ℚ) / 1000 < round3 v then ((k - 100 : ℕ) : ℚ) / 1000
        else round3 v) ≤ ((k - 100 : ℕ) : ℚ) / 1000 := by
      split
      · exact le_refl _
      · next hbelow => exact not_lt.mp hbelow
    generalize (if ((k - 100 : ℕ) : ℚ) / 1000 < round3 v then ((k - 100 : ℕ) : ℚ) / 1000
      else round3 v) = held at hheld ⊢
    split
    · linarith
    · exact hheld
  have hmv := jkVoltsToMv_lt (lt_of_le_of_lt hle (lt_add_of_pos_right _ (by norm_num)))
  omega

/-- The charge voltage below a limit is below it in the register. -/
theorem jkVoltsToMv_rcvBelow {k : ℕ} (hlow : 2500 ≤ k) :
    jkVoltsToMv (rcvBelow ((k : ℚ) / 1000)) < k := by
  have hpos : (1 : ℚ) ≤ k := by exact_mod_cast (by omega : 1 ≤ k)
  have hle : rcvBelow ((k : ℚ) / 1000) ≤ ((k - 1 : ℕ) : ℚ) / 1000 := by
    have hpred : ((k - 1 : ℕ) : ℚ) = k - 1 := by
      rw [Nat.cast_sub (by omega), Nat.cast_one]
    rw [rcvBelow_rat, hpred]
    dsimp only
    by_cases hfloor : (k : ℚ) / 1000 - 5 / 100 < 340 / 100
    · rw [if_pos hfloor]
      split
      · linarith
      · next habove =>
        have hrat : (3400 : ℚ) < k := by linarith
        have hwhole : 3400 < k := by exact_mod_cast hrat
        have hnext : (3401 : ℚ) ≤ k := by exact_mod_cast hwhole
        linarith
    · rw [if_neg hfloor]
      split <;> linarith
  have hmv := jkVoltsToMv_lt (lt_of_le_of_lt hle (lt_add_of_pos_right _ (by norm_num)))
  omega

/-- The requested charge voltage is held between the bounds. -/
theorem clampRcv_eq (rcv ovp : ℚ) :
    clampRcv rcv ovp = min (max rcv (250 / 100)) (ovp - 1 / 100) := by
  rw [clampRcv_rat]
  dsimp only
  rcases lt_or_ge rcv (250 / 100) with hlow | hlow
  · rw [if_pos hlow, max_eq_right hlow.le]
    split
    · next h => rw [min_eq_right h.le]
    · next h => rw [min_eq_left (not_lt.mp h)]
  · rw [if_neg (not_lt.mpr hlow), max_eq_left hlow]
    split
    · next h => rw [min_eq_right h.le]
    · next h => rw [min_eq_left (not_lt.mp h)]

/-! ## The limits in the battery -/

/-- The two limits, as far as they are known. -/
structure Limits where
  ovp : Option ℕ
  rcv : Option ℕ

/-- A write is applied. -/
def Limits.apply (l : Limits) (w : Write) : Limits :=
  if w.reg = jkRegCellOvp then { l with ovp := some w.value }
  else if w.reg = jkRegCellRcv then { l with rcv := some w.value }
  else l

/-- The charge voltage is below the overvoltage limit. -/
def Limits.Below (l : Limits) : Prop := ∀ ovp rcv, l.ovp = some ovp → l.rcv = some rcv → rcv < ovp

/-- The limits of the last report. -/
def reportedLimits (l : Ledger) : Limits :=
  match l.reported with
  | some r => ⟨some r.cellOvp, some r.cellRcv⟩
  | none => ⟨none, none⟩

/-- The limits with the writes applied that were put into the queue since. -/
def limits (c : JkCtx ℚ) : Limits := c.ledger.queued.foldl Limits.apply (reportedLimits c.ledger)

/-- After each write applied the charge voltage is below the overvoltage limit, and
each release voltage written is 0.1 V below the limit written with it. -/
structure LimitsRight (c : JkCtx ℚ) : Prop where
  below : ∀ ws w rest, c.ledger.queued = ws ++ w :: rest →
    ((ws ++ [w]).foldl Limits.apply (reportedLimits c.ledger)).Below
  release : ∀ ws w rest, c.ledger.queued = ws ++ w :: rest → w.reg = jkRegCellOvpr →
    ∃ before v, ws = before ++ [v] ∧ v.reg = jkRegCellOvp ∧ w.value + 100 ≤ v.value

/-- The overvoltage limit that a requested charge voltage is to be below: the known
one, or else the one the request writes, or else 3.65 V. -/
def knownOvp (c : JkCtx ℚ) (r : Request ℚ) : ℚ :=
  match (limits c).ovp with
  | some ovp => (ovp : ℚ) / 1000
  | none => jkClampOvpV (r.cellOvpV.getD (365 / 100))

/-- The charge voltage put into the queue for a request is the requested one, held
between 2.50 V and 10 mV below the limit. -/
def RcvRight (c : JkCtx ℚ) : Act ℚ → Prop
  | .put r => ∀ rcv, r.cellRcvV = some rcv → r.refused = false → c.handshakeOk = true →
      ∀ w rest, (step c (.put r)).ledger.queued = c.ledger.queued ++ w :: rest →
        w.reg = jkRegCellRcv ∧
          w.value = jkVoltsToMv (min (max rcv (250 / 100)) (knownOvp c r - 1 / 100))
  | _ => True

/-- The overvoltage limit that a request writes. -/
def newOvp (c : JkCtx ℚ) (r : Request ℚ) : ℚ :=
  jkClampOvpV <|
    match r.cellOvpV with
    | some ovp => ovp
    | none => if c.haveSettings || r.cellRcvV.isSome then c.cellOvpV else 365 / 100

/-- A request that is taken writes within the limits that are known: the queue has
room for its writes; a known overvoltage limit is one the code keeps, or too high to
matter, and without a known one no earlier request has left settings behind; and a
charge voltage lowered ahead of the overvoltage limit is below the known one. -/
structure PutKnows (c : JkCtx ℚ) (r : Request ℚ) : Prop where
  room : c.wq.length + writeCount c r ≤ wqCap
  known : ∀ rcv ovp, r.cellRcvV = some rcv → (limits c).ovp = some ovp →
    2500 ≤ ovp ∧ (ovp ≤ 4200 ∨ rcv ≤ 419 / 100)
  unknown : r.cellRcvV.isSome = true → (limits c).ovp = none → c.haveSettings = false
  lowered : (r.cellOvpV.isSome || r.cellOvprV.isSome) = true → willLower c r = true →
    ∀ ovp, (limits c).ovp = some ovp → jkVoltsToMv (rcvBelow (newOvp c r)) < ovp

/-- The condition on a call or a step. -/
def Knows (c : JkCtx ℚ) : Act ℚ → Prop
  | .put r => r.refused = false → c.handshakeOk = true → r.writes = true → PutKnows c r
  | _ => True

/-! ## The invariant -/

/-- What every run keeps: the settings shown are the known limits. -/
structure Agrees (c : JkCtx ℚ) : Prop extends LimitsRight c where
  ovp : ∀ ovp, (limits c).ovp = some ovp → c.haveSettings = true ∧ c.cellOvpV = (ovp : ℚ) / 1000
  rcv : ∀ rcv, (limits c).rcv = some rcv → c.haveSettings = true ∧ jkVoltsToMv c.cellRcvV = rcv

/-- What the invariant is about does not change. -/
theorem Agrees.frame {c d : JkCtx ℚ} (h : Agrees c) (hqueued : d.ledger.queued = c.ledger.queued)
    (hreported : d.ledger.reported = c.ledger.reported) (hovp : d.cellOvpV = c.cellOvpV)
    (hrcv : d.cellRcvV = c.cellRcvV) (hhave : d.haveSettings = c.haveSettings) : Agrees d := by
  have hreport : reportedLimits d.ledger = reportedLimits c.ledger := by
    rw [reportedLimits, reportedLimits, hreported]
  have hlimits : limits d = limits c := by rw [limits, limits, hqueued, hreport]
  refine ⟨⟨?_, ?_⟩, ?_, ?_⟩
  · rw [hqueued, hreport]
    exact h.below
  · rw [hqueued]
    exact h.release
  · rw [hlimits, hovp, hhave]
    exact h.ovp
  · rw [hlimits, hrcv, hhave]
    exact h.rcv

theorem agrees_opened (mac : CBuf 32) (pollIntervalS nextTry : ℚ) :
    Agrees (opened mac pollIntervalS nextTry) where
  below ws w rest h := absurd h (by simp [opened])
  release ws w rest h := absurd h (by simp [opened])
  ovp := nofun
  rcv := nofun

/-- One more write in the queue is right when it is right to apply it. -/
theorem limitsRight_append {c d : JkCtx ℚ} (h : LimitsRight c) {w : Write}
    (hqueued : d.ledger.queued = c.ledger.queued ++ [w])
    (hreported : d.ledger.reported = c.ledger.reported) (hbelow : ((limits c).apply w).Below)
    (hrelease : w.reg = jkRegCellOvpr → ∃ before v, c.ledger.queued = before ++ [v] ∧
      v.reg = jkRegCellOvp ∧ w.value + 100 ≤ v.value) : LimitsRight d := by
  have hreport : reportedLimits d.ledger = reportedLimits c.ledger := by
    rw [reportedLimits, reportedLimits, hreported]
  have hlast (ws : List Write) (v : Write) (rest : List Write)
      (heq : c.ledger.queued ++ [w] = ws ++ v :: rest) :
      (ws = c.ledger.queued ∧ v = w) ∨ ∃ rest', c.ledger.queued = ws ++ v :: rest' := by
    rcases List.eq_nil_or_concat rest with rfl | ⟨rest', last, rfl⟩
    · obtain ⟨hws, hv⟩ := List.append_inj' heq rfl
      exact .inl ⟨hws.symm, (List.cons.inj hv).1.symm⟩
    · have hshift : ws ++ v :: (rest' ++ [last]) = (ws ++ v :: rest') ++ [last] := by simp
      rw [List.concat_eq_append, hshift] at heq
      exact .inr ⟨rest', (List.append_inj' heq rfl).1⟩
  refine ⟨fun ws v rest heq => ?_, fun ws v rest heq hreg => ?_⟩
  · rw [hqueued] at heq
    rw [hreport]
    rcases hlast ws v rest heq with ⟨rfl, rfl⟩ | ⟨rest', hold⟩
    · rw [List.foldl_append]
      exact hbelow
    · exact h.below ws v rest' hold
  · rw [hqueued] at heq
    rcases hlast ws v rest heq with ⟨rfl, rfl⟩ | ⟨rest', hold⟩
    · exact hrelease hreg
    · exact h.release ws v rest' hold hreg

/-- The write is one more in the queue, and is applied. -/
theorem limits_append {c d : JkCtx ℚ} {w : Write}
    (hqueued : d.ledger.queued = c.ledger.queued ++ [w])
    (hreported : d.ledger.reported = c.ledger.reported) : limits d = (limits c).apply w := by
  have hreport : reportedLimits d.ledger = reportedLimits c.ledger := by
    rw [reportedLimits, reportedLimits, hreported]
  rw [limits, hqueued, List.foldl_append, hreport]
  rfl

@[simp] theorem apply_rcv (l : Limits) (id mv : ℕ) :
    l.apply ⟨id, true, jkRegCellRcv, mv⟩ = { l with rcv := some mv } := rfl

@[simp] theorem apply_ovp (l : Limits) (id mv : ℕ) :
    l.apply ⟨id, true, jkRegCellOvp, mv⟩ = { l with ovp := some mv } := rfl

@[simp] theorem apply_ovpr (l : Limits) (id mv : ℕ) :
    l.apply ⟨id, true, jkRegCellOvpr, mv⟩ = l := rfl

/-! ## Requests -/

/-- What a push changes, when the queue has room. -/
structure Pushed (c d : JkCtx ℚ) (w : Write) : Prop where
  queued : d.ledger.queued = c.ledger.queued ++ [w]
  reported : d.ledger.reported = c.ledger.reported
  wq : d.wq.length = c.wq.length + 1
  ovp : d.cellOvpV = c.cellOvpV
  rcv : d.cellRcvV = c.cellRcvV
  haveSettings : d.haveSettings = c.haveSettings

theorem pushed_wqPush {c : JkCtx ℚ} (hroom : c.wq.length < wqCap) (reg : UInt8) (mv : ℕ) :
    Pushed c (wqPush c reg mv) ⟨c.ledger.next, true, reg, mv⟩ := by
  rw [wqPush, if_neg (by omega)]
  exact ⟨rfl, rfl, List.length_append, rfl, rfl, rfl⟩

/-- A charge voltage below a limit that is known, put into the queue and shown. -/
theorem agrees_pushRcv {c : JkCtx ℚ} (h : Agrees c) (hroom : c.wq.length < wqCap) {rcv : ℚ}
    (hbelow : ∀ ovp, (limits c).ovp = some ovp → jkVoltsToMv rcv < ovp) {d : JkCtx ℚ}
    (hledger : d.ledger.queued = (wqPush c jkRegCellRcv (jkVoltsToMv rcv)).ledger.queued)
    (hreport : d.ledger.reported = (wqPush c jkRegCellRcv (jkVoltsToMv rcv)).ledger.reported)
    (hovp : d.cellOvpV = (wqPush c jkRegCellRcv (jkVoltsToMv rcv)).cellOvpV)
    (hrcv : d.cellRcvV = rcv) (hhave : d.haveSettings = true) :
    Agrees d ∧ (limits d).ovp = (limits c).ovp ∧ (limits d).rcv = some (jkVoltsToMv rcv) := by
  have hpush := pushed_wqPush hroom jkRegCellRcv (jkVoltsToMv rcv)
  have hqueued := hledger.trans hpush.queued
  have hreported := hreport.trans hpush.reported
  have hlimits := limits_append hqueued hreported
  rw [apply_rcv] at hlimits
  refine ⟨⟨limitsRight_append h.toLimitsRight hqueued hreported ?_ ?_, ?_, ?_⟩, ?_, ?_⟩
  · rw [apply_rcv]
    intro ovp mv hknown hmv
    cases hmv
    exact hbelow ovp hknown
  · intro hreg
    exact absurd (show jkRegCellRcv = jkRegCellOvpr from hreg) (by decide)
  · intro ovp hknown
    rw [hlimits] at hknown
    exact ⟨hhave, (hovp.trans hpush.ovp).trans (h.ovp ovp hknown).2⟩
  · intro mv hknown
    rw [hlimits] at hknown
    cases hknown
    exact ⟨hhave, by rw [hrcv]⟩
  · rw [hlimits]
  · rw [hlimits]

theorem jkClampOvpV_le {k : ℕ} (hlow : 2500 ≤ k) : jkClampOvpV ((k : ℚ) / 1000) ≤ k / 1000 := by
  rcases Nat.lt_or_ge 4200 k with hhigh | hhigh
  · rw [jkClampOvpV_of_gt hhigh]
    have hrat : (4200 : ℚ) ≤ k := by exact_mod_cast hhigh.le
    linarith
  · rw [jkClampOvpV_of_mem hlow hhigh]

theorem clampRcv_le (rcv ovp : ℚ) : clampRcv rcv ovp ≤ ovp - 1 / 100 :=
  clampRcv_eq rcv ovp ▸ min_le_right _ _

/-- A charge voltage held below a limit is below it in the register. -/
theorem jkVoltsToMv_clampRcv {c : JkCtx ℚ} {r : Request ℚ} {ovp : ℕ} (rcv : ℚ)
    (hhave : c.haveSettings = true) (hovp : c.cellOvpV = (ovp : ℚ) / 1000) (hlow : 2500 ≤ ovp) :
    jkVoltsToMv (clampRcv rcv (rcvBound c r)) < ovp := by
  have hbound : rcvBound c r ≤ (ovp : ℚ) / 1000 := by
    rw [rcvBound, if_pos hhave, hovp]
    exact jkClampOvpV_le hlow
  have hcast : ((ovp - 1 : ℕ) : ℚ) = ovp - 1 := by
    rw [Nat.cast_sub (by omega), Nat.cast_one]
  have hlt : clampRcv rcv (rcvBound c r) < ((ovp - 1 : ℕ) : ℚ) / 1000 + 1 / 2000 := by
    have hle := clampRcv_le rcv (rcvBound c r)
    rw [hcast]
    linarith
  have hmv := jkVoltsToMv_lt hlt
  omega

/-- The part of a request for the charge voltage. -/
theorem agrees_putRcv {c : JkCtx ℚ} (h : Agrees c) {r : Request ℚ}
    (hroom : r.cellRcvV.isSome = true → c.wq.length < wqCap)
    (hknown : ∀ rcv ovp, r.cellRcvV = some rcv → (limits c).ovp = some ovp → 2500 ≤ ovp) :
    Agrees (putRcv c r) ∧ (limits (putRcv c r)).ovp = (limits c).ovp := by
  rw [putRcv]
  cases hrcv : r.cellRcvV with
  | none => exact ⟨h, rfl⟩
  | some rcv =>
    rw [hrcv] at hroom
    have hbelow (ovp : ℕ) (hovp : (limits c).ovp = some ovp) :
        jkVoltsToMv (clampRcv rcv (rcvBound c r)) < ovp :=
      jkVoltsToMv_clampRcv rcv (h.ovp ovp hovp).1 (h.ovp ovp hovp).2 (hknown rcv ovp hrcv hovp)
    dsimp only
    generalize clampRcv rcv (rcvBound c r) = v at hbelow ⊢
    obtain ⟨hagrees, hovp, -⟩ := agrees_pushRcv h (hroom rfl) hbelow
      (d := { wqPush c jkRegCellRcv (jkVoltsToMv v) with
        cellRcvV := v, haveSettings := true
        ledger := (wqPush c jkRegCellRcv (jkVoltsToMv v)).ledger.show .cellRcv c.ledger.next })
      rfl rfl rfl rfl rfl
    exact ⟨hagrees, hovp⟩

/-- The charge voltage ahead of the overvoltage limit: it ends up below the new
limit. -/
theorem agrees_lowerRcv {c : JkCtx ℚ} (h : Agrees c) {r : Request ℚ}
    (hroom : rcvTooHigh c r = true → c.wq.length < wqCap)
    (hlowered : rcvTooHigh c r = true → ∀ ovp, (limits c).ovp = some ovp →
      jkVoltsToMv (rcvBelow (wantedOvp c r)) < ovp) {k : ℕ}
    (hk : wantedOvp c r = (k : ℚ) / 1000) (hlow : 2500 ≤ k) :
    Agrees (lowerRcv c r) ∧ ∀ rcv, (limits (lowerRcv c r)).rcv = some rcv → rcv < k := by
  rw [lowerRcv]
  by_cases hhigh : rcvTooHigh c r = true
  · rw [if_pos hhigh]
    have hbelow := hlowered hhigh
    have hnew : jkVoltsToMv (rcvBelow (wantedOvp c r)) < k := hk ▸ jkVoltsToMv_rcvBelow hlow
    have hhave : c.haveSettings = true := by
      rw [rcvTooHigh, Bool.and_eq_true] at hhigh
      exact hhigh.1
    dsimp only
    generalize rcvBelow (wantedOvp c r) = v at hbelow hnew ⊢
    obtain ⟨hagrees, -, hpushed⟩ := agrees_pushRcv h (hroom hhigh) hbelow
      (d := { wqPush c jkRegCellRcv (jkVoltsToMv v) with
        cellRcvV := v
        ledger := (wqPush c jkRegCellRcv (jkVoltsToMv v)).ledger.show .cellRcv c.ledger.next })
      rfl rfl rfl rfl
      ((pushed_wqPush (hroom hhigh) jkRegCellRcv (jkVoltsToMv v)).haveSettings.trans hhave)
    refine ⟨hagrees, fun rcv hrcv => ?_⟩
    have hsame := hpushed.symm.trans hrcv
    cases hsame
    exact hnew
  · rw [if_neg hhigh]
    refine ⟨h, fun rcv hrcv => ?_⟩
    obtain ⟨hhave, hmv⟩ := h.rcv rcv hrcv
    have hbelow : c.cellRcvV < (k : ℚ) / 1000 - 1 / 1000 := by
      rw [rcvTooHigh_rat, hhave, Bool.true_and, decide_eq_true_iff, hk] at hhigh
      exact not_le.mp hhigh
    have hcast : ((k - 1 : ℕ) : ℚ) = k - 1 := by
      rw [Nat.cast_sub (by omega), Nat.cast_one]
    have hle := jkVoltsToMv_lt (v := c.cellRcvV) (k := k - 1) (by rw [hcast]; linarith)
    omega

theorem length_putRcv {c : JkCtx ℚ} {r : Request ℚ}
    (hroom : r.cellRcvV.isSome = true → c.wq.length < wqCap) :
    (putRcv c r).wq.length = c.wq.length + if r.cellRcvV.isSome then 1 else 0 := by
  rw [putRcv]
  cases hrcv : r.cellRcvV with
  | none => rfl
  | some rcv =>
    rw [hrcv] at hroom
    exact (pushed_wqPush (hroom rfl) jkRegCellRcv _).wq

theorem length_lowerRcv {c : JkCtx ℚ} {r : Request ℚ}
    (hroom : rcvTooHigh c r = true → c.wq.length < wqCap) :
    (lowerRcv c r).wq.length = c.wq.length + if rcvTooHigh c r then 1 else 0 := by
  rw [lowerRcv]
  by_cases hhigh : rcvTooHigh c r = true
  · rw [if_pos hhigh, if_pos hhigh]
    exact (pushed_wqPush (hroom hhigh) jkRegCellRcv _).wq
  · rw [if_neg hhigh, if_neg hhigh]
    rfl

/-- The part of a request for the overvoltage limit and its release. -/
theorem agrees_putOvp {c : JkCtx ℚ} (h : Agrees c) {r : Request ℚ}
    (hroom : (r.cellOvpV.isSome || r.cellOvprV.isSome) = true →
      c.wq.length + (if rcvTooHigh c r then 3 else 2) ≤ wqCap)
    (hlowered : (r.cellOvpV.isSome || r.cellOvprV.isSome) = true → rcvTooHigh c r = true →
      ∀ ovp, (limits c).ovp = some ovp → jkVoltsToMv (rcvBelow (wantedOvp c r)) < ovp) :
    Agrees (putOvp c r) := by
  by_cases hnamed : (r.cellOvpV.isSome || r.cellOvprV.isSome) = true
  · obtain ⟨k, hwanted, hlow, hhigh⟩ := wantedOvp_milli c r
    have hfits := hroom hnamed
    have hfirstRoom : rcvTooHigh c r = true → c.wq.length < wqCap := fun htoo => by
      rw [if_pos htoo] at hfits
      omega
    have hlen : (lowerRcv c r).wq.length + 2 ≤ wqCap := by
      rw [length_lowerRcv hfirstRoom]
      split at hfits <;> simp only [*, if_true, Bool.false_eq_true, if_false]
    obtain ⟨hlower, hrcv⟩ := agrees_lowerRcv h hfirstRoom (hlowered hnamed) hwanted hlow
    have hrelease : jkVoltsToMv (wantedOvpr c r) + 100 ≤ k := by
      rw [wantedOvpr, hwanted]
      exact jkClampOvprV_le _ hlow hhigh
    rw [putOvp, if_pos hnamed]
    dsimp only
    rw [hwanted, jkVoltsToMv_milli]
    generalize lowerRcv c r = d at hlower hrcv hlen ⊢
    generalize wantedOvpr c r = ovpr at hrelease ⊢
    have hfirst := pushed_wqPush (c := d) (by omega) jkRegCellOvp k
    generalize wqPush d jkRegCellOvp k = e at hfirst ⊢
    have hsecond := pushed_wqPush (c := e) (by rw [hfirst.wq]; omega) jkRegCellOvpr (jkVoltsToMv ovpr)
    generalize wqPush e jkRegCellOvpr (jkVoltsToMv ovpr) = g at hsecond ⊢
    have hlimits := limits_append hfirst.queued hfirst.reported
    have hlimits' := limits_append hsecond.queued hsecond.reported
    rw [apply_ovpr, hlimits, apply_ovp] at hlimits'
    have hright : LimitsRight e := by
      refine limitsRight_append hlower.toLimitsRight hfirst.queued hfirst.reported ?_ ?_
      · rw [apply_ovp]
        intro ovp rcv hovp hknown
        cases hovp
        exact hrcv rcv hknown
      · intro hreg
        exact absurd (show jkRegCellOvp = jkRegCellOvpr from hreg) (by decide)
    have hright' : LimitsRight g := by
      refine limitsRight_append hright hsecond.queued hsecond.reported ?_ fun _ => ?_
      · rw [apply_ovpr, hlimits, apply_ovp]
        intro ovp rcv hovp hknown
        cases hovp
        exact hrcv rcv hknown
      · exact ⟨d.ledger.queued, _, hfirst.queued, rfl, hrelease⟩
    refine ⟨⟨hright'.below, hright'.release⟩, fun ovp hovp => ?_, fun rcv hknown => ⟨rfl, ?_⟩⟩
    · have hsame := (congrArg Limits.ovp hlimits').symm.trans hovp
      cases hsame
      exact ⟨rfl, rfl⟩
    · have hsame := (congrArg Limits.rcv hlimits').symm.trans hknown
      have hcache : g.cellRcvV = d.cellRcvV := hsecond.rcv.trans hfirst.rcv
      dsimp only
      rw [hcache]
      exact (hlower.rcv rcv hsame).2
  · rw [putOvp, if_neg hnamed]
    exact h

theorem wantedOvp_putRcv (c : JkCtx ℚ) (r : Request ℚ) : wantedOvp (putRcv c r) r = newOvp c r := by
  rw [wantedOvp, newOvp, putRcv]
  cases hrcv : r.cellRcvV with
  | none => cases r.cellOvpV <;> simp
  | some rcv =>
    have hcache : (wqPush c jkRegCellRcv (jkVoltsToMv (clampRcv rcv (rcvBound c r)))).cellOvpV =
        c.cellOvpV := by
      rw [wqPush]
      split <;> rfl
    cases hovp : r.cellOvpV with
    | some ovp => rfl
    | none =>
      simp only [Option.isSome_some, Bool.or_true, if_true]
      rw [hcache]

/-- The registers of a request written within the limits that are known. -/
theorem agrees_putRegisters {c : JkCtx ℚ} (h : Agrees c) {r : Request ℚ}
    (hknows : c.handshakeOk = true → r.writes = true → PutKnows c r) :
    Agrees (jkPutSettings.putRegisters c r).1 := by
  rw [jkPutSettings.putRegisters]
  by_cases hoffline : (r.writes && !c.handshakeOk) = true
  · rw [if_pos hoffline]
    exact h
  rw [if_neg hoffline]
  by_cases hwrites : r.writes = true
  · have honline : c.handshakeOk = true := by simpa [hwrites] using hoffline
    have hput := hknows honline hwrites
    have hcount := hput.room
    rw [writeCount] at hcount
    have hfirst : r.cellRcvV.isSome = true → c.wq.length < wqCap := fun hsome => by
      rw [if_pos hsome] at hcount
      omega
    obtain ⟨hrcv, hovp⟩ := agrees_putRcv h hfirst fun rcv ovp hr hk => (hput.known rcv ovp hr hk).1
    refine agrees_putOvp hrcv (fun hnamed => ?_) fun hnamed htoo ovp hk => ?_
    · rw [if_pos hnamed] at hcount
      rw [length_putRcv hfirst, rcvTooHigh_putRcv]
      omega
    · rw [wantedOvp_putRcv]
      exact hput.lowered hnamed (rcvTooHigh_putRcv c r ▸ htoo) ovp (hovp ▸ hk)
  · have hnone : r.cellRcvV.isSome = false ∧ r.cellOvpV.isSome = false ∧
        r.cellOvprV.isSome = false := by
      simpa [Request.writes, and_assoc] using hwrites
    obtain ⟨hrcv, -⟩ := agrees_putRcv h (r := r) (fun hsome => by simp [hnone.1] at hsome)
      fun rcv ovp hr => by simp [hr] at hnone
    exact agrees_putOvp hrcv (fun hnamed => by simp [hnone.2] at hnamed)
      fun hnamed => by simp [hnone.2] at hnamed

/-- What a request does once its poll interval is taken. -/
theorem jkPutSettings_of_taken {c : JkCtx ℚ} {r : Request ℚ} (htaken : r.refused = false) :
    ∃ iv, (jkPutSettings c r).1 =
      (jkPutSettings.putRegisters { c with pollIntervalS := iv } r).1 := by
  rw [Request.refused] at htaken
  rw [jkPutSettings]
  cases hiv : r.pollIntervalS with
  | none => exact ⟨c.pollIntervalS, rfl⟩
  | some iv =>
    rw [hiv] at htaken
    by_cases hnonneg : le (lit 0) iv = true
    · rw [Option.filter_some_pos hnonneg]
      have hlong : ¬lt iv pollMin = true := by
        dsimp only at htaken
        rw [hnonneg, Bool.true_and] at htaken
        simp [htaken]
      dsimp only
      rw [if_neg hlong]
      exact ⟨iv, rfl⟩
    · rw [Option.filter_some_neg (by simpa using hnonneg)]
      exact ⟨c.pollIntervalS, rfl⟩

/-- A refused request changes nothing. -/
theorem jkPutSettings_of_refused {c : JkCtx ℚ} {r : Request ℚ} (hrefused : r.refused = true) :
    (jkPutSettings c r).1 = c := by
  rw [Request.refused] at hrefused
  rw [jkPutSettings]
  cases hiv : r.pollIntervalS with
  | none =>
    rw [hiv] at hrefused
    cases hrefused
  | some iv =>
    rw [hiv] at hrefused
    have hboth : le (lit 0) iv = true ∧ lt iv pollMin = true := Bool.and_eq_true_iff.mp hrefused
    rw [Option.filter_some_pos hboth.1]
    dsimp only
    rw [if_pos hboth.2]

theorem agrees_jkPutSettings {c : JkCtx ℚ} (h : Agrees c) {r : Request ℚ} (hknows : Knows c
    (.put r)) :
    Agrees (jkPutSettings c r).1 := by
  cases hrefused : r.refused with
  | true =>
    rw [jkPutSettings_of_refused hrefused]
    exact h
  | false =>
    obtain ⟨iv, hput⟩ := jkPutSettings_of_taken (c := c) hrefused
    have hframe : Agrees { c with pollIntervalS := iv } := h.frame rfl rfl rfl rfl rfl
    have hknows' (honline : c.handshakeOk = true) (hwrites : r.writes = true) :
        PutKnows { c with pollIntervalS := iv } r := by
      have hc := hknows hrefused honline hwrites
      exact ⟨hc.room, hc.known, hc.unknown, hc.lowered⟩
    rw [hput]
    exact agrees_putRegisters hframe hknows'

/-! ## Actions and the pump -/

theorem agrees_queueStr {c : JkCtx ℚ} (h : Agrees c) (line : Line) : Agrees (queueStr c line) := by
  have hgive : (c.ledger.give line).queued = c.ledger.queued ∧
      (c.ledger.give line).reported = c.ledger.reported := by
    cases line with
    | register w =>
      rw [Ledger.give]
      split <;> exact ⟨rfl, rfl⟩
    | connect => exact ⟨rfl, rfl⟩
    | command bytes => exact ⟨rfl, rfl⟩
  rw [queueStr]
  split
  · exact h.frame hgive.1 hgive.2 rfl rfl rfl
  · exact h.frame rfl rfl rfl rfl rfl

theorem agrees_writeRegister {c : JkCtx ℚ} (h : Agrees c) (reg : UInt8) (value : ℕ) :
    Agrees (writeRegister c reg value) := by
  have hledger : (c.ledger.decide ⟨c.ledger.next, false, reg, value⟩).queued = c.ledger.queued := rfl
  have hset : Agrees { c with ledger := c.ledger.decide ⟨c.ledger.next, false, reg, value⟩ } :=
    h.frame hledger rfl rfl rfl rfl
  exact agrees_queueStr hset _

theorem agrees_jkAction {c : JkCtx ℚ} (h : Agrees c) (a : Action ℚ) : Agrees (jkAction c a).1 := by
  unfold jkAction
  split
  · exact h
  cases a with
  | refresh => exact agrees_queueStr h _
  | setBalanceTrigger volts =>
    cases volts with
    | none => exact h
    | some volts =>
      have hset : Agrees { c with
          triggerV := jkClampTriggerV volts, haveTrigger := true
          ledger := c.ledger.show .trigger c.ledger.next } := h.frame rfl rfl rfl rfl rfl
      exact agrees_writeRegister hset _ _
  | setStartBalance volts =>
    cases volts with
    | none => exact h
    | some volts =>
      have hset : Agrees { c with
          startV := jkClampStartV volts, haveStart := true
          ledger := c.ledger.show .start c.ledger.next } := h.frame rfl rfl rfl rfl rfl
      exact agrees_writeRegister hset _ _
  | setSwitch reg on =>
    have hset : Agrees { c with balWant := if reg = jkRegBalance then some on else c.balWant } :=
      h.frame rfl rfl rfl rfl rfl
    exact agrees_writeRegister hset _ _
  | other => exact h

/-- A report sets the limits and what is shown of them. -/
theorem agrees_onSettings (c : JkCtx ℚ) (r : Report) : Agrees (onSettings c r) where
  below ws w rest h := absurd h (by simp [onSettings, Ledger.report])
  release ws w rest h := absurd h (by simp [onSettings, Ledger.report])
  ovp ovp h := by
    cases h
    exact ⟨rfl, rfl⟩
  rcv rcv h := by
    cases h
    exact ⟨rfl, jkVoltsToMv_milli _⟩

theorem agrees_onLine {c : JkCtx ℚ} (h : Agrees c) (line : Received) : Agrees (onLine c line) := by
  cases line with
  | connected => exact h.frame rfl rfl rfl rfl rfl
  | error drops =>
    cases drops with
    | true =>
      have hrestart : Agrees { c with
          handshakeOk := false, needCellReq := true, ledger := c.ledger.restart (pending c) } :=
        h.frame rfl rfl rfl rfl rfl
      show Agrees (markDropped c)
      rw [markDropped]
      split
      · dsimp only
        split
        · exact agrees_queueStr hrestart _
        · exact hrestart
      · exact h
    | false => exact h
  | frame data =>
    rw [onLine]
    split
    · cases jkDecodeSettings data with
      | none => exact h
      | some r => exact agrees_onSettings c r
    · exact h
  | other => exact h

theorem agrees_onLines {c : JkCtx ℚ} (h : Agrees c) (lines : List Received) :
    Agrees (lines.foldl onLine c) := by
  induction lines generalizing c with
  | nil => exact h
  | cons line lines ih => exact ih (agrees_onLine h line)

theorem agrees_sockClose {c : JkCtx ℚ} (h : Agrees c) (now : ℚ) : Agrees (sockClose c now) :=
  h.frame rfl rfl rfl rfl rfl

theorem agrees_startConnect {c : JkCtx ℚ} (h : Agrees c) (e : PumpEnv ℚ) :
    Agrees (startConnect c e) := by
  unfold startConnect
  cases e.connect with
  | connected =>
    have hopen : Agrees { c with fd := true, state := .handshake, handshakeOk := false } :=
      h.frame rfl rfl rfl rfl rfl
    exact agrees_queueStr hopen _
  | inProgress => exact h.frame rfl rfl rfl rfl rfl
  | failed => exact h

theorem agrees_pumpConnect {c : JkCtx ℚ} (h : Agrees c) (e : PumpEnv ℚ) :
    Agrees (pumpConnect c e).1 := by
  have hstart : Agrees (if c.state = .idle ∧ ¬(c.state = .idle ∧ lt e.now c.nextTry = true) then
      startConnect c e else c) := by
    split
    · exact agrees_startConnect h e
    · exact h
  unfold pumpConnect
  dsimp only
  generalize (if c.state = .idle ∧ ¬(c.state = .idle ∧ lt e.now c.nextTry = true) then
    startConnect c e else c) = d at hstart ⊢
  split
  · exact hstart
  split
  · split
    · exact hstart
    split
    · exact agrees_sockClose hstart e.now
    · have hshake : Agrees { d with state := .handshake } := hstart.frame rfl rfl rfl rfl rfl
      exact agrees_queueStr hshake _
  · exact hstart

theorem agrees_pumpWrites {c : JkCtx ℚ} (h : Agrees c) (now : ℚ) : Agrees (pumpWrites c now) := by
  have hinfo := agrees_queueStr h (.command (jkBuildCommand jkCmdCellInfo [] 0))
  have hboth := agrees_queueStr (agrees_queueStr h (.command (jkBuildCommand jkCmdDeviceInfo [] 0)))
    (.command (jkBuildCommand jkCmdCellInfo [] 0))
  unfold pumpWrites
  dsimp only
  generalize queueStr (queueStr c _) _ = both at hboth ⊢
  generalize queueStr c _ = info at hinfo ⊢
  split
  · exact h
  cases pending c with
  | cons w rest =>
    dsimp only
    split
    · have hline := agrees_queueStr h (.register w)
      unfold popWrite
      dsimp only
      generalize queueStr c (.register w) = d at hline ⊢
      split
      · exact hline.frame rfl rfl rfl rfl rfl
      · exact hline.frame rfl rfl rfl rfl rfl
    · exact h
  | nil =>
    dsimp only
    split
    · exact h
    split
    · exact hboth.frame rfl rfl rfl rfl rfl
    split
    · exact hinfo.frame rfl rfl rfl rfl rfl
    split
    · exact hinfo.frame rfl rfl rfl rfl rfl
    · exact h

theorem agrees_flushLoop {c : JkCtx ℚ} (h : Agrees c) (writes : List WriteResult) :
    Agrees (flushLoop c writes).1 := by
  induction writes generalizing c with
  | nil =>
    unfold flushLoop
    split
    · exact h
    · exact h.frame rfl rfl rfl rfl rfl
  | cons result writes ih =>
    unfold flushLoop
    split
    · cases result with
      | again => exact h
      | failed => exact h
      | wrote n => exact ih (h.frame rfl rfl rfl rfl rfl)
    · exact h.frame rfl rfl rfl rfl rfl

/-- A step of the pump: limits change by reports alone. -/
theorem agrees_pump {c : JkCtx ℚ} (h : Agrees c) (e : PumpEnv ℚ) : Agrees (pump c e) := by
  have hconnect := agrees_pumpConnect h e
  have hlines {d : JkCtx ℚ} (hd : Agrees d) : Agrees (drainIn d e) := by
    rw [drainIn]
    split
    · exact agrees_onLines hd e.reads
    · exact agrees_sockClose (agrees_onLines hd e.reads) e.now
  have hflush {d : JkCtx ℚ} (hd : Agrees d) : Agrees (flushOut d e) := by
    have hloop := agrees_flushLoop hd e.writes
    unfold flushOut
    cases hcase : flushLoop d e.writes with
    | mk g failed =>
      rw [hcase] at hloop
      cases failed with
      | true => exact agrees_sockClose hloop e.now
      | false => exact hloop
  unfold pump
  cases hcase : pumpConnect c e with
  | mk d more =>
    rw [hcase] at hconnect
    cases more with
    | false => exact hconnect
    | true =>
      dsimp only
      have hread : Agrees (if d.fd = true then drainIn d e else d) := by
        split
        · exact hlines hconnect
        · exact hconnect
      generalize (if d.fd = true then drainIn d e else d) = g at hread ⊢
      have hwrites := agrees_pumpWrites hread e.now
      split
      · exact hflush hwrites
      · exact hwrites

theorem agrees_step {c : JkCtx ℚ} (h : Agrees c) {a : Act ℚ} (hknows : Knows c a) :
    Agrees (step c a) := by
  cases a with
  | put r => exact agrees_jkPutSettings h hknows
  | action a => exact agrees_jkAction h a
  | pump e => exact agrees_pump h e

/-! ## Runs -/

/-- What a push leaves in front of the queue. -/
theorem queued_wqPush (c : JkCtx ℚ) (reg : UInt8) (mv : ℕ) :
    c.ledger.queued <+: (wqPush c reg mv).ledger.queued := by
  rw [wqPush]
  split
  · exact List.prefix_refl _
  · exact List.prefix_append _ _

theorem queued_putOvp (c : JkCtx ℚ) (r : Request ℚ) :
    c.ledger.queued <+: (putOvp c r).ledger.queued := by
  have hlower : c.ledger.queued <+: (lowerRcv c r).ledger.queued := by
    rw [lowerRcv]
    split
    · exact queued_wqPush c jkRegCellRcv _
    · exact List.prefix_refl _
  rw [putOvp]
  split
  · exact hlower.trans ((queued_wqPush _ jkRegCellOvp _).trans (queued_wqPush _ jkRegCellOvpr _))
  · exact List.prefix_refl _

/-- The limit the code goes by is the known one. -/
theorem clampRcv_known {c : JkCtx ℚ} (h : Agrees c) {r : Request ℚ} (hput : PutKnows c r) {rcv : ℚ}
    (hrcv : r.cellRcvV = some rcv) :
    clampRcv rcv (rcvBound c r) = min (max rcv (250 / 100)) (knownOvp c r - 1 / 100) := by
  rw [clampRcv_eq, rcvBound, knownOvp]
  cases hovp : (limits c).ovp with
  | none =>
    have hnone := hput.unknown (by rw [hrcv]; rfl) hovp
    rw [if_neg (by simp [hnone]), lit_rat]
  | some ovp =>
    obtain ⟨hlow, hhigh⟩ := hput.known rcv ovp hrcv hovp
    rw [if_pos (h.ovp ovp hovp).1, (h.ovp ovp hovp).2]
    dsimp only
    rcases Nat.lt_or_ge 4200 ovp with habove | hbelow
    · have hrequest : rcv ≤ 419 / 100 := hhigh.resolve_left (by omega)
      have hrat : (4200 : ℚ) ≤ ovp := by exact_mod_cast habove.le
      have hmax : max rcv (250 / 100) ≤ 419 / 100 := max_le hrequest (by norm_num)
      rw [jkClampOvpV_of_gt habove, min_eq_left (by linarith), min_eq_left (by linarith)]
    · rw [jkClampOvpV_of_mem hlow hbelow]

/-- The charge voltage queued for a request is held below the known limit. -/
theorem rcvRight_of_knows {c : JkCtx ℚ} (h : Agrees c) {a : Act ℚ} (hknows : Knows c a) :
    RcvRight c a := by
  cases a with
  | action a => trivial
  | pump e => trivial
  | put r =>
    intro rcv hrcv hrefused honline w rest hqueued
    have hwrites : r.writes = true := by simp [Request.writes, hrcv]
    have hput := hknows hrefused honline hwrites
    have hcount := hput.room
    rw [writeCount, hrcv, Option.isSome_some, if_pos rfl] at hcount
    obtain ⟨iv, hstep⟩ := jkPutSettings_of_taken (c := c) hrefused
    rw [step, hstep, jkPutSettings.putRegisters, if_neg (by simp [honline])] at hqueued
    have hpush := pushed_wqPush (c := { c with pollIntervalS := iv }) (by dsimp only; omega) jkRegCellRcv
      (jkVoltsToMv (clampRcv rcv (rcvBound c r)))
    have hfirst : (putRcv { c with pollIntervalS := iv } r).ledger.queued = c.ledger.queued ++
        [⟨c.ledger.next, true, jkRegCellRcv, jkVoltsToMv (clampRcv rcv (rcvBound c r))⟩] := by
      rw [putRcv, hrcv]
      exact hpush.queued
    obtain ⟨suffix, hsuffix⟩ := queued_putOvp (putRcv { c with pollIntervalS := iv } r) r
    rw [hqueued, hfirst, List.append_assoc] at hsuffix
    have hsame := List.append_cancel_left hsuffix
    rw [List.singleton_append, List.cons.injEq] at hsame
    rw [← hsame.1, clampRcv_known h hput hrcv]
    exact ⟨rfl, rfl⟩

/-- In every run whose requests go by the known limits, each requested charge
voltage is held below the overvoltage limit, the writes applied one by one keep the
charge voltage below it, and the release voltage is 0.1 V below. -/
theorem limits_hold {mac : CBuf 32} {pollIntervalS nextTry : ℚ} {acts : List (Act ℚ)}
    (hknows : Along step Knows (opened mac pollIntervalS nextTry) acts) :
    Along step RcvRight (opened mac pollIntervalS nextTry) acts ∧
      Always step LimitsRight (opened mac pollIntervalS nextTry) acts := by
  have hstep (c : JkCtx ℚ) (a : Act ℚ) (h : Agrees c) (hok : Knows c a) : Agrees (step c a) :=
    agrees_step h hok
  exact ⟨along_imp hstep (fun _ _ h hok => rcvRight_of_knows h hok)
      (agrees_opened mac pollIntervalS nextTry) hknows,
    always_of_along hstep (fun _ h => h.toLimitsRight) (agrees_opened mac pollIntervalS nextTry)
      hknows⟩

/-- A request for a charge voltage alone. -/
def rcvOnly : Request ℚ := ⟨none, some (34 / 10), none, none⟩

/-- A request for both limits, and one for the charge voltage. -/
theorem limits_hold_requests :
    Along step RcvRight battery [.pump (calm 0 [.connected]), .put bothLimits, .put rcvOnly] ∧
      Always step LimitsRight battery
        [.pump (calm 0 [.connected]), .put bothLimits, .put rcvOnly] := by
  have hfirst : PutKnows (step battery (.pump (calm 0 [.connected]))) bothLimits := by
    have hnone : (limits (step battery (.pump (calm 0 [.connected])))).ovp = none := by
      decide +kernel
    refine ⟨by decide +kernel, fun _ ovp _ h => ?_, fun _ _ => by decide +kernel, fun _ _ ovp h => ?_⟩
    · rw [hnone] at h
      cases h
    · rw [hnone] at h
      cases h
  have hsecond : PutKnows (step (step battery (.pump (calm 0 [.connected]))) (.put bothLimits))
      rcvOnly := by
    have hknown : (limits (step (step battery (.pump (calm 0 [.connected])))
        (.put bothLimits))).ovp = some 3600 := by
      decide +kernel
    refine ⟨by decide +kernel, fun _ ovp _ h => ?_, fun _ h => ?_, nofun⟩
    · rw [hknown] at h
      cases h
      exact ⟨by decide, .inl (by decide)⟩
    · rw [hknown] at h
      cases h
  exact limits_hold ⟨trivial, fun _ _ _ => hfirst, fun _ _ _ => hsecond, trivial⟩

/-- Two requests for 3.40 V and no report: the second is written as 2.49 V. -/
theorem second_request_cut :
    ¬(Along step RcvRight battery [.pump (calm 0 [.connected]), .put rcvOnly, .put rcvOnly] ∧
      Always step LimitsRight battery
        [.pump (calm 0 [.connected]), .put rcvOnly, .put rcvOnly]) := by
  rintro ⟨hright, -⟩
  have hsecond : RcvRight (step (step battery (.pump (calm 0 [.connected]))) (.put rcvOnly))
      (.put rcvOnly) := hright.2.2.1
  have hvalue := (hsecond (34 / 10) rfl rfl (by decide +kernel) ⟨1, true, jkRegCellRcv, 2490⟩ []
    (by decide +kernel)).2
  exact absurd hvalue (by decide +kernel)

end MoonFlare.JkWrites
