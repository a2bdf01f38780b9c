import MoonFlare.Binary

/-!
# The order of doubles

Every double but not-a-number has a place on the extended line of the rationals, and the
comparisons are those of the places. Rounding keeps the order of any two values, so a
subtraction does too, and taking off what is not negative does not lead above a double that
the format holds.
-/

namespace MoonFlare

namespace Binary

/-- Rounding to nearest, ties to even, does not prefer a sign. -/
theorem roundHalfEven_neg (q : ℚ) : roundHalfEven (-q) = -roundHalfEven q := by
  rcases eq_or_ne q (⌊q⌋ : ℚ) with hint | hne
  · rw [hint]
    have hneg : (-(⌊q⌋ : ℚ)) = ((-⌊q⌋ : ℤ) : ℚ) := by push_cast; rfl
    rw [hneg, roundHalfEven_intCast, roundHalfEven_intCast]
  · have hlow : (⌊q⌋ : ℚ) < q := lt_of_le_of_ne (Int.floor_le q) (Ne.symm hne)
    have hhigh : q < ⌊q⌋ + 1 := Int.lt_floor_add_one q
    have hfloor : ⌊-q⌋ = -⌊q⌋ - 1 := by
      rw [Int.floor_eq_iff]
      push_cast
      constructor <;> linarith
    simp only [roundHalfEven, hfloor]
    push_cast
    split_ifs <;> first | omega | (exfalso; linarith)

theorem lastPlace_neg (p : ℕ) (emin : ℤ) (q : ℚ) : lastPlace p emin (-q) = lastPlace p emin q := by
  simp only [lastPlace, abs_neg]

theorem round_neg (p : ℕ) (emin : ℤ) (q : ℚ) : round p emin (-q) = -round p emin q := by
  rw [round, round, lastPlace_neg, neg_div, roundHalfEven_neg]
  push_cast
  exact neg_mul _ _

/-- Rounding keeps the order. -/
theorem round_monotone {p : ℕ} (hp : 0 < p) (emin : ℤ) : Monotone (round p emin) := by
  intro q q' h
  rcases le_total 0 q with hq | hq
  · exact round_mono hp hq h
  rcases le_total 0 q' with hq' | hq'
  · have hleft : 0 ≤ round p emin (-q) := round_nonneg (by linarith)
    have hright : 0 ≤ round p emin q' := round_nonneg hq'
    rw [round_neg] at hleft
    linarith
  · have hmono : round p emin (-q') ≤ round p emin (-q) :=
      round_mono hp (neg_nonneg.mpr hq') (neg_le_neg h)
    rw [round_neg, round_neg] at hmono
    exact neg_le_neg_iff.mp hmono

/-- A value is at most half a unit off its nearest integer. -/
theorem roundHalfEven_near (q : ℚ) : |(roundHalfEven q : ℚ) - q| ≤ 1 / 2 := by
  have hlow : (⌊q⌋ : ℚ) ≤ q := Int.floor_le q
  have hhigh : q < ⌊q⌋ + 1 := Int.lt_floor_add_one q
  rw [abs_le]
  simp only [roundHalfEven]
  split_ifs <;> push_cast <;> constructor <;> linarith

/-- Rounding moves a value by at most half of its last place. -/
theorem round_near (p : ℕ) (emin : ℤ) (q : ℚ) :
    |round p emin q - q| ≤ 2 ^ lastPlace p emin q / 2 := by
  have hpos : (0 : ℚ) < 2 ^ lastPlace p emin q := by positivity
  have hnear := roundHalfEven_near (q / 2 ^ lastPlace p emin q)
  have hscale : round p emin q - q =
      (roundHalfEven (q / 2 ^ lastPlace p emin q) - q / 2 ^ lastPlace p emin q) *
        2 ^ lastPlace p emin q := by
    rw [sub_mul, div_mul_cancel₀ _ hpos.ne']
    rfl
  rw [hscale, abs_mul, abs_of_pos hpos]
  calc _ ≤ 1 / 2 * (2 : ℚ) ^ lastPlace p emin q := by gcongr
    _ = 2 ^ lastPlace p emin q / 2 := by ring

/-- Below a power of two the last place is known. -/
theorem lastPlace_le {p : ℕ} {emin L : ℤ} {q : ℚ} (hpos : 0 < q) (hq : q < 2 ^ L)
    (hemin : emin ≤ L - p) : lastPlace p emin q ≤ L - p := by
  have hlog : Int.log 2 |q| < L := by
    rw [abs_of_pos hpos]
    exact (Int.lt_zpow_iff_log_lt (by norm_num) hpos).mp (by exact_mod_cast hq)
  simp only [lastPlace, max_le_iff]
  omega

/-- Values further apart than a last place are told apart. -/
theorem round_lt_round {p : ℕ} {emin L : ℤ} {q q' : ℚ} (hq : 0 < q) (hgap : q + 2 ^ (L - p) < q')
    (hq' : q' < 2 ^ L) (hemin : emin ≤ L - p) : round p emin q < round p emin q' := by
  have hplace : (0 : ℚ) < 2 ^ (L - p) := by positivity
  have hbound : ∀ x : ℚ, 0 < x → x < 2 ^ L → |round p emin x - x| ≤ 2 ^ (L - p) / 2 := by
    intro x hx hxL
    refine (round_near p emin x).trans ?_
    have hle : (2 : ℚ) ^ lastPlace p emin x ≤ 2 ^ (L - p) :=
      zpow_le_zpow_right₀ (by norm_num) (lastPlace_le hx hxL hemin)
    gcongr
  have hlow := abs_le.mp (hbound q hq (by linarith))
  have hhigh := abs_le.mp (hbound q' (by linarith) hq')
  linarith [hlow.2, hhigh.1]

end Binary

namespace Double

open Binary

/-- The place of a double; not-a-number has none of its own. -/
def key : Double → WithBot (WithTop ℚ)
  | nan => ⊥
  | inf true => ⊥
  | inf false => (⊤ : WithTop ℚ)
  | fin d => ((d.val : WithTop ℚ) : WithBot (WithTop ℚ))

variable {a b c w : Double}

theorem key_inj (ha : a ≠ nan) (hb : b ≠ nan) (h : a.key = b.key) : a = b := by
  rcases a with _ | m | a
  · exact absurd rfl ha
  · rcases b with _ | n | b
    · exact absurd rfl hb
    · cases m <;> cases n <;> first | rfl | simp [key] at h
    · cases m <;> simp [key] at h
  · rcases b with _ | n | b
    · exact absurd rfl hb
    · cases n <;> simp [key] at h
    · simp only [key, WithBot.coe_inj, WithTop.coe_inj] at h
      rw [FinDouble.ext h]

theorem lt_iff_key (ha : a ≠ nan) (hb : b ≠ nan) : a.lt b = true ↔ a.key < b.key := by
  rcases a with _ | m | a
  · exact absurd rfl ha
  · rcases b with _ | n | b
    · exact absurd rfl hb
    · cases m <;> cases n <;> simp [key, lt]
    · cases m <;> simp [key, lt, WithBot.bot_lt_coe]
  · rcases b with _ | n | b
    · exact absurd rfl hb
    · cases n with
      | true => simp [key, lt]
      | false =>
        simp only [key, lt, Bool.not_false, WithBot.coe_lt_coe, true_iff]
        exact WithTop.coe_lt_top _
    · simp [key, lt]

theorem ne_nan_of_ge (h : a.ge b = true) : a ≠ nan ∧ b ≠ nan := by
  refine ⟨?_, ?_⟩
  · rintro rfl
    cases b <;> simp [ge, lt, eq] at h
  · rintro rfl
    cases a <;> simp [ge, lt, eq] at h

theorem ge_iff_key (ha : a ≠ nan) (hb : b ≠ nan) : a.ge b = true ↔ b.key ≤ a.key := by
  have heq : a.eq b = true ↔ a = b := by
    cases a with
    | nan => exact absurd rfl ha
    | inf m => simp [eq]
    | fin d => simp [eq]
  rw [ge, Bool.or_eq_true, lt_iff_key hb ha, heq, le_iff_lt_or_eq]
  refine or_congr_right ⟨?_, fun h => (key_inj hb ha h).symm⟩
  rintro rfl
  rfl

theorem ge_trans (hab : a.ge b = true) (hbc : b.ge c = true) : a.ge c = true := by
  have hb := ne_nan_of_ge hab
  have hc := ne_nan_of_ge hbc
  rw [ge_iff_key hb.1 hb.2] at hab
  rw [ge_iff_key hc.1 hc.2] at hbc
  exact (ge_iff_key hb.1 hc.2).mpr (hbc.trans hab)

/-- What is not below a number is at least that number. -/
theorem lt_eq_false_iff (ha : a ≠ nan) (hb : b ≠ nan) : a.lt b = false ↔ a.ge b = true := by
  rw [ge_iff_key ha hb, ← Bool.not_eq_true, lt_iff_key ha hb, not_lt]

theorem ofRat_ne_nan (q : ℚ) : ofRat q ≠ nan := by
  unfold ofRat
  dsimp only
  split <;> simp

/-- The nearest doubles of two values stand in the order of the values. -/
theorem ofRat_key_mono {q q' : ℚ} (h : q ≤ q') : (ofRat q).key ≤ (ofRat q').key := by
  have hround : round 53 (-1074) q ≤ round 53 (-1074) q' := round_monotone (by norm_num) _ h
  have hover : 0 < overflow := one_pos.trans one_lt_overflow
  unfold ofRat
  dsimp only
  split
  · next hfin =>
    split
    · exact WithBot.coe_le_coe.mpr (WithTop.coe_le_coe.mpr hround)
    · next hinf =>
      have hpos : ¬ round 53 (-1074) q' < 0 := by
        intro hneg
        rw [abs_of_neg hneg, not_lt] at hinf
        linarith [(abs_lt.mp hfin).1]
      simp only [hpos, decide_false, key]
      exact WithBot.coe_le_coe.mpr le_top
  · next hinf =>
    by_cases hneg : round 53 (-1074) q < 0
    · simp only [hneg, decide_true, key]
      exact bot_le
    · rw [abs_of_nonneg (not_lt.mp hneg), not_lt] at hinf
      have hbig : ¬ |round 53 (-1074) q'| < overflow := by
        rw [not_lt]
        exact (hinf.trans hround).trans (le_abs_self _)
      have hpos : ¬ round 53 (-1074) q' < 0 := not_lt.mpr ((not_lt.mp hneg).trans hround)
      rw [dif_neg hbig]
      simp only [hneg, hpos, decide_false, key]
      exact le_rfl

/-- A time: a finite double that the format holds. -/
def IsTime : Double → Prop
  | fin d => ofRat d.val = fin d
  | _ => False

theorem isTime_ofInt (z : Int32) : (ofInt z).IsTime := ofRat_intCast z

/-- Taking the same off a later time leads to a later one. -/
theorem sub_ge_sub (ha : a.IsTime) (hb : b.IsTime) (hw : w ≠ nan) (h : b.ge a = true) :
    (b.sub w).ge (a.sub w) = true := by
  cases a with
  | nan => cases ha
  | inf m => cases ha
  | fin a =>
    cases b with
    | nan => cases hb
    | inf m => cases hb
    | fin b =>
      have hle : a.val ≤ b.val := by
        have hkey := (ge_iff_key (by simp) (by simp)).mp h
        exact WithTop.coe_le_coe.mp (WithBot.coe_le_coe.mp hkey)
      cases w with
      | nan => exact absurd rfl hw
      | inf m => cases m <;> rfl
      | fin w =>
        simp only [sub]
        rw [ge_iff_key (ofRat_ne_nan _) (ofRat_ne_nan _)]
        exact ofRat_key_mono (by linarith)

/-- Taking off what is not negative does not lead to a later time. -/
theorem ge_sub (ha : a.IsTime) (hw : w.ge zero = true) : a.ge (a.sub w) = true := by
  cases a with
  | nan => cases ha
  | inf m => cases ha
  | fin a =>
    cases w with
    | nan => cases hw
    | inf m =>
      cases m with
      | false => rfl
      | true => cases hw
    | fin w =>
      have hle : (0 : ℚ) ≤ w.val := by
        have hkey := (ge_iff_key (by simp) (by simp [zero, const])).mp hw
        exact WithTop.coe_le_coe.mp (WithBot.coe_le_coe.mp hkey)
      simp only [sub]
      rw [ge_iff_key (by simp) (ofRat_ne_nan _), ← (show ofRat a.val = fin a from ha)]
      exact ofRat_key_mono (by linarith)

end Double

end MoonFlare
