import MoonFlare.DecimalText
import MoonFlare.DoubleOrder

/-!
# Decimals nearest to a binary value

A value that is written with some significant digits becomes the decimal of that many digits
nearest to it, and a decimal that is read becomes the nearest binary value. Seventeen digits
bring a double back. Fifteen need not, but what was read from them is brought back by the
fifteen digits of its own.
-/

namespace MoonFlare

namespace Binary

/-! ## The nearest integer -/

/-- An integer less than half a unit off is the nearest one. -/
theorem roundHalfEven_of_near {q : ℚ} {z : ℤ} (h : |q - z| < 1 / 2) : roundHalfEven q = z := by
  have hown := abs_le.mp (roundHalfEven_near q)
  have hother := abs_lt.mp h
  have hlt : (roundHalfEven q : ℚ) < z + 1 := by linarith [hown.2, hother.2]
  have hgt : (z : ℚ) - 1 < roundHalfEven q := by linarith [hown.1, hother.1]
  have hlt' : roundHalfEven q < z + 1 := by exact_mod_cast hlt
  have hgt' : z - 1 < roundHalfEven q := by exact_mod_cast hgt
  omega

/-- No integer is nearer. -/
theorem roundHalfEven_nearest (q : ℚ) (z : ℤ) : |(roundHalfEven q : ℚ) - q| ≤ |(z : ℚ) - q| := by
  by_contra hfar
  have hnear : |q - z| < 1 / 2 := by
    rw [abs_sub_comm]
    exact (not_le.mp hfar).trans_le (roundHalfEven_near q)
  rw [roundHalfEven_of_near hnear] at hfar
  exact hfar le_rfl

/-- Between two integers the even one is taken. -/
theorem even_of_tie {q : ℚ} (h : |q - roundHalfEven q| = 1 / 2) : roundHalfEven q % 2 = 0 := by
  have hlow : (⌊q⌋ : ℚ) ≤ q := Int.floor_le q
  have hhigh : q < ⌊q⌋ + 1 := Int.lt_floor_add_one q
  unfold roundHalfEven at h ⊢
  dsimp only at h ⊢
  split_ifs at h ⊢ with hdown hup heven
  · rw [abs_of_nonneg (by linarith)] at h
    exact absurd hdown (by linarith)
  · push_cast at h
    rw [abs_of_nonpos (by linarith)] at h
    exact absurd hup (by linarith)
  · exact heven
  · omega

/-- A value no further from an integer than one that is rounded to it is rounded to it too. -/
theorem roundHalfEven_of_closer {q q' : ℚ}
    (h : |q' - roundHalfEven q| ≤ |q - roundHalfEven q|) : roundHalfEven q' = roundHalfEven q := by
  have hhalf : |q - roundHalfEven q| ≤ 1 / 2 := by
    rw [abs_sub_comm]
    exact roundHalfEven_near q
  rcases (h.trans hhalf).lt_or_eq with hlt | heq
  · exact roundHalfEven_of_near hlt
  · have heven := even_of_tie (le_antisymm hhalf (heq ▸ h))
    generalize roundHalfEven q = z at heq heven
    rcases (abs_eq (by norm_num)).mp heq with hup | hdown
    · have hfloor : ⌊q'⌋ = z := by
        rw [Int.floor_eq_iff]
        constructor <;> linarith
      unfold roundHalfEven
      dsimp only
      rw [hfloor, if_neg (by linarith), if_neg (by linarith), if_pos heven]
    · have hfloor : ⌊q'⌋ = z - 1 := by
        rw [Int.floor_eq_iff]
        push_cast
        constructor <;> linarith
      unfold roundHalfEven
      dsimp only
      rw [hfloor, if_neg (by push_cast; linarith), if_neg (by push_cast; linarith),
        if_neg (by omega)]
      omega

/-! ## The nearest value of a format -/

variable {p : ℕ} {emin : ℤ} {q q' w : ℚ}

theorem lt_pow_lastPlace (hq : 0 < q) : q < 2 ^ (lastPlace p emin q + p) := by
  have hlog : q < (2 : ℚ) ^ (Int.log 2 q + 1) := Int.lt_zpow_succ_log_self (by norm_num) q
  refine hlog.trans_le (zpow_le_zpow_right₀ (by norm_num) ?_)
  simp only [lastPlace, abs_of_pos hq]
  omega

/-- A place above the least one is that of the value's own power of two. -/
theorem pow_lastPlace_le (hq : 0 < q) (h : emin < lastPlace p emin q) :
    2 ^ (lastPlace p emin q + (p - 1)) ≤ q := by
  have hlog : (2 : ℚ) ^ Int.log 2 q ≤ q := Int.zpow_log_le_self (by norm_num) hq
  refine le_trans (zpow_le_zpow_right₀ (by norm_num) ?_) hlog
  simp only [lastPlace, abs_of_pos hq] at h ⊢
  omega

/-- What a multiple of a place is at a lower one. -/
theorem multiple_of_le {e e' : ℤ} (h : e' ≤ e) (z : ℤ) : ∃ k : ℤ, (z : ℚ) * 2 ^ e = k * 2 ^ e' := by
  obtain ⟨k, hk⟩ := pow_div_place h
  have hpos : (2 : ℚ) ^ e' ≠ 0 := by positivity
  refine ⟨z * k, ?_⟩
  push_cast
  rw [mul_assoc, ← hk, div_mul_cancel₀ _ hpos]

/-- A multiple of a place that is below a power of two is a place below it. -/
theorem add_place_le {e L z : ℤ} (hw : w = z * 2 ^ e) (he : e ≤ L) (h : w < 2 ^ L) :
    w + 2 ^ e ≤ 2 ^ L := by
  have hpos : (0 : ℚ) < 2 ^ e := by positivity
  obtain ⟨k, hk⟩ := pow_div_place he
  have hpow : (2 : ℚ) ^ L = k * 2 ^ e := by rw [← hk, div_mul_cancel₀ _ hpos.ne']
  rw [hw, hpow] at h
  have hlt : z < k := by exact_mod_cast lt_of_mul_lt_mul_right h hpos.le
  have hstep : (z : ℚ) + 1 ≤ k := by exact_mod_cast hlt
  rw [hw, hpow, ← add_one_mul]
  gcongr

/-- A multiple of the value's place less than half a place off is what it is rounded to. -/
theorem round_of_near {z : ℤ} (hw : w = z * 2 ^ lastPlace p emin q)
    (h : |q - w| < 2 ^ lastPlace p emin q / 2) : round p emin q = w := by
  have hpos : (0 : ℚ) < 2 ^ lastPlace p emin q := by positivity
  have hnear : |q / 2 ^ lastPlace p emin q - z| < 1 / 2 := by
    have hscale : q / 2 ^ lastPlace p emin q - z = (q - w) / 2 ^ lastPlace p emin q := by
      rw [hw, sub_div, mul_div_cancel_right₀ _ hpos.ne']
    rw [hscale, abs_div, abs_of_pos hpos, div_lt_iff₀ hpos]
    linarith
  rw [round, roundHalfEven_of_near hnear, hw]

/-- A value of the same place no further off is rounded to the same. -/
theorem round_of_closer (hplace : lastPlace p emin q' = lastPlace p emin q)
    (h : |q' - round p emin q| ≤ |q - round p emin q|) : round p emin q' = round p emin q := by
  have hpos : (0 : ℚ) < 2 ^ lastPlace p emin q := by positivity
  have hscale : ∀ x : ℚ, |x - round p emin q| =
      |x / 2 ^ lastPlace p emin q - roundHalfEven (q / 2 ^ lastPlace p emin q)| *
        2 ^ lastPlace p emin q := by
    intro x
    rw [← abs_of_pos hpos, ← abs_mul, abs_of_pos hpos, sub_mul, div_mul_cancel₀ _ hpos.ne']
    rfl
  rw [hscale, hscale] at h
  have hcloser := roundHalfEven_of_closer (le_of_mul_le_mul_right h hpos)
  rw [round, hplace, hcloser]
  rfl

theorem round_le_pow_place (hq : 0 < q) : round p emin q ≤ 2 ^ (lastPlace p emin q + p) :=
  round_le_pow (lt_pow_lastPlace hq).le (by omega)

/-- A rounded value is a multiple of its own place. -/
theorem round_round_of_pos (hp : 0 < p) (hq : 0 < q) :
    round p emin (round p emin q) = round p emin q := by
  have hnonneg : 0 ≤ round p emin q := round_nonneg hq.le
  rcases hnonneg.eq_or_lt with hzero | hpos
  · rw [← hzero, round_zero]
  generalize hw : round p emin q = w at hpos ⊢
  rcases le_or_gt (lastPlace p emin w) (lastPlace p emin q) with hle | hgt
  · obtain ⟨k, hk⟩ := multiple_of_le hle (roundHalfEven (q / 2 ^ lastPlace p emin q))
    refine round_of_multiple (k := k) ?_
    rw [← hk, ← hw]
    rfl
  · -- the value was rounded up to a power of two
    have hlow := pow_lastPlace_le hpos (lt_of_le_of_lt (le_max_right _ _) hgt)
    have hhigh : round p emin q ≤ 2 ^ (lastPlace p emin q + p) := round_le_pow_place hq
    rw [hw] at hhigh
    have hexp := (zpow_le_zpow_iff_right₀ (by norm_num : (1 : ℚ) < 2)).mp (hlow.trans hhigh)
    have hplace : lastPlace p emin q + p = lastPlace p emin w + (p - 1) := by omega
    have hpow : w = 2 ^ (lastPlace p emin w + (p - 1)) := le_antisymm (hplace ▸ hhigh) hlow
    obtain ⟨k, hk⟩ :=
      pow_div_place (show lastPlace p emin w ≤ lastPlace p emin w + (p - 1) by omega)
    refine round_of_multiple (k := k) ?_
    rw [← hk, div_mul_cancel₀ _ (by positivity)]
    exact hpow

/-- Rounding what is rounded changes nothing. -/
theorem round_round (hp : 0 < p) (emin : ℤ) (q : ℚ) :
    round p emin (round p emin q) = round p emin q := by
  rcases lt_trichotomy q 0 with hneg | rfl | hpos
  · have h : round p emin (round p emin (-q)) = round p emin (-q) :=
      round_round_of_pos hp (neg_pos.mpr hneg)
    rw [round_neg, round_neg] at h
    exact neg_injective h
  · rw [round_zero, round_zero]
  · exact round_round_of_pos hp hpos

end Binary

namespace Decimal

open Binary

/-! ## The value of what is written -/

theorem ofDigits_append (ds es : List (Fin 10)) :
    ofDigits (ds ++ es) = ofDigits ds * 10 ^ es.length + ofDigits es := by
  rw [ofDigits, List.foldl_append, ← ofDigits, ofDigits_foldl]

theorem ofDigits_replicate_zero (k : ℕ) : ofDigits (List.replicate k 0) = 0 := by
  induction k with
  | zero => rfl
  | succ k ih =>
    rw [List.replicate_succ, ofDigits_cons, ih]
    simp

/-- What `%g` leaves out are zeros. -/
theorem exists_strip (ds : List (Fin 10)) : ∃ k, ds = strip ds ++ List.replicate k 0 := by
  induction ds using List.reverseRecOn with
  | nil => exact ⟨0, rfl⟩
  | append_singleton ds d ih =>
    by_cases hd : d = 0
    · obtain ⟨k, hk⟩ := ih
      have hstrip : strip (ds ++ [d]) = strip ds :=
        List.rdropWhile_concat_pos _ _ _ (by simpa using hd)
      refine ⟨k + 1, ?_⟩
      rw [hstrip, hd, List.replicate_succ', ← List.append_assoc, ← hk]
    · have hstrip : strip (ds ++ [d]) = ds ++ [d] :=
        List.rdropWhile_concat_neg _ _ _ (by simpa using hd)
      exact ⟨0, by rw [hstrip, List.replicate_zero, List.append_nil]⟩

/-- Zeros at the end of a fraction add nothing. -/
theorem value_strip (i f : List (Fin 10)) (e : Option (Bool × List (Fin 10))) :
    value ⟨i, strip f, e⟩ = value ⟨i, f, e⟩ := by
  obtain ⟨k, hk⟩ := exists_strip f
  have hdigits : ofDigits (i ++ f) = ofDigits (i ++ strip f) * 10 ^ k := by
    conv_lhs => rw [hk]
    rw [← List.append_assoc, ofDigits_append, List.length_replicate, ofDigits_replicate_zero,
      Nat.add_zero]
  have hlen : (f.length : ℤ) = (strip f).length + k := by
    have hlength := congrArg List.length hk
    rw [List.length_append, List.length_replicate] at hlength
    exact_mod_cast hlength
  have hexp : exponent ⟨i, strip f, e⟩ = exponent ⟨i, f, e⟩ := rfl
  have hsplit : (10 : ℚ) ^ (exponent ⟨i, f, e⟩ - (strip f).length) =
      10 ^ k * 10 ^ (exponent ⟨i, f, e⟩ - f.length) := by
    rw [← zpow_natCast, ← zpow_add₀ (by norm_num), hlen]
    congr 1
    ring
  rw [value, value, hdigits, hexp, hsplit]
  push_cast
  ring

theorem exponent_expDigits (i f : List (Fin 10)) (x : ℤ) :
    exponent ⟨i, f, some (decide (x < 0), expDigits x)⟩ = x := by
  have hread : ofDigits (expDigits x) = x.natAbs := by
    have hwidth : x.natAbs < 10 ^ width x.natAbs := Nat.lt_pow_succ_log_self (by norm_num) _
    exact ofDigits_digits
      (hwidth.trans_le (Nat.pow_le_pow_right (by norm_num) (le_max_right _ _)))
  simp only [exponent, hread]
  split_ifs with hneg
  · simp only [decide_eq_true_eq] at hneg
    omega
  · simp only [decide_eq_true_eq, not_lt] at hneg
    omega

/-- The digits of a number, written with the point behind the first of them at an exponent. -/
theorem value_ofG_significant {p : ℕ} (hp : 0 < p) (a : ℚ) (hlt : (significant p a).1 < 10 ^ p) :
    (ofG p a).value = (significant p a).1 * 10 ^ ((significant p a).2 - (p - 1)) := by
  have hlen := length_digits p (significant p a).1
  have hread := ofDigits_digits hlt
  unfold ofG
  dsimp only
  generalize significant p a = s at hlen hread ⊢
  obtain ⟨n, x⟩ := s
  dsimp only at hlen hread ⊢
  split_ifs with hexp hint
  · rw [value_strip, value, exponent_expDigits, List.take_append_drop, hread]
    simp only [List.length_drop, hlen]
    congr 2
    omega
  · rw [value_strip, value, List.take_append_drop, hread]
    simp only [exponent, List.length_drop, hlen]
    congr 2
    omega
  · have hzero : ofDigits ([0] ++ (List.replicate ((-x).toNat - 1) 0 ++ digits p n)) = n := by
      rw [← List.append_assoc, ofDigits_append, hread]
      have hnone : ofDigits ([0] ++ List.replicate ((-x).toNat - 1) 0) = 0 :=
        ofDigits_replicate_zero ((-x).toNat - 1 + 1)
      rw [hnone, Nat.zero_mul, Nat.zero_add]
    rw [value_strip, value, hzero]
    simp only [exponent, List.length_append, List.length_replicate, hlen]
    congr 2
    push_cast
    omega

/-! ## The nearest decimal -/

/-- The unit of the last of the digits that a value is written with. -/
def unitOf (p : ℕ) (a : ℚ) : ℚ := 10 ^ (Int.log 10 a - (p - 1))

/-- A value with so many digits. -/
def HasDigits (p : ℕ) (q : ℚ) : Prop := ∃ (m : ℕ) (k : ℤ), m < 10 ^ p ∧ q = m * 10 ^ k

variable {p : ℕ} {a q w s b t : ℚ}

theorem unitOf_pos (p : ℕ) (a : ℚ) : 0 < unitOf p a := by
  unfold unitOf
  positivity

/-- A value is at least ten to its exponent, which is a whole number of its units, and less
than ten times that. -/
theorem unitOf_spec (hp : 0 < p) (ha : 0 < a) :
    (10 ^ (p - 1) : ℕ) * unitOf p a ≤ a ∧ a < (10 ^ p : ℕ) * unitOf p a := by
  have hlow : (10 : ℚ) ^ Int.log 10 a ≤ a := Int.zpow_log_le_self (by norm_num) ha
  have hhigh : a < (10 : ℚ) ^ (Int.log 10 a + 1) := Int.lt_zpow_succ_log_self (by norm_num) a
  have hten : ∀ n : ℕ, ((10 ^ n : ℕ) : ℚ) * unitOf p a = 10 ^ (n + (Int.log 10 a - (p - 1))) := by
    intro n
    rw [unitOf, zpow_add₀ (by norm_num), zpow_natCast]
    push_cast
    rfl
  have hfirst : ((p - 1 : ℕ) : ℤ) + (Int.log 10 a - (p - 1)) = Int.log 10 a := by omega
  have hlast : (p : ℤ) + (Int.log 10 a - (p - 1)) = Int.log 10 a + 1 := by omega
  rw [hten, hten, hfirst, hlast]
  exact ⟨hlow, hhigh⟩

/-- The digits that are kept, as a number. -/
theorem kept_bounds (hp : 0 < p) (ha : 0 < a) :
    (10 ^ (p - 1) : ℕ) ≤ roundHalfEven (a / unitOf p a) ∧
      roundHalfEven (a / unitOf p a) ≤ (10 ^ p : ℕ) := by
  obtain ⟨hlow, hhigh⟩ := unitOf_spec hp ha
  have hpos := unitOf_pos p a
  constructor
  · have hmono := roundHalfEven_mono ((le_div_iff₀ hpos).mpr hlow)
    rw [← Int.cast_natCast (R := ℚ), roundHalfEven_intCast] at hmono
    exact hmono
  · have hmono := roundHalfEven_mono ((div_lt_iff₀ hpos).mpr hhigh).le
    rw [← Int.cast_natCast (R := ℚ), roundHalfEven_intCast] at hmono
    exact hmono

theorem significant_spec (hp : 0 < p) (ha : 0 < a) :
    (significant p a).1 < 10 ^ p ∧
      ((significant p a).1 : ℚ) * 10 ^ ((significant p a).2 - (p - 1)) =
        roundHalfEven (a / unitOf p a) * unitOf p a := by
  obtain ⟨hlow, hhigh⟩ := kept_bounds hp ha
  have hscale : a * 10 ^ ((p : ℤ) - 1 - Int.log 10 a) = a / unitOf p a := by
    rw [unitOf, div_eq_mul_inv, ← zpow_neg]
    congr 2
    ring
  unfold significant
  dsimp only
  rw [hscale]
  generalize roundHalfEven (a / unitOf p a) = n at hlow hhigh ⊢
  have hcast : ((n.toNat : ℕ) : ℤ) = n := Int.toNat_of_nonneg ((Int.natCast_nonneg _).trans hlow)
  split_ifs with hall
  · refine ⟨Nat.pow_lt_pow_right (by norm_num) (by omega), ?_⟩
    have hn : (n : ℚ) = 10 ^ p := by
      rw [← hcast, hall]
      push_cast
      rfl
    have hten : (10 : ℚ) ^ p = 10 ^ (p - 1) * 10 := by
      rw [← pow_succ]
      congr 1
      omega
    have hnext : (10 : ℚ) ^ (Int.log 10 a + 1 - (p - 1)) = 10 * unitOf p a := by
      rw [unitOf, ← zpow_one_add₀ (by norm_num)]
      congr 1
      ring
    dsimp only
    rw [hn, hten, hnext]
    push_cast
    ring
  · have hn : ((n.toNat : ℕ) : ℚ) = n := by exact_mod_cast hcast
    refine ⟨by omega, ?_⟩
    dsimp only
    rw [hn]
    rfl

/-- `%g` writes the multiple of the last unit that is nearest. -/
theorem value_ofG (hp : 0 < p) (ha : 0 < a) :
    (ofG p a).value = roundHalfEven (a / unitOf p a) * unitOf p a := by
  obtain ⟨hlt, hvalue⟩ := significant_spec hp ha
  rw [value_ofG_significant hp a hlt, hvalue]

theorem hasDigits_ofG (hp : 0 < p) (ha : 0 < a) : HasDigits p (ofG p a).value := by
  have hlt := (significant_spec hp ha).1
  exact ⟨_, _, hlt, value_ofG_significant hp a hlt⟩

theorem ofG_pos (hp : 0 < p) (ha : 0 < a) : 0 < (ofG p a).value := by
  have hlow := (kept_bounds hp ha).1
  have hone : (0 : ℤ) < roundHalfEven (a / unitOf p a) :=
    lt_of_lt_of_le (by positivity) hlow
  rw [value_ofG hp ha]
  exact mul_pos (by exact_mod_cast hone) (unitOf_pos p a)

/-- A value in units, and how far it is off. -/
theorem sub_of_unit (p : ℕ) (a : ℚ) (z : ℚ) :
    |z * unitOf p a - a| = |z - a / unitOf p a| * unitOf p a := by
  have hpos := unitOf_pos p a
  have hscale : z * unitOf p a - a = (z - a / unitOf p a) * unitOf p a := by
    rw [sub_mul, div_mul_cancel₀ _ hpos.ne']
  rw [hscale, abs_mul, abs_of_pos hpos]

/-- What is written is at most half of its last unit off. -/
theorem ofG_near (hp : 0 < p) (ha : 0 < a) : |(ofG p a).value - a| ≤ unitOf p a / 2 := by
  have hpos := unitOf_pos p a
  have hnear := roundHalfEven_near (a / unitOf p a)
  rw [value_ofG hp ha, sub_of_unit]
  calc _ ≤ 1 / 2 * unitOf p a := by gcongr
    _ = unitOf p a / 2 := by ring

/-- A value with as many digits is a number of units, or below the power of ten. -/
theorem HasDigits.units (h : HasDigits p q) (hp : 0 < p) (a : ℚ) :
    (∃ z : ℤ, q = z * unitOf p a) ∨ q < (10 ^ (p - 1) : ℕ) * unitOf p a := by
  obtain ⟨m, k, hm, rfl⟩ := h
  rcases le_or_gt (Int.log 10 a - (p - 1)) k with hle | hlt
  · left
    obtain ⟨n, hn⟩ := Int.eq_ofNat_of_zero_le (sub_nonneg.mpr hle)
    refine ⟨m * 10 ^ n, ?_⟩
    have hk : k = n + (Int.log 10 a - (p - 1)) := by omega
    rw [hk, zpow_add₀ (by norm_num), zpow_natCast, ← mul_assoc]
    push_cast
    rfl
  · right
    have hdigits : (m : ℚ) < 10 ^ p := by exact_mod_cast hm
    have hten : (10 : ℚ) ^ p = 10 ^ (p - 1) * 10 := by
      rw [← pow_succ]
      congr 1
      omega
    have hunit : (10 : ℚ) * 10 ^ k ≤ unitOf p a := by
      rw [unitOf, ← zpow_one_add₀ (by norm_num)]
      exact zpow_le_zpow_right₀ (by norm_num) (by omega)
    calc (m : ℚ) * 10 ^ k < 10 ^ p * 10 ^ k := by gcongr
      _ = 10 ^ (p - 1) * (10 * 10 ^ k) := by rw [hten]; ring
      _ ≤ 10 ^ (p - 1) * unitOf p a := by gcongr
      _ = (10 ^ (p - 1) : ℕ) * unitOf p a := by push_cast; rfl

/-- No value with as many digits is nearer than what is written. -/
theorem ofG_nearest (hp : 0 < p) (ha : 0 < a) (h : HasDigits p q) :
    |(ofG p a).value - a| ≤ |q - a| := by
  have hpos := unitOf_pos p a
  have hinteger : ∀ z : ℤ, |(ofG p a).value - a| ≤ |z * unitOf p a - a| := by
    intro z
    rw [value_ofG hp ha, sub_of_unit, sub_of_unit]
    exact mul_le_mul_of_nonneg_right (roundHalfEven_nearest _ z) hpos.le
  rcases h.units hp a with ⟨z, rfl⟩ | hbelow
  · exact hinteger z
  · -- the power of ten is nearer than what is below it
    have hpow := hinteger (10 ^ (p - 1) : ℕ)
    rw [Int.cast_natCast] at hpow
    have hlow := (unitOf_spec hp ha).1
    refine hpow.trans ?_
    rw [abs_of_nonpos (sub_nonpos.mpr hlow), abs_of_nonpos (by linarith)]
    linarith

/-- Two values of as many digits with another between them are a unit apart. -/
theorem unitOf_le_gap (hp : 0 < p) (hw : 0 < w) (hs : HasDigits p s) (hb : HasDigits p b)
    (hsw : s < w) (hwb : w < b) : unitOf p w ≤ b - s := by
  have hpos := unitOf_pos p w
  have hlow := (unitOf_spec hp hw).1
  have happart : ∀ y z : ℤ, y * unitOf p w < z * unitOf p w →
      unitOf p w ≤ z * unitOf p w - y * unitOf p w := by
    intro y z hlt
    have hyz : y + 1 ≤ z := by exact_mod_cast lt_of_mul_lt_mul_right hlt hpos.le
    have hcast : (y : ℚ) + 1 ≤ z := by exact_mod_cast hyz
    nlinarith
  rcases hb.units hp w with ⟨z, rfl⟩ | hbelow
  · rcases hs.units hp w with ⟨y, rfl⟩ | hbelow
    · exact happart y z (hsw.trans hwb)
    · have hstep := happart (10 ^ (p - 1) : ℕ) z (by
        rw [Int.cast_natCast]
        exact hlow.trans_lt hwb)
      rw [Int.cast_natCast] at hstep
      linarith
  · exact absurd (hbelow.trans_le hlow) (not_lt.mpr hwb.le)

/-- A value of as many digits that is nearer, but not between the other and the point, is on
the other side of it, and the two are a unit apart. -/
theorem unitOf_le_apart (hp : 0 < p) (hw : 0 < w) (hs : HasDigits p s) (hb : HasDigits p b)
    (hnear : |b - w| ≤ |s - w|) (hside : ¬(s ≤ b ∧ b ≤ w ∨ w ≤ b ∧ b ≤ s)) :
    unitOf p w ≤ |b - w| + |s - w| := by
  rcases lt_trichotomy s w with hlt | rfl | hlt
  · have hwb : w < b := by
      by_contra hle
      refine hside (Or.inl ⟨?_, not_lt.mp hle⟩)
      rw [abs_of_nonpos (by linarith), abs_of_nonpos (by linarith)] at hnear
      linarith
    have happart := unitOf_le_gap hp hw hs hb hlt hwb
    rw [abs_of_pos (by linarith), abs_of_neg (by linarith)]
    linarith
  · rw [sub_self, abs_zero] at hnear
    have hsame : b = s := by linarith [abs_nonpos_iff.mp hnear]
    exact absurd (Or.inl ⟨hsame.ge, hsame.le⟩) hside
  · have hbw : b < w := by
      by_contra hle
      refine hside (Or.inr ⟨not_lt.mp hle, ?_⟩)
      rw [abs_of_nonneg (by linarith), abs_of_nonneg (by linarith)] at hnear
      linarith
    have happart := unitOf_le_gap hp hw hb hs hbw hlt
    rw [abs_of_neg (by linarith), abs_of_pos (by linarith)]
    linarith

/-! ## Reading what was written -/

/-- Seventeen digits of a double are read as that double. -/
theorem f64_ofG_seventeen (hw : 0 < w) (hheld : f64 w = w) : f64 (ofG 17 w).value = w := by
  have hpos := ofG_pos (p := 17) (by norm_num) hw
  have hoff : |(ofG 17 w).value - w| ≤ w / (2 * 10 ^ 16) := by
    have hnear := ofG_near (p := 17) (by norm_num) hw
    have hlow := (unitOf_spec (p := 17) (by norm_num) hw).1
    norm_num at hlow ⊢
    linarith
  generalize (ofG 17 w).value = t at hpos hoff ⊢
  obtain ⟨hbelow, habove⟩ := abs_le.mp hoff
  have hmultiple : w = roundHalfEven (w / 2 ^ lastPlace 53 (-1074) w) *
      2 ^ lastPlace 53 (-1074) w := hheld.symm
  have hlt : t < 2 ^ (lastPlace 53 (-1074) t + (53 : ℕ)) := lt_pow_lastPlace hpos
  have hltw : w < 2 ^ (lastPlace 53 (-1074) w + (53 : ℕ)) := lt_pow_lastPlace hw
  rcases le_or_gt (lastPlace 53 (-1074) t) (lastPlace 53 (-1074) w) with hle | hgt
  · obtain ⟨k, hk⟩ := multiple_of_le hle (roundHalfEven (w / 2 ^ lastPlace 53 (-1074) w))
    have hplace : (0 : ℚ) < 2 ^ lastPlace 53 (-1074) t := by positivity
    refine round_of_near (hmultiple.trans hk) ?_
    rw [zpow_add₀ (by norm_num)] at hlt
    norm_num at hlt hbelow hoff
    linarith
  · -- the digits lead past a power of two, which is at least a place above the double
    have hnormal := pow_lastPlace_le hpos (lt_of_le_of_lt (le_max_right _ _) hgt)
    have hless : w < 2 ^ (lastPlace 53 (-1074) t + ((53 : ℕ) - 1)) :=
      hltw.trans_le (zpow_le_zpow_right₀ (by norm_num) (by omega))
    have hgap := (add_place_le hmultiple (by omega) hless).trans hnormal
    rw [zpow_add₀ (by norm_num)] at hltw
    norm_num at hltw habove
    linarith

/-- A double of less than fifteen digits in its last place is in the range of the least place. -/
theorem lastPlace_of_small (ht : 0 < t) (hoff : |t - w| ≤ 2 ^ lastPlace 53 (-1074) t / 2)
    (hsmall : w < 10 ^ 15 * 2 ^ lastPlace 53 (-1074) t) : lastPlace 53 (-1074) t = -1074 := by
  have hplace : (0 : ℚ) < 2 ^ lastPlace 53 (-1074) t := by positivity
  refine le_antisymm (not_lt.mp fun hnormal => ?_) (le_max_right _ _)
  have hbig := pow_lastPlace_le ht hnormal
  rw [zpow_add₀ (by norm_num)] at hbig
  have habove := (abs_le.mp hoff).2
  norm_num at hbig hsmall
  linarith

/-- The double that fifteen digits are read as is read from its own fifteen digits too. -/
theorem f64_ofG_fifteen (ht : 0 < t) (hdigits : HasDigits 15 t) (hw : 0 < f64 t) :
    f64 (ofG 15 (f64 t)).value = f64 t := by
  have hpos := ofG_pos (p := 15) (by norm_num) hw
  have hdigits' := hasDigits_ofG (p := 15) (by norm_num) hw
  have hheld : f64 (f64 t) = f64 t := round_round (by norm_num) _ t
  have hmono : ∀ {x y : ℚ}, x ≤ y → f64 x ≤ f64 y := fun h => round_monotone (by norm_num) _ h
  have hoff : |f64 t - t| ≤ 2 ^ lastPlace 53 (-1074) t / 2 := round_near _ _ _
  have hfar := ofG_nearest (p := 15) (by norm_num) hw hdigits
  generalize hvalue : (ofG 15 (f64 t)).value = v at hpos hfar hdigits'
  -- on one side of the double the order settles it, on both sides the digits are too coarse
  by_cases hside : t ≤ v ∧ v ≤ f64 t ∨ f64 t ≤ v ∧ v ≤ t
  · rcases hside with ⟨hlow, hhigh⟩ | ⟨hlow, hhigh⟩
    · exact le_antisymm ((hmono hhigh).trans hheld.le) (hmono hlow)
    · exact le_antisymm (hmono hhigh) (hheld.ge.trans (hmono hlow))
  have hgap := unitOf_le_apart (by norm_num) hw hdigits hdigits' hfar hside
  have hplace : (0 : ℚ) < 2 ^ lastPlace 53 (-1074) t := by positivity
  have hwidth := (unitOf_spec (p := 15) (by norm_num) hw).2
  rw [abs_sub_comm] at hoff
  have hsmall : f64 t < 10 ^ 15 * 2 ^ lastPlace 53 (-1074) t := by
    norm_num at hwidth ⊢
    linarith
  have hleast := lastPlace_of_small ht hoff hsmall
  have hbelow : v < 2 ^ (lastPlace 53 (-1074) t + 53) := by
    rw [zpow_add₀ (by norm_num)]
    have habove := (abs_le.mp (hfar.trans hoff)).2
    norm_num at hsmall ⊢
    linarith
  refine round_of_closer (le_antisymm ?_ ?_) hfar
  · have hle : lastPlace 53 (-1074) v ≤ lastPlace 53 (-1074) t + 53 - (53 : ℕ) :=
      lastPlace_le hpos hbelow (by rw [hleast]; norm_num)
    omega
  · rw [hleast]
    exact le_max_right _ _

end Decimal

end MoonFlare
