import MoonFlare.CString

/-!
# Binary floating point over the rationals

A `double` is a rational in the range of the format, an infinity or not a
number. Rounding to a precision is to nearest, ties to even, on the exact
rational value, so every conversion here can be evaluated.
-/

namespace MoonFlare

namespace Binary

/-- Nearest integer, ties to the even one. -/
def roundHalfEven (q : ℚ) : ℤ :=
  let f := ⌊q⌋
  if q - f < 1 / 2 then f
  else if 1 / 2 < q - f then f + 1
  else if f % 2 = 0 then f else f + 1

theorem roundHalfEven_intCast (z : ℤ) : roundHalfEven (z : ℚ) = z := by
  simp [roundHalfEven]

/-- The exponent of the last place kept for `q` at `p` bits of precision. -/
def lastPlace (p : ℕ) (emin : ℤ) (q : ℚ) : ℤ := max (Int.log 2 |q| - (p - 1)) emin

/-- Round to `p` bits, no place kept below `2 ^ emin`. -/
def round (p : ℕ) (emin : ℤ) (q : ℚ) : ℚ :=
  roundHalfEven (q / 2 ^ lastPlace p emin q) * 2 ^ lastPlace p emin q

theorem round_zero (p : ℕ) (emin : ℤ) : round p emin 0 = 0 := by
  have h := roundHalfEven_intCast 0
  rw [Int.cast_zero] at h
  simp [round, h]

/-- A value that is a multiple of its own last place is kept. -/
theorem round_of_multiple {p : ℕ} {emin : ℤ} {q : ℚ} {k : ℤ}
    (h : q = k * 2 ^ lastPlace p emin q) : round p emin q = q := by
  have hpos : (2 : ℚ) ^ lastPlace p emin q ≠ 0 := by positivity
  have hq : q / 2 ^ lastPlace p emin q = k := by rw [div_eq_iff hpos]; exact h
  rw [round, hq, roundHalfEven_intCast, ← h]

/-- Integers of fewer than `p` bits are kept when units are in range. -/
theorem round_intCast {p : ℕ} {emin : ℤ} {z : ℤ} (hemin : emin ≤ 0) (hz : |z| < 2 ^ p) :
    round p emin (z : ℚ) = z := by
  rcases eq_or_ne z 0 with rfl | hne
  · simpa using round_zero p emin
  have hle : lastPlace p emin (z : ℚ) ≤ 0 := by
    have habs : (|(z : ℚ)|) = ((|z| : ℤ) : ℚ) := by simp
    have hlt : ((|z| : ℤ) : ℚ) < (2 : ℚ) ^ (p : ℤ) := by
      rw [zpow_natCast]
      exact_mod_cast hz
    have hlog : Int.log 2 |(z : ℚ)| < p := by
      rw [habs]
      have hpos : (0 : ℚ) < ((|z| : ℤ) : ℚ) := by exact_mod_cast abs_pos.mpr hne
      exact (Int.lt_zpow_iff_log_lt (by norm_num) hpos).mp (by exact_mod_cast hlt)
    simp only [lastPlace, max_le_iff]
    omega
  obtain ⟨n, hn⟩ := Int.eq_ofNat_of_zero_le (neg_nonneg.mpr hle)
  refine round_of_multiple (k := z * 2 ^ n) ?_
  have hk : lastPlace p emin (z : ℚ) = -(n : ℤ) := by omega
  rw [hk, zpow_neg, zpow_natCast]
  push_cast
  field_simp

/-- A rounded value is zero or at least the smallest place. -/
theorem round_eq_zero_or (p : ℕ) (emin : ℤ) (q : ℚ) :
    round p emin q = 0 ∨ (2 : ℚ) ^ emin ≤ |round p emin q| := by
  rcases eq_or_ne (roundHalfEven (q / 2 ^ lastPlace p emin q)) 0 with h | h
  · exact Or.inl (by simp [round, h])
  · refine Or.inr ?_
    have hone : (1 : ℚ) ≤ |(roundHalfEven (q / 2 ^ lastPlace p emin q) : ℚ)| := by
      exact_mod_cast Int.one_le_abs h
    have hplace : (2 : ℚ) ^ emin ≤ 2 ^ lastPlace p emin q :=
      zpow_le_zpow_right₀ (by norm_num) (le_max_right _ _)
    have hpos : (0 : ℚ) < 2 ^ lastPlace p emin q := by positivity
    rw [round, abs_mul, abs_of_pos hpos]
    calc (2 : ℚ) ^ emin ≤ 1 * 2 ^ lastPlace p emin q := by rw [one_mul]; exact hplace
      _ ≤ _ := by gcongr

theorem roundHalfEven_mono {q q' : ℚ} (h : q ≤ q') : roundHalfEven q ≤ roundHalfEven q' := by
  have hfloor : ⌊q⌋ ≤ ⌊q'⌋ := Int.floor_le_floor h
  simp only [roundHalfEven]
  rcases hfloor.lt_or_eq with hlt | heq
  · split_ifs <;> omega
  · rw [← heq]
    split_ifs <;> first | omega | (exfalso; linarith)

/-- A power of two is a whole number of places below it. -/
theorem pow_div_place {L e : ℤ} (h : e ≤ L) : ∃ z : ℤ, (2 : ℚ) ^ L / 2 ^ e = z := by
  obtain ⟨n, hn⟩ := Int.eq_ofNat_of_zero_le (sub_nonneg.mpr h)
  refine ⟨2 ^ n, ?_⟩
  rw [← zpow_sub₀ (by norm_num : (2 : ℚ) ≠ 0), hn]
  push_cast
  exact zpow_natCast 2 n

/-- Rounding does not go past a power of two above the value. -/
theorem round_le_pow {p : ℕ} {emin L : ℤ} {q : ℚ} (hq : q ≤ 2 ^ L) (hL : lastPlace p emin q ≤ L) :
    round p emin q ≤ 2 ^ L := by
  have hpos : (0 : ℚ) < 2 ^ lastPlace p emin q := by positivity
  obtain ⟨z, hz⟩ := pow_div_place hL
  have hle : roundHalfEven (q / 2 ^ lastPlace p emin q) ≤ z := by
    rw [← roundHalfEven_intCast z, ← hz]
    exact roundHalfEven_mono (by gcongr)
  have hpow : (2 : ℚ) ^ L = z * 2 ^ lastPlace p emin q := by rw [← hz]; field_simp
  rw [round, hpow]
  have hcast : ((roundHalfEven (q / 2 ^ lastPlace p emin q) : ℤ) : ℚ) ≤ z := by exact_mod_cast hle
  gcongr

/-- Nor past one below it. -/
theorem pow_le_round {p : ℕ} {emin L : ℤ} {q : ℚ} (hq : 2 ^ L ≤ q) (hL : lastPlace p emin q ≤ L) :
    2 ^ L ≤ round p emin q := by
  have hpos : (0 : ℚ) < 2 ^ lastPlace p emin q := by positivity
  obtain ⟨z, hz⟩ := pow_div_place hL
  have hle : z ≤ roundHalfEven (q / 2 ^ lastPlace p emin q) := by
    rw [← roundHalfEven_intCast z, ← hz]
    exact roundHalfEven_mono (by gcongr)
  have hpow : (2 : ℚ) ^ L = z * 2 ^ lastPlace p emin q := by rw [← hz]; field_simp
  rw [round, hpow]
  have hcast : (z : ℚ) ≤ ((roundHalfEven (q / 2 ^ lastPlace p emin q) : ℤ) : ℚ) := by
    exact_mod_cast hle
  gcongr

theorem round_nonneg {p : ℕ} {emin : ℤ} {q : ℚ} (h : 0 ≤ q) : 0 ≤ round p emin q := by
  have hmono : roundHalfEven 0 ≤ roundHalfEven (q / 2 ^ lastPlace p emin q) :=
    roundHalfEven_mono (by positivity)
  have hzero : roundHalfEven 0 = 0 := by simpa using roundHalfEven_intCast 0
  rw [hzero] at hmono
  have hcast : (0 : ℚ) ≤ (roundHalfEven (q / 2 ^ lastPlace p emin q) : ℤ) := by
    exact_mod_cast hmono
  rw [round]
  positivity

/-- Rounding keeps the order of what is not negative. -/
theorem round_mono {p : ℕ} (hp : 0 < p) {emin : ℤ} {q q' : ℚ} (h0 : 0 ≤ q) (h : q ≤ q') :
    round p emin q ≤ round p emin q' := by
  rcases h0.eq_or_lt with rfl | hpos
  · rw [round_zero]
    exact round_nonneg h
  have hq' : 0 < q' := hpos.trans_le h
  have hlog : Int.log 2 |q| ≤ Int.log 2 |q'| := by
    rw [abs_of_pos hpos, abs_of_pos hq']
    exact Int.log_mono_right hpos h
  have hplace : lastPlace p emin q ≤ lastPlace p emin q' := by
    simp only [lastPlace]
    omega
  rcases hplace.eq_or_lt with heq | hlt
  · have hmono : roundHalfEven (q / 2 ^ lastPlace p emin q') ≤
        roundHalfEven (q' / 2 ^ lastPlace p emin q') := roundHalfEven_mono (by gcongr)
    have hcast : ((roundHalfEven (q / 2 ^ lastPlace p emin q') : ℤ) : ℚ) ≤
        (roundHalfEven (q' / 2 ^ lastPlace p emin q') : ℤ) := by exact_mod_cast hmono
    rw [round, round, heq]
    gcongr
  · -- The values are in different binades: a power of two lies between them.
    have hbinade : lastPlace p emin q' = Int.log 2 |q'| - (p - 1) := by
      simp only [lastPlace] at hlt ⊢
      omega
    have hlow : Int.log 2 |q| < Int.log 2 |q'| := by
      simp only [lastPlace] at hlt hbinade
      omega
    have hpow : (2 : ℚ) ^ Int.log 2 |q'| ≤ q' := by
      rw [abs_of_pos hq']
      exact Int.zpow_log_le_self (by norm_num) hq'
    have hbelow : q ≤ 2 ^ Int.log 2 |q'| := by
      have hself : q < (2 : ℚ) ^ (Int.log 2 |q| + 1) := by
        rw [abs_of_pos hpos]
        exact Int.lt_zpow_succ_log_self (by norm_num) q
      refine hself.le.trans (zpow_le_zpow_right₀ (by norm_num) ?_)
      omega
    calc round p emin q ≤ 2 ^ Int.log 2 |q'| := round_le_pow hbelow (by omega)
      _ ≤ round p emin q' := pow_le_round hpow (by omega)

/-- The double nearest to a value in range. -/
def f64 (q : ℚ) : ℚ := round 53 (-1074) q

/-- The `float` nearest to a value in range. -/
def f32 (q : ℚ) : ℚ := round 24 (-149) q

/-- The magnitude past which a double is infinite. -/
def overflow : ℚ := 2 ^ 1024

theorem pow_lt_overflow {n : ℕ} (h : n < 1024) : (2 : ℚ) ^ n < overflow := by
  rw [overflow]
  exact pow_lt_pow_right₀ one_lt_two h

theorem one_lt_overflow : 1 < overflow := by
  simpa using pow_lt_overflow (show 0 < 1024 by norm_num)

end Binary

/-- A finite double: zero, or a magnitude between the smallest subnormal and
the overflow threshold. -/
@[ext] structure FinDouble where
  /-- The exact value. -/
  val : ℚ
  /-- The value is in the range of the format. -/
  range : val = 0 ∨ (2 : ℚ) ^ (-1074 : ℤ) ≤ |val| ∧ |val| < Binary.overflow
  deriving DecidableEq

/-- A `double`, signed zero apart. -/
inductive Double where
  | nan
  | inf (neg : Bool)
  | fin (d : FinDouble)
  deriving DecidableEq

/-- Finite doubles are ordered by their values. -/
instance : LinearOrder FinDouble :=
  LinearOrder.lift' FinDouble.val fun _ _ h => FinDouble.ext h

namespace Double

open Binary

instance : Inhabited Double := ⟨nan⟩

/-- The double nearest to a rational, an infinity past the largest one. -/
def ofRat (q : ℚ) : Double :=
  let r := round 53 (-1074) q
  if h : |r| < overflow then
    fin ⟨r, (round_eq_zero_or 53 (-1074) q).imp_right fun hlo => ⟨hlo, h⟩⟩
  else inf (decide (r < 0))

/-- A constant of the source that the format holds exactly. -/
def const (q : ℚ) (h : q = 0 ∨ (2 : ℚ) ^ (-1074 : ℤ) ≤ |q| ∧ |q| < overflow) : Double :=
  fin ⟨q, h⟩

theorem smallest_le_one : (2 : ℚ) ^ (-1074 : ℤ) ≤ 1 :=
  zpow_le_one_of_nonpos₀ (by norm_num) (by norm_num)

theorem smallest_le_half : (2 : ℚ) ^ (-1074 : ℤ) ≤ 1 / 2 := by
  rw [one_div, ← zpow_neg_one]
  exact zpow_le_zpow_right₀ (by norm_num) (by norm_num)

/-- The range of an `int`. -/
theorem abs_int32_le (z : Int32) : |z.toInt| ≤ 2 ^ 31 ∧ z.toInt ≤ 2 ^ 31 - 1 := by
  have hlo : -2 ^ 31 ≤ z.toInt := z.minValue_le_toInt
  have hhi : z.toInt ≤ 2 ^ 31 - 1 := z.toInt_le
  exact ⟨abs_le.mpr ⟨hlo, by omega⟩, hhi⟩

/-- An `int` is far below the overflow threshold. -/
theorem abs_int32_lt_overflow (z : Int32) : |(z.toInt : ℚ)| < overflow := by
  have h : ((|z.toInt| : ℤ) : ℚ) ≤ ((2 ^ 31 : ℤ) : ℚ) := by
    exact_mod_cast (abs_int32_le z).1
  rw [Int.cast_abs] at h
  have h31 : ((2 ^ 31 : ℤ) : ℚ) = 2 ^ 31 := by norm_num
  exact h.trans_lt (h31 ▸ pow_lt_overflow (show 31 < 1024 by norm_num))

/-- An `int` converted to `double`. -/
def ofInt (z : Int32) : Double :=
  const z.toInt (by
    rcases eq_or_ne z.toInt 0 with h | h
    · exact Or.inl (by simp [h])
    · refine Or.inr ⟨smallest_le_one.trans ?_, abs_int32_lt_overflow z⟩
      exact_mod_cast Int.one_le_abs h)

/-- `0.0`. -/
def zero : Double := const 0 (Or.inl rfl)

/-- `1.0`. -/
def one : Double :=
  const 1 (Or.inr ⟨by simpa using smallest_le_one, by simpa using one_lt_overflow⟩)

/-- `0.5`. -/
def half : Double := const (1 / 2) (Or.inr
  ⟨by rw [abs_of_pos (by norm_num)]; exact smallest_le_half,
    by rw [abs_of_pos (by norm_num)]; exact lt_trans (by norm_num) one_lt_overflow⟩)

/-- `-1.0`. -/
def negOne : Double :=
  const (-1) (Or.inr ⟨by simpa using smallest_le_one, by simpa using one_lt_overflow⟩)

/-- `a < b`; every comparison with not-a-number is false. -/
def lt : Double → Double → Bool
  | nan, _ => false
  | _, nan => false
  | inf true, b => b != inf true
  | inf false, _ => false
  | fin _, inf neg => !neg
  | fin a, fin b => decide (a.val < b.val)

/-- `a == b`. -/
def eq : Double → Double → Bool
  | nan, _ => false
  | a, b => a == b

/-- `a >= b`. -/
def ge (a b : Double) : Bool := lt b a || eq a b

/-- What is not below a number is not below what that number is not below. -/
theorem not_lt_of_ge {a b c : Double} (hab : a.ge b = true) (hbc : b.lt c = false) :
    a.lt c = false := by
  cases a with
  | nan => rfl
  | inf m =>
    cases m with
    | false => cases c <;> rfl
    | true =>
      cases b with
      | nan => cases hab
      | inf n => cases n <;> cases c <;> simp_all [ge, lt, eq]
      | fin b => cases hab
  | fin a =>
    cases b with
    | nan => cases hab
    | inf n =>
      cases n with
      | false => cases hab
      | true => cases c <;> simp_all [lt]
    | fin b =>
      cases c with
      | nan => rfl
      | inf n => simpa only [lt] using hbc
      | fin c =>
        simp only [ge, lt, eq, Bool.or_eq_true, decide_eq_true_eq, beq_iff_eq, fin.injEq] at hab
        simp only [lt, decide_eq_false_iff_not, not_lt] at hbc ⊢
        rcases hab with hless | heq
        · exact hbc.trans hless.le
        · rw [heq]
          exact hbc

/-- `a - b`. -/
def sub : Double → Double → Double
  | nan, _ => nan
  | _, nan => nan
  | inf m, inf n => if m = n then nan else inf m
  | inf m, fin _ => inf m
  | fin _, inf n => inf !n
  | fin a, fin b => ofRat (a.val - b.val)

/-- `a + b`. -/
def add : Double → Double → Double
  | nan, _ => nan
  | _, nan => nan
  | inf m, inf n => if m = n then inf m else nan
  | inf m, fin _ => inf m
  | fin _, inf n => inf n
  | fin a, fin b => ofRat (a.val + b.val)

/-- `(int)d`, saturated as cJSON saturates `valueint`. -/
def toInt : Double → ℤ
  | nan => 0
  | inf neg => if neg then -2 ^ 31 else 2 ^ 31 - 1
  | fin d =>
    if 2 ^ 31 - 1 ≤ d.val then 2 ^ 31 - 1
    else if d.val ≤ -2 ^ 31 then -2 ^ 31
    else Int.tdiv d.val.num d.val.den

/-- `(long)d`: what the machine gives out of range is the least value. -/
def toLong : Double → ℤ
  | fin d => if |d.val| < 2 ^ 63 then Int.tdiv d.val.num d.val.den else -2 ^ 63
  | _ => -2 ^ 63

/-- The double nearest to an integer the format holds is that integer. -/
theorem ofRat_intCast (z : Int32) : ofRat (z.toInt : ℚ) = ofInt z := by
  have hb : |z.toInt| < 2 ^ 53 := (abs_int32_le z).1.trans_lt (by norm_num)
  have hr : round 53 (-1074) (z.toInt : ℚ) = z.toInt := round_intCast (by norm_num) hb
  simp only [ofRat, hr, abs_int32_lt_overflow z, dite_true, ofInt, const]

/-- Reading an `int` back from its double. -/
theorem toInt_ofInt (z : Int32) : toInt (ofInt z) = z.toInt := by
  have hlo : -2 ^ 31 ≤ z.toInt := z.minValue_le_toInt
  have hhi : z.toInt ≤ 2 ^ 31 - 1 := z.toInt_le
  simp only [ofInt, const, toInt]
  split
  · rename_i h
    have h' : (2 ^ 31 - 1 : ℤ) ≤ z.toInt := by exact_mod_cast h
    omega
  · split
    · rename_i h
      have h' : z.toInt ≤ (-2 ^ 31 : ℤ) := by exact_mod_cast h
      omega
    · simp

/-- A smaller value that is not negative stays below a bound when it is rounded. -/
theorem ofRat_lt_of_le {q q' : ℚ} (h0 : 0 ≤ q) (h : q ≤ q') {c : FinDouble}
    (hlt : (ofRat q').lt (fin c) = true) : (ofRat q).lt (fin c) = true := by
  have hnonneg : 0 ≤ round 53 (-1074) q := round_nonneg h0
  have hmono : round 53 (-1074) q ≤ round 53 (-1074) q' := round_mono (by norm_num) h0 h
  unfold ofRat at hlt ⊢
  dsimp only at hlt ⊢
  split at hlt
  · next hfin =>
    have hle : |round 53 (-1074) q| < overflow := by
      rw [abs_of_nonneg hnonneg]
      exact (hmono.trans (le_abs_self _)).trans_lt hfin
    rw [dif_pos hle]
    simp only [lt, decide_eq_true_eq] at hlt ⊢
    exact hmono.trans_lt hlt
  · next hinf =>
    have hpos : decide (round 53 (-1074) q' < 0) = false := by
      simpa using hnonneg.trans hmono
    rw [hpos] at hlt
    simp [lt] at hlt

end Double

end MoonFlare
