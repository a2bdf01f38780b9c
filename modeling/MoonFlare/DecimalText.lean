import MoonFlare.Binary

/-!
# Decimal number text

The decimal forms `printf` writes for a double (`%d`, `%1.15g`, `%1.17g`) and
`strtod` reads. A literal is kept as its digits, so reading back what was
written is a statement about lists of digits; only the last step rounds.
-/

namespace MoonFlare

/-- An unsigned decimal literal. -/
structure Decimal where
  /-- Digits in front of the point. -/
  int : List (Fin 10)
  /-- Digits after the point; the point is written only when there are any. -/
  frac : List (Fin 10)
  /-- Sign (true for minus) and digits of the exponent, when there is one. -/
  exp : Option (Bool × List (Fin 10))
  deriving DecidableEq

namespace Decimal

/-- The byte of a digit. -/
def digitByte (d : Fin 10) : UInt8 := UInt8.ofNat (48 + d)

/-- The digit of a byte. -/
def digitOf (b : UInt8) : Option (Fin 10) :=
  if h : 48 ≤ b.toNat ∧ b.toNat ≤ 57 then some ⟨b.toNat - 48, by omega⟩ else none

/-- The longest run of digits at the front, and the rest. -/
def spanDigits : Bytes → List (Fin 10) × Bytes
  | [] => ([], [])
  | b :: rest =>
    match digitOf b with
    | some d => let (ds, r) := spanDigits rest; (d :: ds, r)
    | none => ([], b :: rest)

/-- The number a digit sequence denotes. -/
def ofDigits (ds : List (Fin 10)) : ℕ := ds.foldl (fun n (d : Fin 10) => 10 * n + d.val) 0

/-- The last `k` digits of `n`, leading zeros included. -/
def digits : ℕ → ℕ → List (Fin 10)
  | 0, _ => []
  | k + 1, n => ⟨n / 10 ^ k % 10, Nat.mod_lt _ (by norm_num)⟩ :: digits k n

/-- How many digits `%d` writes. -/
def width (n : ℕ) : ℕ := Nat.log 10 n + 1

/-- The exponent as an integer. -/
def exponent (d : Decimal) : ℤ :=
  match d.exp with
  | none => 0
  | some (neg, ds) => if neg then -(ofDigits ds : ℤ) else ofDigits ds

/-- The exact value. -/
def value (d : Decimal) : ℚ :=
  ofDigits (d.int ++ d.frac) * 10 ^ (d.exponent - d.frac.length)

/-- The text of the fraction. -/
def fracText (ds : List (Fin 10)) : Bytes :=
  if ds = [] then [] else 46 :: ds.map digitByte

/-- The text of the exponent. -/
def expText : Option (Bool × List (Fin 10)) → Bytes
  | none => []
  | some (neg, ds) => 101 :: (if neg then 45 else 43) :: ds.map digitByte

/-- The literal as written. -/
def text (d : Decimal) : Bytes := d.int.map digitByte ++ (fracText d.frac ++ expText d.exp)

/-- The fraction at the front of `b`, and the rest. -/
def scanFrac : Bytes → List (Fin 10) × Bytes
  | 46 :: rest => spanDigits rest
  | b => ([], b)

/-- A sign at the front: true for minus. -/
def scanSign : Bytes → Bool × Bytes
  | 45 :: rest => (true, rest)
  | 43 :: rest => (false, rest)
  | b => (false, b)

/-- The exponent at the front of `b`, and the rest. An `e` without digits is
left unread. -/
def scanExp : Bytes → Option (Bool × List (Fin 10)) × Bytes
  | c :: rest =>
    if c = 101 ∨ c = 69 then
      let (neg, r) := scanSign rest
      match spanDigits r with
      | ([], _) => (none, c :: rest)
      | (d :: ds, r') => (some (neg, d :: ds), r')
    else (none, c :: rest)
  | [] => (none, [])

/-- The decimal literal at the front of `b`, and the rest. -/
def scan (b : Bytes) : Option (Decimal × Bytes) :=
  let (i, r) := spanDigits b
  let (f, r') := scanFrac r
  if i = [] ∧ f = [] then none
  else
    let (e, r'') := scanExp r'
    some (⟨i, f, e⟩, r'')

/-- The form a printed literal has: digits in front of the point, and digits
in the exponent. -/
def WellFormed (d : Decimal) : Prop := d.int ≠ [] ∧ ∀ neg ds, d.exp = some (neg, ds) → ds ≠ []

/-- A byte that can stand in a number. -/
def isNumberByte (b : UInt8) : Bool :=
  (48 ≤ b && b ≤ 57) || b == 43 || b == 45 || b == 101 || b == 69 || b == 46

/-- The text after a number does not continue it. -/
def Ends (rest : Bytes) : Prop := ∀ b ∈ rest.head?, isNumberByte b = false

theorem digitOf_digitByte (d : Fin 10) : digitOf (digitByte d) = some d := by
  revert d; decide

theorem isNumberByte_digitByte (d : Fin 10) : isNumberByte (digitByte d) = true := by
  revert d; decide

theorem digitByte_ne (d : Fin 10) {b : UInt8} (h : digitOf b = none) : digitByte d ≠ b := by
  rintro rfl
  simp [digitOf_digitByte] at h

theorem digitOf_of_not_number {b : UInt8} (h : isNumberByte b = false) : digitOf b = none := by
  have h' : ¬(48 ≤ b ∧ b ≤ 57) := by
    rintro ⟨hlo, hhi⟩
    simp [isNumberByte, hlo, hhi] at h
  exact dif_neg h'

/-- Reading digits stops where they end. -/
theorem spanDigits_map {rest : Bytes} (h : ∀ b ∈ rest.head?, digitOf b = none)
    (ds : List (Fin 10)) : spanDigits (ds.map digitByte ++ rest) = (ds, rest) := by
  induction ds with
  | nil =>
    cases rest with
    | nil => rfl
    | cons b tail => simp [spanDigits, h b (by simp)]
  | cons d ds ih => simp [spanDigits, digitOf_digitByte, ih]

theorem scanExp_expText {e : Option (Bool × List (Fin 10))} {rest : Bytes} (hend : Ends rest)
    (he : ∀ neg ds, e = some (neg, ds) → ds ≠ []) :
    scanExp (expText e ++ rest) = (e, rest) := by
  cases e with
  | none =>
    cases rest with
    | nil => rfl
    | cons b tail =>
      have hb := hend b (by simp)
      have hne : ¬(b = 101 ∨ b = 69) := by
        rintro (rfl | rfl) <;> simp [isNumberByte] at hb
      simp [expText, scanExp, hne]
  | some pair =>
    obtain ⟨neg, ds⟩ := pair
    have hspan := spanDigits_map (fun b hb => digitOf_of_not_number (hend b hb)) ds
    cases ds with
    | nil => exact absurd rfl (he neg [] rfl)
    | cons d ds =>
      have hsign : scanSign ((if neg then 45 else 43) :: ((d :: ds).map digitByte ++ rest)) =
          (neg, (d :: ds).map digitByte ++ rest) := by
        cases neg <;> rfl
      simp only [expText, List.cons_append, scanExp, true_or, if_true, hsign, hspan]

theorem scanFrac_fracText {ds : List (Fin 10)} {rest : Bytes}
    (hpoint : rest.head? ≠ some 46) (hdigit : ∀ b ∈ rest.head?, digitOf b = none) :
    scanFrac (fracText ds ++ rest) = (ds, rest) := by
  by_cases h : ds = []
  · subst h
    cases rest with
    | nil => rfl
    | cons b tail =>
      have hb : b ≠ 46 := by simpa using hpoint
      simp only [fracText, if_true, List.nil_append]
      unfold scanFrac
      split
      · rename_i heq
        exact absurd (List.cons.inj heq).1 hb
      · rfl
  · simp only [fracText, h, if_false, List.cons_append, scanFrac]
    exact spanDigits_map hdigit ds

theorem head_expText_append {e : Option (Bool × List (Fin 10))} {rest : Bytes} (hend : Ends rest) :
    (expText e ++ rest).head? ≠ some 46 ∧
      ∀ b ∈ (expText e ++ rest).head?, digitOf b = none := by
  cases e with
  | none =>
    constructor
    · intro h
      simpa [isNumberByte] using hend 46 (by simpa [expText] using h)
    · exact fun b hb => digitOf_of_not_number (hend b (by simpa [expText] using hb))
  | some pair =>
    simp only [expText, List.cons_append, List.head?_cons]
    exact ⟨by decide, fun b hb => by cases hb; decide⟩

/-- Reading a printed literal gives its digits back. -/
theorem scan_text {d : Decimal} (hd : d.WellFormed) {rest : Bytes} (hend : Ends rest) :
    scan (d.text ++ rest) = some (d, rest) := by
  obtain ⟨hpoint, hdigit⟩ := head_expText_append (e := d.exp) hend
  have hhead : ∀ b ∈ (fracText d.frac ++ (expText d.exp ++ rest)).head?, digitOf b = none := by
    by_cases h : d.frac = []
    · simpa [fracText, h] using hdigit
    · simp only [fracText, h, if_false, List.cons_append, List.head?_cons]
      exact fun b hb => by cases hb; decide
  have hint := spanDigits_map hhead d.int
  have hfrac := @scanFrac_fracText d.frac _ hpoint hdigit
  have hexp := scanExp_expText (e := d.exp) hend hd.2
  simp only [scan, text, List.append_assoc, hint, hfrac, hd.1, false_and, if_false, hexp]

theorem isNumberByte_of_mem_text {d : Decimal} {b : UInt8} (h : b ∈ d.text) :
    isNumberByte b = true := by
  have hmap : ∀ ds : List (Fin 10), b ∈ ds.map digitByte → isNumberByte b = true := by
    intro ds hb
    obtain ⟨c, -, rfl⟩ := List.mem_map.mp hb
    exact isNumberByte_digitByte c
  simp only [text, List.mem_append] at h
  rcases h with h | h | h
  · exact hmap _ h
  · simp only [fracText] at h
    split at h
    · simp at h
    · rcases List.mem_cons.mp h with rfl | h
      · rfl
      · exact hmap _ h
  · cases he : d.exp with
    | none => simp [expText, he] at h
    | some pair =>
      simp only [expText, he, List.mem_cons] at h
      rcases h with rfl | rfl | h
      · rfl
      · split <;> rfl
      · exact hmap _ h

theorem length_digits (k n : ℕ) : (digits k n).length = k := by
  induction k with
  | zero => rfl
  | succ k ih => simp [digits, ih]

theorem ofDigits_foldl (ds : List (Fin 10)) (m : ℕ) :
    ds.foldl (fun n (d : Fin 10) => 10 * n + d.val) m = m * 10 ^ ds.length + ofDigits ds := by
  induction ds generalizing m with
  | nil => simp [ofDigits]
  | cons d ds ih =>
    simp only [List.foldl_cons, List.length_cons, ofDigits]
    rw [ih, ih (10 * 0 + d.val)]
    ring

theorem ofDigits_cons (d : Fin 10) (ds : List (Fin 10)) :
    ofDigits (d :: ds) = d * 10 ^ ds.length + ofDigits ds := by
  rw [ofDigits, List.foldl_cons, ofDigits_foldl]
  simp

/-- Writing `n` with enough digits and reading them gives `n`. -/
theorem ofDigits_digits {k n : ℕ} (h : n < 10 ^ k) : ofDigits (digits k n) = n := by
  have hmod : ∀ k, ofDigits (digits k n) = n % 10 ^ k := by
    intro k
    induction k with
    | zero => simp [digits, ofDigits, Nat.mod_one]
    | succ k ih =>
      rw [digits, ofDigits_cons, length_digits, ih]
      simp only
      rw [pow_succ, Nat.mod_mul, Nat.mul_comm (10 ^ k), Nat.add_comm]
  rw [hmod, Nat.mod_eq_of_lt h]

/-- The integer literal `%d` writes for a magnitude. -/
def ofNat (n : ℕ) : Decimal := ⟨digits (width n) n, [], none⟩

theorem wellFormed_ofNat (n : ℕ) : (ofNat n).WellFormed :=
  ⟨List.ne_nil_of_length_pos (by simp [ofNat, length_digits, width]), by simp [ofNat]⟩

theorem value_ofNat (n : ℕ) : (ofNat n).value = n := by
  have h : n < 10 ^ width n := Nat.lt_pow_succ_log_self (by norm_num) n
  simp [value, ofNat, exponent, ofDigits_digits h]

/-- The exponent digits `%g` writes: two at least. -/
def expDigits (x : ℤ) : List (Fin 10) := digits (max 2 (width x.natAbs)) x.natAbs

/-- Trailing zeros of a fraction are not written by `%g`. -/
def strip (ds : List (Fin 10)) : List (Fin 10) := ds.rdropWhile (· = 0)

/-- The `p` significant digits of a positive magnitude and its exponent. -/
def significant (p : ℕ) (a : ℚ) : ℕ × ℤ :=
  let x := Int.log 10 a
  let n := (Binary.roundHalfEven (a * 10 ^ ((p : ℤ) - 1 - x))).toNat
  if n = 10 ^ p then (10 ^ (p - 1), x + 1) else (n, x)

/-- The literal `%1.<p>g` writes for a positive magnitude. -/
def ofG (p : ℕ) (a : ℚ) : Decimal :=
  let (n, x) := significant p a
  let ds := digits p n
  if x < -4 ∨ (p : ℤ) ≤ x then
    ⟨ds.take 1, strip (ds.drop 1), some (decide (x < 0), expDigits x)⟩
  else if 0 ≤ x then
    ⟨ds.take (x.toNat + 1), strip (ds.drop (x.toNat + 1)), none⟩
  else
    ⟨[0], strip (List.replicate ((-x).toNat - 1) 0 ++ ds), none⟩

theorem wellFormed_ofG {p : ℕ} (hp : 0 < p) (a : ℚ) : (ofG p a).WellFormed := by
  have hlen := length_digits p (significant p a).1
  have hne : ∀ k, 0 < k → (digits p (significant p a).1).take k ≠ [] := fun k hk =>
    List.ne_nil_of_length_pos (by rw [List.length_take, hlen]; omega)
  unfold ofG
  dsimp only
  split
  · refine ⟨hne 1 one_pos, fun neg ds h => ?_⟩
    obtain ⟨-, rfl⟩ := Prod.mk.inj (Option.some.inj h)
    exact List.ne_nil_of_length_pos (by simp only [expDigits, length_digits]; omega)
  · split
    · exact ⟨hne _ (Nat.succ_pos _), by simp⟩
    · exact ⟨by simp, by simp⟩

/-- A sign in front of a literal. -/
def signedText (neg : Bool) (d : Decimal) : Bytes := if neg then 45 :: d.text else d.text

/-- The double a signed literal reads as. -/
def signed (neg : Bool) (d : Decimal) : Double :=
  Double.ofRat (if neg then -d.value else d.value)

/-- The decimal form of `strtod`: a sign, a literal, and what is left. -/
def strtodDecimal (b : Bytes) : Option (Double × Bytes) :=
  let (neg, r) := scanSign b
  (scan r).map fun (d, rest) => (signed neg d, rest)

/-- `strtod` reads a printed literal up to its end. -/
theorem strtodDecimal_signedText {d : Decimal} (hd : d.WellFormed) (neg : Bool) {rest : Bytes}
    (hend : Ends rest) :
    strtodDecimal (signedText neg d ++ rest) = some (signed neg d, rest) := by
  have hscan := scan_text hd hend
  cases neg with
  | true => simp [strtodDecimal, signedText, scanSign, hscan]
  | false =>
    obtain ⟨c, cs, hc⟩ := List.exists_cons_of_ne_nil hd.1
    have hsign : scanSign (d.text ++ rest) = (false, d.text ++ rest) := by
      have hne := digitByte_ne c (b := 45) rfl
      have hne' := digitByte_ne c (b := 43) rfl
      rw [text, hc, List.map_cons, List.cons_append, List.cons_append, scanSign]
      · exact fun _ h => hne (List.cons.inj h).1
      · exact fun _ h => hne' (List.cons.inj h).1
    simp [strtodDecimal, signedText, hsign, hscan]

theorem isNumberByte_of_mem_signedText {neg : Bool} {d : Decimal} {b : UInt8}
    (h : b ∈ signedText neg d) : isNumberByte b = true := by
  cases neg with
  | false => exact isNumberByte_of_mem_text h
  | true =>
    rcases List.mem_cons.mp h with rfl | h
    · rfl
    · exact isNumberByte_of_mem_text h

theorem length_text (d : Decimal) :
    d.text.length ≤ d.int.length + d.frac.length + 1 +
      (match d.exp with | none => 0 | some (_, ds) => ds.length + 2) := by
  have hfrac : (fracText d.frac).length ≤ d.frac.length + 1 := by
    unfold fracText
    split <;> simp
  have hexp : (expText d.exp).length =
      (match d.exp with | none => 0 | some (_, ds) => ds.length + 2) := by
    cases d.exp with
    | none => rfl
    | some pair => simp [expText]
  simp only [text, List.length_append, List.length_map, hexp]
  omega

theorem length_strip_le (ds : List (Fin 10)) : (strip ds).length ≤ ds.length :=
  (List.rdropWhile_prefix _ _).length_le

theorem ten_pow_le_smallest : (10 : ℚ) ^ (-324 : ℤ) ≤ 2 ^ (-1074 : ℤ) := by
  have h : (2 : ℕ) ^ 1074 ≤ 10 ^ 324 := by decide +kernel
  have hq : ((2 : ℚ) ^ 1074) ≤ 10 ^ 324 := by exact_mod_cast h
  rw [show (-324 : ℤ) = -((324 : ℕ) : ℤ) by rfl, show (-1074 : ℤ) = -((1074 : ℕ) : ℤ) by rfl,
    zpow_neg, zpow_neg, zpow_natCast, zpow_natCast]
  exact inv_anti₀ (by positivity) hq

theorem overflow_le_ten_pow : Binary.overflow ≤ (10 : ℚ) ^ (309 : ℤ) := by
  have h : (2 : ℕ) ^ 1024 ≤ 10 ^ 309 := by decide +kernel
  rw [Binary.overflow, show (309 : ℤ) = ((309 : ℕ) : ℤ) by rfl, zpow_natCast]
  exact_mod_cast h

/-- The decimal exponent of a double. -/
theorem significant_exponent {p : ℕ} {a : ℚ} (hlo : (2 : ℚ) ^ (-1074 : ℤ) ≤ a)
    (hhi : a < Binary.overflow) :
    -324 ≤ (significant p a).2 ∧ (significant p a).2 ≤ 309 := by
  have hpos : 0 < a := lt_of_lt_of_le (by positivity) hlo
  have hge : -324 ≤ Int.log 10 a :=
    (Int.zpow_le_iff_le_log (by norm_num) hpos).mp
      (by exact_mod_cast ten_pow_le_smallest.trans hlo)
  have hlt : Int.log 10 a < 309 :=
    (Int.lt_zpow_iff_log_lt (by norm_num) hpos).mp
      (by exact_mod_cast hhi.trans_le overflow_le_ten_pow)
  simp only [significant]
  split <;> constructor <;> dsimp only <;> omega

theorem width_le {n k : ℕ} (hk : 0 < k) (h : n < 10 ^ k) : width n ≤ k := by
  have hlog : Nat.log 10 n < k := Nat.log_lt_of_lt_pow' (by omega) h
  simp only [width]
  omega

/-- `%1.15g` and `%1.17g` stay inside cJSON's 26 byte buffer. -/
theorem length_ofG {p : ℕ} {a : ℚ} (hp : 0 < p) (hlo : (2 : ℚ) ^ (-1074 : ℤ) ≤ a)
    (hhi : a < Binary.overflow) : (ofG p a).text.length ≤ p + 7 := by
  obtain ⟨hge, hle⟩ := significant_exponent (p := p) hlo hhi
  have hexp : (expDigits (significant p a).2).length ≤ 3 := by
    have hw : width (significant p a).2.natAbs ≤ 3 := width_le (by norm_num) (by omega)
    simp only [expDigits, length_digits]
    omega
  have hlen := length_digits p (significant p a).1
  refine (length_text _).trans ?_
  unfold ofG
  dsimp only
  split
  · have hs := length_strip_le (List.drop 1 (digits p (significant p a).1))
    simp only [List.length_take, List.length_drop, hlen] at hs ⊢
    omega
  · rename_i hnot
    split
    · have hs := length_strip_le
        (List.drop ((significant p a).2.toNat + 1) (digits p (significant p a).1))
      simp only [List.length_take, List.length_drop, hlen] at hs ⊢
      omega
    · have hs := length_strip_le (List.replicate ((-(significant p a).2).toNat - 1) 0 ++
        digits p (significant p a).1)
      simp only [List.length_append, List.length_replicate, hlen, List.length_cons,
        List.length_nil] at hs ⊢
      omega

end Decimal

namespace Double

open Decimal

/-- cJSON's `compare_double` on a double just printed and its original. -/
def compareDouble : Double → FinDouble → Bool
  | nan, _ => false
  | inf _, _ => true
  | fin t, d =>
    decide (Binary.f64 |t.val - d.val| ≤ Binary.f64 (max |t.val| |d.val| * 2 ^ (-52 : ℤ)))

/-- The sign and literal `print_number` writes for a finite double. -/
def literal (d : FinDouble) : Bool × Decimal :=
  if d.val = toInt (fin d) then (decide (d.val < 0), ofNat (toInt (fin d)).natAbs)
  else
    let neg := decide (d.val < 0)
    let t := ofG 15 |d.val|
    if compareDouble (signed neg t) d then (neg, t) else (neg, ofG 17 |d.val|)

/-- `print_number`. -/
def printNumber : Double → Bytes
  | fin d => signedText (literal d).1 (literal d).2
  | _ => ascii "null"

/-- What `print_number`'s text reads as; `none` for the ones printed as null. -/
def reprint : Double → Option Double
  | fin d => some (signed (literal d).1 (literal d).2)
  | _ => none

/-- `parse_number`: at most 63 number bytes go to `strtod`. -/
def parseNumber (b : Bytes) : Option (Double × Bytes) :=
  let token := (b.takeWhile isNumberByte).take 63
  (strtodDecimal token).map fun (v, rest) => (v, b.drop (token.length - rest.length))

theorem wellFormed_literal (d : FinDouble) : (literal d).2.WellFormed := by
  unfold literal
  split
  · exact wellFormed_ofNat _
  · dsimp only
    split <;> exact wellFormed_ofG (by norm_num) _

/-- A double printed with `%d` is in the range of an `int`. -/
theorem natAbs_toInt_le {d : FinDouble} (h : d.val = toInt (fin d)) :
    (toInt (fin d)).natAbs ≤ 2 ^ 31 := by
  simp only [toInt] at h ⊢
  split
  · norm_num
  · split
    · norm_num
    · rename_i hlt hgt
      rw [if_neg hlt, if_neg hgt] at h
      rw [h] at hlt hgt
      have hhi : d.val.num.tdiv d.val.den < (2 ^ 31 - 1 : ℤ) := by exact_mod_cast not_le.mp hlt
      have hlo : (-2 ^ 31 : ℤ) < d.val.num.tdiv d.val.den := by exact_mod_cast not_le.mp hgt
      omega

/-- The literal fits cJSON's number buffer, whose overflow branch is never
taken. -/
theorem length_literal (d : FinDouble) : (signedText (literal d).1 (literal d).2).length ≤ 25 := by
  suffices h : (literal d).2.text.length ≤ 24 by
    unfold signedText
    split
    · rw [List.length_cons]
      omega
    · omega
  unfold literal
  split
  · rename_i heq
    have hw : width (toInt (fin d)).natAbs ≤ 10 :=
      width_le (by norm_num) ((natAbs_toInt_le heq).trans_lt (by norm_num))
    have hlen := length_text (ofNat (toInt (fin d)).natAbs)
    simp only [ofNat, length_digits, List.length_nil] at hlen ⊢
    omega
  · rename_i hne
    have hval : d.val ≠ 0 := by
      intro h0
      apply hne
      rw [h0, toInt, h0, if_neg (by norm_num), if_neg (by norm_num)]
      simp
    rcases d.range with h0 | ⟨hlo, hhi⟩
    · exact absurd h0 hval
    · dsimp only
      split
      · exact (length_ofG (by norm_num) hlo hhi).trans (by norm_num)
      · exact length_ofG (by norm_num) hlo hhi

/-- `parse_number` reads a printed number up to its end. -/
theorem parseNumber_printNumber (d : FinDouble) {rest : Bytes} (hend : Ends rest) :
    parseNumber (printNumber (fin d) ++ rest) =
      some (signed (literal d).1 (literal d).2, rest) := by
  have hall : ∀ b ∈ signedText (literal d).1 (literal d).2, isNumberByte b = true :=
    fun b hb => isNumberByte_of_mem_signedText hb
  have htake : (printNumber (fin d) ++ rest).takeWhile isNumberByte = printNumber (fin d) := by
    rw [printNumber, List.takeWhile_append_of_pos hall]
    cases rest with
    | nil => simp
    | cons b tail => simp [hend b (by simp)]
  have hlen := length_literal d
  have htok : (printNumber (fin d)).take 63 = printNumber (fin d) :=
    List.take_of_length_le (by rw [printNumber]; omega)
  have hread := @strtodDecimal_signedText _ (wellFormed_literal d) (literal d).1 []
    (by simp [Ends])
  rw [List.append_nil] at hread
  simp only [parseNumber, htake, htok]
  simp [printNumber, hread]

/-- An `int` survives being printed and read. -/
theorem reprint_ofInt (z : Int32) : reprint (ofInt z) = some (ofInt z) := by
  have hval : ((z.toInt : ℤ) : ℚ) = ((toInt (ofInt z) : ℤ) : ℚ) := by rw [toInt_ofInt]
  have hlit : ∀ d : FinDouble, d.val = z.toInt → toInt (fin d) = z.toInt →
      signed (literal d).1 (literal d).2 = ofRat z.toInt := by
    intro d hd hi
    rw [literal, if_pos (by rw [hd, hi]), hi, signed, value_ofNat, hd]
    congr 1
    by_cases hneg : (z.toInt : ℚ) < 0
    · have hz : z.toInt < 0 := by exact_mod_cast hneg
      have habs : ((z.toInt.natAbs : ℤ) : ℚ) = ((-z.toInt : ℤ) : ℚ) := by
        rw [Int.ofNat_natAbs_of_nonpos hz.le]
      simp only [hneg, decide_true, if_true]
      rw [Int.cast_natCast] at habs
      rw [habs]
      push_cast
      ring
    · have hz : 0 ≤ z.toInt := by
        have : ¬z.toInt < 0 := fun h => hneg (by exact_mod_cast h)
        omega
      have habs : ((z.toInt.natAbs : ℤ) : ℚ) = (z.toInt : ℚ) := by
        rw [Int.natAbs_of_nonneg hz]
      simp only [hneg, decide_false, Bool.false_eq_true, if_false]
      rw [Int.cast_natCast] at habs
      exact habs
  rw [← ofRat_intCast]
  have heq := ofRat_intCast z
  rw [heq, ofInt, const, reprint, hlit _ rfl (by simpa [ofInt, const] using toInt_ofInt z), heq]
  rfl

/-- White space to `strtod`. -/
def isSpace (b : UInt8) : Bool := b == 32 || (9 ≤ b && b ≤ 13)

/-- A word at the front, in any case. -/
def startsWord (b : Bytes) (w : String) : Bool :=
  (ascii w).isPrefixOf (b.map CString.tolower)

/-- The value of a hexadecimal digit. -/
def hexOf (b : UInt8) : Option ℕ :=
  if 48 ≤ b ∧ b ≤ 57 then some (b.toNat - 48)
  else if 97 ≤ b ∧ b ≤ 102 then some (b.toNat - 87)
  else if 65 ≤ b ∧ b ≤ 70 then some (b.toNat - 55)
  else none

/-- The longest run of hexadecimal digits at the front, and the rest. -/
def spanHex : Bytes → List ℕ × Bytes
  | [] => ([], [])
  | b :: rest =>
    match hexOf b with
    | some d => let (ds, r) := spanHex rest; (d :: ds, r)
    | none => ([], b :: rest)

/-- The hexadecimal form of `strtod`, after its `0x`. -/
def hexValue (b : Bytes) : Option ℚ :=
  let (i, r) := spanHex b
  let (f, r') := match r with
    | 46 :: r' => spanHex r'
    | r' => ([], r')
  if i = [] ∧ f = [] then none
  else
    let m : ℕ := (i ++ f).foldl (fun n d => 16 * n + d) 0
    let e : ℤ := match r' with
      | c :: rest =>
        if c = 112 ∨ c = 80 then
          let (neg, digits) := scanSign rest
          let x := ofDigits (spanDigits digits).1
          if neg then -(x : ℤ) else x
        else 0
      | [] => 0
    some (m * 2 ^ (e - 4 * f.length))

/-- `atof`. -/
def atof (s : CString) : Double :=
  let (neg, r) := scanSign (s.bytes.dropWhile isSpace)
  if startsWord r "inf" then inf neg
  else if startsWord r "nan" then nan
  else
    let hex := if startsWord r "0x" then hexValue (r.drop 2) else none
    match hex with
    | some v => ofRat (if neg then -v else v)
    | none =>
      match scan r with
      | some (d, _) => signed neg d
      | none => zero

end Double

namespace Decimal

/-- `strtoull` in base ten: the value and whether it was out of range. There
is none without digits. A minus sign wraps the value around. -/
def strtoull (s : CString) : Option (ℕ × Bool) :=
  let (neg, r) := scanSign (s.bytes.dropWhile Double.isSpace)
  match (spanDigits r).1 with
  | [] => none
  | d :: ds =>
    let n := ofDigits (d :: ds)
    if 2 ^ 64 ≤ n then some (2 ^ 64 - 1, true)
    else some (if neg then (2 ^ 64 - n) % 2 ^ 64 else n, false)

end Decimal

/-- A number as `%.<k>f` prints it: its sign and its digits, the last `k` of
them behind the point. -/
structure Fixed where
  neg : Bool
  scaled : ℕ
  deriving DecidableEq

namespace Fixed

/-- `%.<k>f` of a value that is not a negative zero. -/
def ofRat (k : ℕ) (x : ℚ) : Fixed :=
  ⟨decide (x < 0), (Binary.roundHalfEven (|x| * 10 ^ k)).toNat⟩

/-- The text printed. -/
def text (k : ℕ) (f : Fixed) : Bytes :=
  (if f.neg then [45] else []) ++ (Decimal.ofNat (f.scaled / 10 ^ k)).text ++
    46 :: (Decimal.digits k (f.scaled % 10 ^ k)).map Decimal.digitByte

end Fixed

/-- An integer as `%d` writes it. -/
def intText (z : ℤ) : CString :=
  ⟨Decimal.signedText (decide (z < 0)) (Decimal.ofNat z.natAbs), fun h =>
    absurd (Decimal.isNumberByte_of_mem_signedText h) (by decide)⟩

end MoonFlare
