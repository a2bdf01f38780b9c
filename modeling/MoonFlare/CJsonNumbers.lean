import MoonFlare.CJsonDepth
import MoonFlare.NearestDecimals

/-!
# The numbers of a parsed text

What holds of every number that reading a decimal gives holds of every number of what a
text parses to, and a text has no form for not-a-number. An item whose numbers the format
holds is not changed by being printed and parsed a second time, unless a number of it was
printed with digits that are past the largest double.
-/

namespace MoonFlare

namespace Double

open Binary Decimal

/-- A double that the format holds. -/
def Held : Double → Prop
  | fin d => ofRat d.val = fin d
  | _ => True

/-- Neither infinite nor not-a-number. -/
def IsFinite : Double → Prop
  | fin _ => True
  | _ => False

/-! ## Printed doubles -/

variable {c d : FinDouble} {q : ℚ} {t : Decimal}

theorem ofRat_eq_fin_iff : ofRat q = fin c ↔ f64 q = c.val := by
  unfold ofRat
  dsimp only
  constructor
  · intro h
    split at h
    · cases h
      rfl
    · cases h
  · intro h
    have hfits : |f64 q| < overflow := by
      rw [h]
      rcases c.range with hzero | ⟨-, hlt⟩
      · rw [hzero, abs_zero]
        exact one_pos.trans one_lt_overflow
      · exact hlt
    refine (dif_pos hfits).trans ?_
    exact congrArg fin (FinDouble.ext h)

theorem signed_eq_fin_iff {neg : Bool} :
    signed neg t = fin c ↔ (if neg then -f64 t.value else f64 t.value) = c.val := by
  rw [signed, ofRat_eq_fin_iff]
  cases neg with
  | false => rfl
  | true => exact Eq.congr_left (round_neg _ _ _)

/-- Digits read as a magnitude are read as the double of that magnitude. -/
theorem signed_of_abs (h : f64 t.value = |c.val|) : signed (decide (c.val < 0)) t = fin c := by
  rw [signed_eq_fin_iff, h]
  by_cases hneg : c.val < 0
  · simp only [hneg, decide_true, if_true]
    rw [abs_of_neg hneg, neg_neg]
  · simp only [hneg, decide_false, Bool.false_eq_true, if_false]
    exact abs_of_nonneg (not_lt.mp hneg)

/-- What digits are read as has the sign they were read with, or is zero. -/
theorem abs_of_signed (ht : 0 ≤ t.value) (h : signed (decide (d.val < 0)) t = fin c) :
    f64 t.value = |c.val| := by
  have hread : 0 ≤ f64 t.value := round_nonneg ht
  rw [signed_eq_fin_iff] at h
  by_cases hneg : d.val < 0
  · simp only [hneg, decide_true, if_true] at h
    rw [← h, abs_neg, abs_of_nonneg hread]
  · simp only [hneg, decide_false, Bool.false_eq_true, if_false] at h
    rw [← h, abs_of_nonneg hread]

theorem compareDouble_self (c : FinDouble) : compareDouble (fin c) c = true := by
  have hright : 0 ≤ f64 (max |c.val| |c.val| * 2 ^ (-52 : ℤ)) :=
    round_nonneg (by positivity)
  have hleft : f64 |c.val - c.val| = 0 := by
    rw [sub_self, abs_zero]
    exact round_zero _ _
  simp only [compareDouble, hleft, hright, decide_true]

/-- What is printed as an integer is read back. -/
theorem reprint_of_int (h : c.val = toInt (fin c)) : (fin c).reprint = some (fin c) := by
  have habs : |c.val| = ((toInt (fin c)).natAbs : ℤ) := by
    rw [Int.natCast_natAbs, Int.cast_abs, ← h]
  have hread : f64 (ofNat (toInt (fin c)).natAbs).value = |c.val| := by
    have hsmall : |((toInt (fin c)).natAbs : ℤ)| < 2 ^ 53 := by
      have hrange := natAbs_toInt_le h
      rw [abs_of_nonneg (Int.natCast_nonneg _)]
      omega
    rw [value_ofNat, habs, ← Int.cast_natCast]
    exact round_intCast (by norm_num) hsmall
  rw [reprint, literal, if_pos h]
  exact congrArg some (signed_of_abs hread)

theorem ne_zero_of_not_int (h : c.val ≠ toInt (fin c)) : c.val ≠ 0 := by
  intro hzero
  apply h
  rw [hzero, toInt, hzero, if_neg (by norm_num), if_neg (by norm_num)]
  simp

theorem f64_abs (q : ℚ) : f64 |q| = |f64 q| := by
  rcases le_total 0 q with hq | hq
  · have hpos : 0 ≤ f64 q := round_nonneg hq
    rw [abs_of_nonneg hq, abs_of_nonneg hpos]
  · have hneg : f64 (-q) = -f64 q := round_neg _ _ _
    have hpos : 0 ≤ f64 (-q) := round_nonneg (neg_nonneg.mpr hq)
    rw [abs_of_nonpos hq, hneg, abs_of_nonpos (by linarith)]

/-- What fifteen digits were read as is what its own fifteen digits are read as, and seventeen
digits of a double are read as that double. -/
theorem reprint_reprint (hd : (fin d).Held) (h : (fin d).reprint = some (fin c)) :
    (fin c).reprint = some (fin c) := by
  by_cases hint : c.val = toInt (fin c)
  · exact reprint_of_int hint
  have hint' : d.val ≠ toInt (fin d) := by
    intro hwhole
    rw [reprint_of_int hwhole, Option.some_inj, fin.injEq] at h
    exact hint (h ▸ hwhole)
  have hc := abs_pos.mpr (ne_zero_of_not_int hint)
  have hd0 := abs_pos.mpr (ne_zero_of_not_int hint')
  rw [reprint, Option.some_inj, literal, if_neg hint'] at h
  dsimp only at h
  split at h
  · have hpos := ofG_pos (p := 15) (by norm_num) hd0
    have hread := abs_of_signed hpos.le h
    have hagain : f64 (ofG 15 |c.val|).value = |c.val| := by
      rw [← hread] at hc ⊢
      exact f64_ofG_fifteen hpos (hasDigits_ofG (by norm_num) hd0) hc
    have hsigned := signed_of_abs hagain
    have hclose := compareDouble_self c
    rw [reprint, literal, if_neg hint]
    simp only [hsigned, hclose, if_true]
  · next hfar =>
    have hheld : f64 |d.val| = |d.val| := by
      rw [f64_abs]
      exact congrArg abs (ofRat_eq_fin_iff.mp hd)
    have hsame := signed_of_abs (f64_ofG_seventeen hd0 hheld)
    rw [hsame, fin.injEq] at h
    rw [← h, reprint, literal, if_neg hint']
    dsimp only
    rw [if_neg hfar]
    exact congrArg some hsame

end Double

namespace CJson

/-! ## The numbers of an item -/

variable {P : Double → Prop}

mutual

/-- Every number of an item. -/
def AllNumbers (P : Double → Prop) : CJson → Prop
  | number v => P v
  | array xs => AllNumbersItems P xs
  | object ms => AllNumbersMembers P ms
  | _ => True

/-- `AllNumbers` of every element. -/
def AllNumbersItems (P : Double → Prop) : List CJson → Prop
  | [] => True
  | x :: xs => AllNumbers P x ∧ AllNumbersItems P xs

/-- `AllNumbers` of every member. -/
def AllNumbersMembers (P : Double → Prop) : List (CString × CJson) → Prop
  | [] => True
  | (_, x) :: ms => AllNumbers P x ∧ AllNumbersMembers P ms

end

theorem allNumbersItems_iff {xs : List CJson} :
    AllNumbersItems P xs ↔ ∀ x ∈ xs, AllNumbers P x := by
  induction xs with
  | nil => simp [AllNumbersItems]
  | cons x xs ih => simp [AllNumbersItems, ih]

theorem allNumbersMembers_iff {ms : List (CString × CJson)} :
    AllNumbersMembers P ms ↔ ∀ m ∈ ms, AllNumbers P m.2 := by
  induction ms with
  | nil => simp [AllNumbersMembers]
  | cons m ms ih =>
    obtain ⟨k, v⟩ := m
    simp [AllNumbersMembers, ih]

/-- What holds of the numbers of an item holds of those of what is found in it. -/
theorem AllNumbers.getCase {j v : CJson} {k : CString} (hj : j.AllNumbers P)
    (h : j.getCase k = some v) : v.AllNumbers P := by
  have hms : AllNumbersMembers P j.members := by
    cases j with
    | object ms => exact hj
    | _ => trivial
  obtain ⟨m, hm, rfl⟩ := Option.map_eq_some_iff.mp h
  exact allNumbersMembers_iff.mp hms m (List.mem_of_find?_eq_some hm)

/-! ## Parsed numbers -/

theorem allNumbers_parseScalar (hP : ∀ q, P (Double.ofRat q)) {b rest : Bytes} {v : CJson}
    (h : parseScalar b = some (v, rest)) : v.AllNumbers P := by
  unfold parseScalar at h
  split at h
  · cases h
    trivial
  split at h
  · cases h
    trivial
  split at h
  · cases h
    trivial
  split at h
  · simp at h
  · split at h
    · obtain ⟨⟨s, r⟩, -, heq⟩ := Option.map_eq_some_iff.mp h
      cases heq
      trivial
    · split at h
      · obtain ⟨⟨w, r⟩, hv, heq⟩ := Option.map_eq_some_iff.mp h
        cases heq
        obtain ⟨⟨w, r⟩, hw, heq⟩ := Option.map_eq_some_iff.mp hv
        cases heq
        obtain ⟨⟨d, r⟩, -, heq⟩ := Option.map_eq_some_iff.mp hw
        cases heq
        exact hP _
      · simp at h

/-- A parser of values whose numbers have a property. -/
def ReadsNumbers (P : Double → Prop) (value : Bytes → Option (CJson × Bytes)) : Prop :=
  ∀ b v rest, value b = some (v, rest) → v.AllNumbers P

theorem allNumbers_parseItems {value : Bytes → Option (CJson × Bytes)}
    (hvalue : ReadsNumbers P value) :
    ∀ (n : ℕ) (b : Bytes) (vs : List CJson) (rest : Bytes),
      parseItems value n b = some (vs, rest) → AllNumbersItems P vs
  | 0, _, _, _, h => by simp [parseItems] at h
  | n + 1, b, vs, rest, h => by
    rw [parseItems] at h
    cases hv : value (skipSpace b) with
    | none => simp [hv] at h
    | some p =>
      obtain ⟨v, r⟩ := p
      have hfirst := hvalue _ _ _ hv
      simp only [hv, Option.bind_eq_bind, Option.bind_some] at h
      split at h
      · obtain ⟨⟨ws, t⟩, hrest, hpair⟩ := Option.map_eq_some_iff.mp h
        cases hpair
        exact ⟨hfirst, allNumbers_parseItems hvalue n _ ws t hrest⟩
      · cases h
        exact ⟨hfirst, trivial⟩
      · simp at h

theorem allNumbers_parseMembers {value : Bytes → Option (CJson × Bytes)}
    (hvalue : ReadsNumbers P value) :
    ∀ (n : ℕ) (b : Bytes) (ms : List (CString × CJson)) (rest : Bytes),
      parseMembers value n b = some (ms, rest) → AllNumbersMembers P ms
  | 0, _, _, _, h => by simp [parseMembers] at h
  | n + 1, b, ms, rest, h => by
    rw [parseMembers] at h
    cases hk : parseString (skipSpace b) with
    | none => simp [hk] at h
    | some p =>
      obtain ⟨k, r⟩ := p
      simp only [hk, Option.bind_eq_bind, Option.bind_some] at h
      split at h
      · rename_i r' _
        cases hv : value (skipSpace r') with
        | none => simp [hv] at h
        | some q =>
          obtain ⟨v, r''⟩ := q
          have hfirst := hvalue _ _ _ hv
          simp only [hv, Option.bind_some] at h
          split at h
          · obtain ⟨⟨ws, t⟩, hrest, hpair⟩ := Option.map_eq_some_iff.mp h
            cases hpair
            exact ⟨hfirst, allNumbers_parseMembers hvalue n _ ws t hrest⟩
          · cases h
            exact ⟨hfirst, trivial⟩
          · simp at h
      · simp at h

theorem allNumbers_parseValue (hP : ∀ q, P (Double.ofRat q)) :
    ∀ left, ReadsNumbers P (parseValue left)
  | 0 => fun _ _ _ h => allNumbers_parseScalar hP h
  | left + 1 => fun b v rest h => by
    have hvalue := allNumbers_parseValue hP left
    unfold parseValue at h
    split at h
    · unfold parseArray at h
      split at h
      · cases h
        trivial
      · obtain ⟨⟨vs, r'⟩, hvs, hpair⟩ := Option.map_eq_some_iff.mp h
        cases hpair
        exact allNumbers_parseItems hvalue _ _ _ _ hvs
    · unfold parseObject at h
      split at h
      · cases h
        trivial
      · obtain ⟨⟨ms, r'⟩, hms, hpair⟩ := Option.map_eq_some_iff.mp h
        cases hpair
        exact allNumbers_parseMembers hvalue _ _ _ _ hms
    · exact allNumbers_parseScalar hP h

/-- Every number of a parsed text was read from a decimal. -/
theorem allNumbers_parse (hP : ∀ q, P (Double.ofRat q)) {s : CString} {j : CJson}
    (h : parse s = some j) : j.AllNumbers P := by
  obtain ⟨⟨v, rest⟩, hv, hpair⟩ := Option.map_eq_some_iff.mp h
  cases hpair
  exact allNumbers_parseValue hP _ _ _ _ hv

/-- No number of an item is not-a-number. -/
abbrev Numeric : CJson → Prop := AllNumbers (· ≠ .nan)

/-- No number of a parsed text is not-a-number. -/
theorem numeric_parse {s : CString} {j : CJson} (h : parse s = some j) : j.Numeric :=
  allNumbers_parse Double.ofRat_ne_nan h

/-! ## Printed once more -/

open Double Decimal

mutual

/-- Printing and parsing once more changes nothing just when no number was printed with digits that
are read as an infinity. -/
theorem reprint_reprint_iff : ∀ j : CJson, j.AllNumbers Held →
    (reprint (reprint j) = reprint j ↔ (reprint j).AllNumbers IsFinite)
  | null, _ => by simp [reprint, AllNumbers]
  | bool b, _ => by simp [reprint, AllNumbers]
  | string s, _ => by simp [reprint, AllNumbers]
  | number .nan, _ => by simp [reprint, Double.reprint, AllNumbers]
  | number (.inf neg), _ => by simp [reprint, Double.reprint, AllNumbers]
  | number (.fin d), hd => by
    have hread : reprint (number (.fin d)) =
        number (signed (literal d).1 (literal d).2) := rfl
    rw [hread]
    cases hs : signed (literal d).1 (literal d).2 with
    | nan => simp [reprint, Double.reprint, AllNumbers, IsFinite]
    | inf neg => simp [reprint, Double.reprint, AllNumbers, IsFinite]
    | fin c =>
      have hagain := Double.reprint_reprint hd (congrArg some hs)
      simp [reprint, hagain, AllNumbers, IsFinite]
  | array xs, hxs => by
    rw [reprint, reprint, array.injEq]
    exact reprintItems_reprintItems_iff xs hxs
  | object ms, hms => by
    rw [reprint, reprint, object.injEq]
    exact reprintMembers_reprintMembers_iff ms hms

theorem reprintItems_reprintItems_iff : ∀ xs : List CJson, AllNumbersItems Held xs →
    (reprintItems (reprintItems xs) = reprintItems xs ↔
      AllNumbersItems IsFinite (reprintItems xs))
  | [], _ => by simp [reprintItems, AllNumbersItems]
  | x :: xs, hxs => by
    rw [reprintItems, reprintItems, List.cons.injEq, reprint_reprint_iff x hxs.1,
      reprintItems_reprintItems_iff xs hxs.2]
    rfl

theorem reprintMembers_reprintMembers_iff : ∀ ms : List (CString × CJson),
    AllNumbersMembers Held ms → (reprintMembers (reprintMembers ms) = reprintMembers ms ↔
      AllNumbersMembers IsFinite (reprintMembers ms))
  | [], _ => by simp [reprintMembers, AllNumbersMembers]
  | (k, x) :: ms, hms => by
    rw [reprintMembers, reprintMembers, List.cons.injEq, Prod.mk.injEq,
      reprint_reprint_iff x hms.1, reprintMembers_reprintMembers_iff ms hms.2]
    simp [AllNumbersMembers]

end

end CJson

end MoonFlare
