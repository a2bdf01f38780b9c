import MoonFlare.CJsonRoundTrip

/-!
# Printed items as lines

A printed item has no control characters, so it stands on one line. What a text
is parsed to is no deeper than the parser goes, so that it can be printed and
parsed again.
-/

namespace MoonFlare.CJson

open Decimal

/-! ## Control characters -/

theorem printable_of_all {b : Bytes} (h : b.all (fun c => decide (32 ≤ c)) = true) :
    ∀ c ∈ b, 32 ≤ c := fun c hc => of_decide_eq_true (List.all_eq_true.mp h c hc)

theorem le_hexDigit {n : UInt8} (h : n < 16) : 32 ≤ hexDigit n := by
  have hlt : n.toNat < 16 := UInt8.lt_iff_toNat_lt.mp h
  have h48 : (48 : UInt8).toNat = 48 := rfl
  have h87 : (87 : UInt8).toNat = 87 := rfl
  have h32 : (32 : UInt8).toNat = 32 := rfl
  unfold hexDigit
  split
  · rw [UInt8.le_iff_toNat_le, UInt8.toNat_add]
    omega
  · rw [UInt8.le_iff_toNat_le, UInt8.toNat_add]
    omega

theorem escapeByte_printable (b : UInt8) : ∀ c ∈ escapeByte b, 32 ≤ c := by
  have hhigh : b / 16 < 16 := by
    rw [UInt8.lt_iff_toNat_lt, UInt8.toNat_div]
    have hlt := b.toNat_lt
    change b.toNat / 16 < 16
    omega
  have hlow : b % 16 < 16 := by
    rw [UInt8.lt_iff_toNat_lt, UInt8.toNat_mod]
    change b.toNat % 16 < 16
    omega
  unfold escapeByte
  split
  · next hb =>
    intro c hc
    obtain rfl := List.mem_singleton.mp hc
    have hgt := UInt8.lt_iff_toNat_lt.mp hb.1
    rw [UInt8.le_iff_toNat_le]
    exact hgt
  · have hletters : ∀ c ∈ ([92, 117, 48, 48] : Bytes), 32 ≤ c := printable_of_all (by decide)
    split_ifs
    case neg =>
      intro c hc
      rcases List.mem_append.mp (show c ∈ [92, 117, 48, 48] ++
        [hexDigit (b / 16), hexDigit (b % 16)] from hc) with hc | hc
      · exact hletters c hc
      · rcases List.mem_pair.mp hc with rfl | rfl
        · exact le_hexDigit hhigh
        · exact le_hexDigit hlow
    all_goals exact printable_of_all (by decide)

theorem printString_printable (s : CString) : ∀ c ∈ printString s, 32 ≤ c := by
  intro c hc
  rcases List.mem_cons.mp hc with rfl | hc
  · decide
  rcases List.mem_append.mp hc with hc | hc
  · obtain ⟨b, -, hb⟩ := List.mem_flatMap.mp hc
    exact escapeByte_printable b c hb
  · obtain rfl := List.mem_singleton.mp hc
    decide

theorem isNumberByte_printable {c : UInt8} (h : isNumberByte c = true) : 32 ≤ c := by
  by_contra hlt
  rw [UInt8.not_le, UInt8.lt_iff_toNat_lt] at hlt
  have hall : ∀ n : Fin 32, isNumberByte (UInt8.ofNat n) = false := by decide
  have hfalse := hall ⟨c.toNat, hlt⟩
  rw [show UInt8.ofNat c.toNat = c from UInt8.ofNat_toNat] at hfalse
  rw [hfalse] at h
  exact absurd h (by decide)

mutual

/-- A printed item has no control characters. -/
theorem print_printable : ∀ (j : CJson), ∀ c ∈ print j, 32 ≤ c
  | null => printable_of_all (by decide)
  | bool true => printable_of_all (by decide)
  | bool false => printable_of_all (by decide)
  | number .nan => printable_of_all (by decide)
  | number (.inf neg) => by
    change ∀ c ∈ ascii "null", 32 ≤ c
    exact printable_of_all (by decide)
  | number (.fin d) => fun c hc => isNumberByte_printable (isNumberByte_of_mem_signedText hc)
  | string s => printString_printable s
  | array xs => by
    intro c hc
    rcases List.mem_cons.mp hc with rfl | hc
    · decide
    rcases List.mem_append.mp hc with hc | hc
    · exact printItems_printable xs c hc
    · obtain rfl := List.mem_singleton.mp hc
      decide
  | object ms => by
    intro c hc
    rcases List.mem_cons.mp hc with rfl | hc
    · decide
    rcases List.mem_append.mp hc with hc | hc
    · exact printMembers_printable ms c hc
    · obtain rfl := List.mem_singleton.mp hc
      decide

theorem printItems_printable : ∀ (xs : List CJson), ∀ c ∈ printItems xs, 32 ≤ c
  | [] => by simp [printItems]
  | [x] => print_printable x
  | x :: y :: xs => by
    intro c hc
    rcases List.mem_append.mp hc with hc | hc
    · exact print_printable x c hc
    rcases List.mem_cons.mp hc with rfl | hc
    · decide
    · exact printItems_printable (y :: xs) c hc

theorem printMembers_printable : ∀ (ms : List (CString × CJson)), ∀ c ∈ printMembers ms, 32 ≤ c
  | [] => by simp [printMembers]
  | [(k, x)] => by
    intro c hc
    rcases List.mem_append.mp hc with hc | hc
    · exact printString_printable k c hc
    rcases List.mem_cons.mp hc with rfl | hc
    · decide
    · exact print_printable x c hc
  | (k, x) :: m :: ms => by
    intro c hc
    rcases List.mem_append.mp hc with hc | hc
    · exact printString_printable k c hc
    rcases List.mem_cons.mp hc with rfl | hc
    · decide
    rcases List.mem_append.mp hc with hc | hc
    · exact print_printable x c hc
    rcases List.mem_cons.mp hc with rfl | hc
    · decide
    · exact printMembers_printable (m :: ms) c hc

end

/-! ## Depth -/

variable {value : Bytes → Option (CJson × Bytes)} {n : ℕ}

/-- A parser of values of at most so many levels. -/
def ReadsWithin (n : ℕ) (value : Bytes → Option (CJson × Bytes)) : Prop :=
  ∀ b v r, value b = some (v, r) → depth v ≤ n

theorem depth_parseItems (hvalue : ReadsWithin n value) : ∀ (m : ℕ) (b : Bytes) (vs : List CJson)
    (r : Bytes), parseItems value m b = some (vs, r) → depthItems vs ≤ n
  | 0, _, _, _, h => by simp [parseItems] at h
  | m + 1, b, vs, r, h => by
    rw [parseItems] at h
    cases hv : value (skipSpace b) with
    | none => simp [hv] at h
    | some p =>
      obtain ⟨v, s⟩ := p
      have hfirst := hvalue _ _ _ hv
      simp only [hv, Option.bind_eq_bind, Option.bind_some] at h
      split at h
      · obtain ⟨⟨ws, t⟩, hrest, hpair⟩ := Option.map_eq_some_iff.mp h
        cases hpair
        exact max_le hfirst (depth_parseItems hvalue m _ ws t hrest)
      · cases h
        exact max_le hfirst (Nat.zero_le n)
      · simp at h

theorem depth_parseMembers (hvalue : ReadsWithin n value) : ∀ (m : ℕ) (b : Bytes)
    (ms : List (CString × CJson)) (r : Bytes), parseMembers value m b = some (ms, r) →
      depthMembers ms ≤ n
  | 0, _, _, _, h => by simp [parseMembers] at h
  | m + 1, b, ms, r, h => by
    rw [parseMembers] at h
    cases hk : parseString (skipSpace b) with
    | none => simp [hk] at h
    | some p =>
      obtain ⟨k, s⟩ := p
      simp only [hk, Option.bind_eq_bind, Option.bind_some] at h
      split at h
      · next s' _ =>
        cases hv : value (skipSpace s') with
        | none => simp [hv] at h
        | some q =>
          obtain ⟨v, s''⟩ := q
          have hfirst := hvalue _ _ _ hv
          simp only [hv, Option.bind_some] at h
          split at h
          · obtain ⟨⟨ws, t⟩, hrest, hpair⟩ := Option.map_eq_some_iff.mp h
            cases hpair
            exact max_le hfirst (depth_parseMembers hvalue m _ ws t hrest)
          · cases h
            exact max_le hfirst (Nat.zero_le n)
          · simp at h
      · simp at h

theorem depth_parseScalar {b r : Bytes} {v : CJson} (h : parseScalar b = some (v, r)) :
    depth v = 0 := by
  unfold parseScalar at h
  split_ifs at h
  · cases h
    rfl
  · cases h
    rfl
  · cases h
    rfl
  split at h
  · simp at h
  split_ifs at h
  · obtain ⟨⟨s, t⟩, -, hpair⟩ := Option.map_eq_some_iff.mp h
    cases hpair
    rfl
  · obtain ⟨⟨d, t⟩, -, hpair⟩ := Option.map_eq_some_iff.mp h
    cases hpair
    rfl

/-- The parser goes no deeper than it is allowed to. -/
theorem depth_parseValue : ∀ left, ReadsWithin left (parseValue left)
  | 0 => fun _ _ _ h => (depth_parseScalar h).le
  | left + 1 => fun b v r h => by
    have hvalue := depth_parseValue left
    unfold parseValue at h
    split at h
    · unfold parseArray at h
      split at h
      · cases h
        exact Nat.succ_le_succ (Nat.zero_le left)
      · obtain ⟨⟨vs, t⟩, hvs, hpair⟩ := Option.map_eq_some_iff.mp h
        cases hpair
        exact Nat.succ_le_succ (depth_parseItems hvalue _ _ _ _ hvs)
    · unfold parseObject at h
      split at h
      · cases h
        exact Nat.succ_le_succ (Nat.zero_le left)
      · obtain ⟨⟨ms, t⟩, hms, hpair⟩ := Option.map_eq_some_iff.mp h
        cases hpair
        exact Nat.succ_le_succ (depth_parseMembers hvalue _ _ _ _ hms)
    · rw [depth_parseScalar h]
      exact Nat.zero_le _

theorem depth_parse_le {s : CString} {j : CJson} (h : parse s = some j) :
    depth j ≤ nestingLimit := by
  obtain ⟨⟨v, r⟩, hv, hpair⟩ := Option.map_eq_some_iff.mp h
  cases hpair
  exact depth_parseValue _ _ _ _ hv

end MoonFlare.CJson
