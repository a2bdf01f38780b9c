import MoonFlare.DecimalText

/-!
# Where a number ends

`strtod` reads no further than a white space behind the number, so a number in the middle of
a line is read as if it stood alone.
-/

namespace MoonFlare

namespace Decimal

variable {c : UInt8} {x : Bytes}

/-- A byte that no number goes on with. -/
structure Stops (c : UInt8) : Prop where
  digit : digitOf c = none
  hex : Double.hexOf c = none
  point : c ≠ 46
  sign : c ≠ 45 ∧ c ≠ 43
  exp : c ≠ 101 ∧ c ≠ 69
  hexExp : c ≠ 112 ∧ c ≠ 80
  letter : ∀ w ∈ [ascii "inf", ascii "nan", ascii "0x"], CString.tolower c ∉ w

theorem stops_tab : Stops 9 :=
  ⟨rfl, rfl, by decide, by decide, by decide, by decide, by decide +kernel⟩

theorem stops_newline : Stops 10 :=
  ⟨rfl, rfl, by decide, by decide, by decide, by decide, by decide +kernel⟩

theorem spanDigits_append (hc : Stops c) (b : Bytes) :
    spanDigits (b ++ c :: x) = ((spanDigits b).1, (spanDigits b).2 ++ c :: x) := by
  induction b with
  | nil => simp [spanDigits, hc.digit]
  | cons d b ih =>
    rw [List.cons_append, spanDigits, spanDigits]
    cases digitOf d with
    | none => rfl
    | some v => simp [ih]

theorem scanFrac_append (hc : Stops c) (b : Bytes) :
    scanFrac (b ++ c :: x) = ((scanFrac b).1, (scanFrac b).2 ++ c :: x) := by
  unfold scanFrac
  split
  · next rest heq =>
    cases b with
    | nil => exact absurd (List.cons.inj heq).1 hc.point
    | cons d b =>
      obtain ⟨rfl, rfl⟩ := List.cons.inj heq
      exact spanDigits_append hc b
  · next hpoint =>
    split
    · exact absurd rfl (hpoint _)
    · rfl

theorem scanSign_append (hc : Stops c) (b : Bytes) :
    scanSign (b ++ c :: x) = ((scanSign b).1, (scanSign b).2 ++ c :: x) := by
  cases b with
  | nil =>
    unfold scanSign
    split
    · next heq => exact absurd (List.cons.inj heq).1 hc.sign.1
    · next heq => exact absurd (List.cons.inj heq).1 hc.sign.2
    · rfl
  | cons d b =>
    unfold scanSign
    split
    · next heq =>
      obtain ⟨rfl, rfl⟩ := List.cons.inj heq
      rfl
    · next heq =>
      obtain ⟨rfl, rfl⟩ := List.cons.inj heq
      rfl
    · next hminus hplus =>
      split
      · next heq => exact absurd (congrArg (· ++ c :: x) heq) (hminus _)
      · next heq => exact absurd (congrArg (· ++ c :: x) heq) (hplus _)
      · rfl

/-- The exponent that is read. -/
theorem scanExp_append (hc : Stops c) (b : Bytes) : (scanExp (b ++ c :: x)).1 = (scanExp b).1 := by
  cases b with
  | nil =>
    have hne : ¬(c = 101 ∨ c = 69) := not_or.mpr hc.exp
    simp [scanExp, hne]
  | cons d b =>
    simp only [List.cons_append, scanExp]
    split
    · rw [scanSign_append hc, spanDigits_append hc]
      cases spanDigits (scanSign b).2 with
      | mk ds r =>
        cases ds with
        | nil => rfl
        | cons e es => rfl
    · rfl

/-- The literal that is read. -/
theorem scan_append (hc : Stops c) (b : Bytes) :
    (scan (b ++ c :: x)).map Prod.fst = (scan b).map Prod.fst := by
  simp only [scan, spanDigits_append hc, scanFrac_append hc]
  split
  · rfl
  · simp [scanExp_append hc]

end Decimal

namespace Double

open Decimal

variable {c : UInt8} {x : Bytes}

theorem startsWord_append (hc : Stops c) (b : Bytes) {w : String}
    (hw : ascii w ∈ [ascii "inf", ascii "nan", ascii "0x"]) :
    startsWord (b ++ c :: x) w = startsWord b w := by
  have hletter := hc.letter _ hw
  unfold startsWord
  rw [List.map_append, List.map_cons, Bool.eq_iff_iff, List.isPrefixOf_iff_prefix,
    List.isPrefixOf_iff_prefix]
  constructor
  · rintro ⟨t, ht⟩
    rcases List.append_eq_append_iff.mp ht with ⟨m, hb, -⟩ | ⟨m, hword, hm⟩
    · exact ⟨m, hb.symm⟩
    · cases m with
      | nil => exact ⟨[], by simpa using hword⟩
      | cons d m =>
        obtain ⟨rfl, -⟩ := List.cons.inj hm
        exact absurd (by simp [hword]) hletter
  · exact fun h => h.trans (List.prefix_append _ _)

theorem spanHex_append (hc : Stops c) (b : Bytes) :
    spanHex (b ++ c :: x) = ((spanHex b).1, (spanHex b).2 ++ c :: x) := by
  induction b with
  | nil => simp [spanHex, hc.hex]
  | cons d b ih =>
    rw [List.cons_append, spanHex, spanHex]
    cases hexOf d with
    | none => rfl
    | some v => simp [ih]

/-- The digits behind the point of a hexadecimal literal, and what follows. -/
def hexFrac (r : Bytes) : List ℕ × Bytes :=
  match r with
  | 46 :: r' => spanHex r'
  | r' => ([], r')

/-- The exponent of a hexadecimal literal. -/
def hexExponent (r : Bytes) : ℤ :=
  match r with
  | c :: rest =>
    if c = 112 ∨ c = 80 then
      let (neg, digits) := scanSign rest
      let x := ofDigits (spanDigits digits).1
      if neg then -(x : ℤ) else x
    else 0
  | [] => 0

theorem hexValue_eq (b : Bytes) : hexValue b =
    if (spanHex b).1 = [] ∧ (hexFrac (spanHex b).2).1 = [] then none
    else
      let m : ℕ := ((spanHex b).1 ++ (hexFrac (spanHex b).2).1).foldl (fun n d => 16 * n + d) 0
      some ((m : ℚ) * 2 ^ (hexExponent (hexFrac (spanHex b).2).2 -
        4 * (hexFrac (spanHex b).2).1.length)) := rfl

theorem hexFrac_append (hc : Stops c) (b : Bytes) :
    hexFrac (b ++ c :: x) = ((hexFrac b).1, (hexFrac b).2 ++ c :: x) := by
  unfold hexFrac
  split
  · next rest heq =>
    cases b with
    | nil => exact absurd (List.cons.inj heq).1 hc.point
    | cons d b =>
      obtain ⟨rfl, rfl⟩ := List.cons.inj heq
      exact spanHex_append hc b
  · next hpoint =>
    split
    · exact absurd rfl (hpoint _)
    · rfl

theorem hexExponent_append (hc : Stops c) (b : Bytes) :
    hexExponent (b ++ c :: x) = hexExponent b := by
  cases b with
  | nil =>
    have hne : ¬(c = 112 ∨ c = 80) := not_or.mpr hc.hexExp
    simp [hexExponent, hne]
  | cons d b =>
    simp only [List.cons_append, hexExponent, scanSign_append hc, spanDigits_append hc]

theorem hexValue_append (hc : Stops c) (b : Bytes) : hexValue (b ++ c :: x) = hexValue b := by
  rw [hexValue_eq, hexValue_eq, spanHex_append hc]
  simp only [hexFrac_append hc, hexExponent_append hc]

/-- A number is read as if it stood alone. -/
theorem atof_append (hc : Stops c) {s t : CString} (hs : ∃ b ∈ s.bytes.head?, isSpace b = false)
    (ht : t.bytes = s.bytes ++ c :: x) : atof t = atof s := by
  obtain ⟨b, hb, hspace⟩ := hs
  obtain ⟨tail, htail⟩ : ∃ tail, s.bytes = b :: tail := by
    cases h : s.bytes with
    | nil => simp [h] at hb
    | cons d tail =>
      rw [h, List.head?_cons, Option.mem_some_iff] at hb
      exact ⟨tail, by rw [hb]⟩
  have hskip : s.bytes.dropWhile isSpace = s.bytes := by simp [htail, hspace]
  have hskip' : t.bytes.dropWhile isSpace = s.bytes ++ c :: x := by simp [ht, htail, hspace]
  unfold atof
  rw [hskip, hskip', scanSign_append hc]
  dsimp only
  rw [startsWord_append hc _ (by simp), startsWord_append hc _ (by simp),
    startsWord_append hc _ (by simp)]
  split
  · rfl
  split
  · rfl
  have hhex : (if startsWord (scanSign s.bytes).2 "0x" then
        hexValue (((scanSign s.bytes).2 ++ c :: x).drop 2) else none) =
      if startsWord (scanSign s.bytes).2 "0x" then hexValue ((scanSign s.bytes).2.drop 2)
      else none := by
    split
    · next hword =>
      have hlen : 2 ≤ (scanSign s.bytes).2.length := by
        unfold startsWord at hword
        have hstart := (List.isPrefixOf_iff_prefix.mp hword).length_le
        have htwo : (ascii "0x").length = 2 := rfl
        rw [htwo, List.length_map] at hstart
        exact hstart
      rw [List.drop_append_of_le_length hlen, hexValue_append hc]
    · rfl
  rw [hhex]
  split
  · rfl
  · have hscan := @scan_append c x hc (scanSign s.bytes).2
    cases hleft : scan ((scanSign s.bytes).2 ++ c :: x) with
    | none =>
      rw [hleft] at hscan
      cases hright : scan (scanSign s.bytes).2 with
      | none => rfl
      | some p => rw [hright] at hscan; cases hscan
    | some p =>
      rw [hleft] at hscan
      cases hright : scan (scanSign s.bytes).2 with
      | none => rw [hright] at hscan; cases hscan
      | some q =>
        rw [hright] at hscan
        have hsame : p.1 = q.1 := Option.some.inj hscan
        simp only [hsame]

end Double

end MoonFlare
