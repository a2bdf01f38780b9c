import MoonFlare.StrictJson

/-!
# Texts that read as JSON

A text that a part is printed as reads as that part when any byte that ends a part stands
behind it. Parts with commas between them then read as the list of the parts, so the text of
a whole object is read part by part.
-/

namespace MoonFlare.StrictJson

open Decimal

/-- What no part of an array or an object starts with: a blank or a closing byte. -/
def Opening (c : UInt8) : Prop := isBlank c = false ∧ c ≠ 93 ∧ c ≠ 125

instance (c : UInt8) : Decidable (Opening c) := inferInstanceAs (Decidable (_ ∧ _))

/-- What ends a part of an array or an object. -/
def Follows (c : UInt8) : Prop := c = 44 ∨ c = 93 ∨ c = 125

/-- Parts with commas between them. -/
def join (ts : List Bytes) : Bytes := [44].intercalate ts

/-- Parts with a comma behind each. -/
def each (ts : List Bytes) : Bytes := ts.flatMap (· ++ [44])

section Lists

variable {α : Type} {item : Bytes → Option (α × Bytes)} {t : Bytes} {x : α}

/-- A text reads as a part. -/
structure Parses (item : Bytes → Option (α × Bytes)) (t : Bytes) (x : α) : Prop where
  opens : ∃ c cs, t = c :: cs ∧ Opening c
  read : ∀ c rest, Follows c → item (t ++ c :: rest) = some (x, c :: rest)

theorem skipBlanks_cons {c : UInt8} (h : isBlank c = false) (rest : Bytes) :
    skipBlanks (c :: rest) = c :: rest := by
  simp [skipBlanks, h]

theorem Follows.not_blank {c : UInt8} (h : Follows c) : isBlank c = false := by
  rcases h with rfl | rfl | rfl <;> rfl

/-- No blank stands in front of a part. -/
theorem Parses.skip (h : Parses item t x) (rest : Bytes) : skipBlanks (t ++ rest) = t ++ rest := by
  obtain ⟨c, cs, rfl, hblank, -⟩ := h.opens
  exact skipBlanks_cons hblank _

/-- A part and the comma behind it. -/
theorem many_cons (h : Parses item t x) (close : UInt8) (n : ℕ) (rest : Bytes) :
    many item close (n + 1) (t ++ 44 :: rest) =
      (many item close n rest).map fun (xs, r) => (x :: xs, r) := by
  rw [many, h.skip, h.read 44 rest (Or.inl rfl)]
  simp [skipBlanks_cons (show isBlank 44 = false from rfl)]

/-- The last part and the closing byte. -/
theorem many_last (h : Parses item t x) {close : UInt8} (hclose : close = 93 ∨ close = 125)
    (n : ℕ) (rest : Bytes) : many item close (n + 1) (t ++ close :: rest) = some ([x], rest) := by
  have hfollows : Follows close := Or.inr hclose
  have hcomma : close ≠ 44 := by
    rcases hclose with rfl | rfl <;> decide
  rw [many, h.skip, h.read close rest hfollows]
  simp [skipBlanks_cons hfollows.not_blank, hcomma]

/-- Parts with a comma behind each. -/
theorem many_each {ts : List Bytes} {xs : List α} (h : List.Forall₂ (Parses item) ts xs)
    (close : UInt8) (n : ℕ) (rest : Bytes) :
    many item close (ts.length + n) (each ts ++ rest) =
      (many item close n rest).map fun (ys, r) => (xs ++ ys, r) := by
  induction h with
  | nil => simp [each]
  | @cons t x ts xs hread hreads ih =>
    have htext : each (t :: ts) ++ rest = t ++ 44 :: (each ts ++ rest) := by simp [each]
    have hlen : (t :: ts).length + n = (ts.length + n) + 1 := by
      rw [List.length_cons]
      omega
    rw [htext, hlen, many_cons hread, ih, Option.map_map]
    rfl

theorem length_le_each (ts : List Bytes) : ts.length ≤ (each ts).length := by
  induction ts with
  | nil => exact le_rfl
  | cons t ts ih =>
    simp only [each, List.flatMap_cons, List.length_append, List.length_cons,
      List.length_nil] at ih ⊢
    omega

theorem join_cons (s : Bytes) {ts : List Bytes} (h : ts ≠ []) :
    join (s :: ts) = s ++ 44 :: join ts := by
  obtain ⟨t, ts, rfl⟩ := List.exists_cons_of_ne_nil h
  simp [join, List.intercalate]

/-- Parts in front of others. -/
theorem join_append (ss : List Bytes) {ts : List Bytes} (h : ts ≠ []) :
    join (ss ++ ts) = each ss ++ join ts := by
  induction ss with
  | nil => rfl
  | cons s ss ih =>
    rw [List.cons_append, join_cons s (by simp [h]), ih]
    simp [each]

theorem join_concat (ts : List Bytes) (t : Bytes) : join (ts ++ [t]) = each ts ++ t := by
  rw [join_append ts (by simp)]
  simp [join, List.intercalate]

/-- The last of some parts. -/
theorem forall₂_concat {ts : List Bytes} {xs : List α} {x : α}
    (h : List.Forall₂ (Parses item) ts (xs ++ [x])) :
    ∃ ss s, ts = ss ++ [s] ∧ List.Forall₂ (Parses item) ss xs ∧ Parses item s x := by
  have htake := List.forall₂_take_append _ _ _ h
  have hdrop := List.forall₂_drop_append _ _ _ h
  obtain ⟨s, us, hread, hnil, hdrop_eq⟩ := List.forall₂_cons_right_iff.mp hdrop
  rw [List.forall₂_nil_right_iff.mp hnil] at hdrop_eq
  exact ⟨_, s, by rw [← hdrop_eq, List.take_append_drop], htake, hread⟩

/-- Parts with commas between them are read as their list. -/
theorem parts_join {ts : List Bytes} {xs : List α} (h : List.Forall₂ (Parses item) ts xs)
    {close : UInt8} (hclose : close = 93 ∨ close = 125) (rest : Bytes) :
    parts item close (join ts ++ close :: rest) = some (xs, rest) := by
  have hblank : isBlank close = false := by
    rcases hclose with rfl | rfl <;> rfl
  rcases List.eq_nil_or_concat xs with rfl | ⟨xs, x, rfl⟩
  · cases h
    simp [parts, join, List.intercalate, skipBlanks_cons hblank]
  · rw [List.concat_eq_append] at h ⊢
    obtain ⟨ts, t, rfl, hinit, hlast⟩ := forall₂_concat h
    have hmany : many item close (join (ts ++ [t]) ++ close :: rest).length
        (join (ts ++ [t]) ++ close :: rest) = some (xs ++ [x], rest) := by
      have hlen := length_le_each ts
      obtain ⟨m, hm⟩ : ∃ m, (join (ts ++ [t]) ++ close :: rest).length = ts.length + (m + 1) := by
        refine ⟨(join (ts ++ [t]) ++ close :: rest).length - ts.length - 1, ?_⟩
        simp only [join_concat, List.length_append, List.length_cons]
        omega
      rw [hm, join_concat, List.append_assoc, many_each hinit, many_last hlast hclose]
      rfl
    obtain ⟨c, cs, hopen, hc⟩ :
        ∃ c cs, join (ts ++ [t]) ++ close :: rest = c :: cs ∧ Opening c := by
      rw [join_concat]
      cases hinit with
      | nil =>
        obtain ⟨c, cs, rfl, hc⟩ := hlast.opens
        exact ⟨c, _, rfl, hc⟩
      | cons hfirst _ =>
        obtain ⟨c, cs, rfl, hc⟩ := hfirst.opens
        exact ⟨c, _, rfl, hc⟩
    have hne : c ≠ close := by
      rcases hclose with rfl | rfl
      · exact hc.2.1
      · exact hc.2.2
    rw [hopen] at hmany ⊢
    simp only [parts, skipBlanks_cons hc.1, if_neg hne]
    exact hmany

end Lists

/-! ## Scalars -/

theorem value_scalar (left : ℕ) {c : UInt8} (cs : Bytes) (h91 : c ≠ 91) (h123 : c ≠ 123) :
    value left (c :: cs) = scalar (c :: cs) := by
  cases left with
  | zero => rfl
  | succ left =>
    rw [value]
    · exact fun _ h => h91 (List.cons.inj h).1
    · exact fun _ h => h123 (List.cons.inj h).1

theorem reads_string {s : Bytes} (h : Plain s) (left : ℕ) :
    Parses (value left) (34 :: (s ++ [34])) (.string s) := by
  refine ⟨⟨34, _, rfl, by decide⟩, fun c rest _ => ?_⟩
  have htext : 34 :: (s ++ [34]) ++ c :: rest = 34 :: (s ++ 34 :: c :: rest) := by simp
  rw [htext, value_scalar left _ (by decide) (by decide)]
  simp [scalar, string_of_plain h]

theorem reads_bool (b : Bool) (left : ℕ) :
    Parses (value left) (ascii (if b then "true" else "false")) (.bool b) := by
  cases b with
  | true =>
    refine ⟨⟨116, ascii "rue", rfl, by decide⟩, fun c rest _ => ?_⟩
    have htext : ascii (if true then "true" else "false") ++ c :: rest =
        116 :: (ascii "rue" ++ c :: rest) := rfl
    rw [htext, value_scalar left _ (by decide) (by decide)]
    rfl
  | false =>
    refine ⟨⟨102, ascii "alse", rfl, by decide⟩, fun c rest _ => ?_⟩
    have htext : ascii (if false then "true" else "false") ++ c :: rest =
        102 :: (ascii "alse" ++ c :: rest) := rfl
    rw [htext, value_scalar left _ (by decide) (by decide)]
    rfl

/-- A literal without a zero in front, with a digit in its exponent. -/
structure IsLiteral (d : Decimal) : Prop where
  int : isInteger d.int
  exp : ∀ neg ds, d.exp = some (neg, ds) → ds ≠ []

theorem Follows.ends {c : UInt8} (h : Follows c) (rest : Bytes) : Ends (c :: rest) := by
  rcases h with rfl | rfl | rfl <;> simp [Ends, isNumberByte]

theorem exponent_expText {e : Option (Bool × List (Fin 10))} {rest : Bytes} (hend : Ends rest)
    (he : ∀ neg ds, e = some (neg, ds) → ds ≠ []) :
    exponent (expText e ++ rest) = some (e, rest) := by
  cases e with
  | none =>
    cases rest with
    | nil => rfl
    | cons b tail =>
      have hb := hend b (by simp)
      have hne : ¬(b = 101 ∨ b = 69) := by
        rintro (rfl | rfl) <;> simp [isNumberByte] at hb
      simp [expText, exponent, hne]
  | some pair =>
    obtain ⟨neg, ds⟩ := pair
    have hspan := spanDigits_map (fun b hb => digitOf_of_not_number (hend b hb)) ds
    have hsign : scanSign ((if neg then 45 else 43) :: (ds.map digitByte ++ rest)) =
        (neg, ds.map digitByte ++ rest) := by
      cases neg <;> rfl
    simp [expText, exponent, hsign, hspan, he neg ds rfl]

theorem fraction_fracText {ds : List (Fin 10)} {rest : Bytes} (hpoint : rest.head? ≠ some 46)
    (hdigit : ∀ b ∈ rest.head?, digitOf b = none) :
    fraction (fracText ds ++ rest) = some (ds, rest) := by
  by_cases h : ds = []
  · subst h
    cases rest with
    | nil => rfl
    | cons b tail =>
      have hb : b ≠ 46 := by simpa using hpoint
      rw [fracText, if_pos rfl, List.nil_append]
      unfold fraction
      split
      · next heq => exact absurd (List.cons.inj heq).1 hb
      · rfl
  · simp [fracText, h, fraction, spanDigits_map hdigit]

theorem literal_text {d : Decimal} (hd : IsLiteral d) {rest : Bytes} (hend : Ends rest) :
    literal (d.text ++ rest) = some (d, rest) := by
  obtain ⟨hpoint, hdigit⟩ := head_expText_append (e := d.exp) hend
  have hhead : ∀ b ∈ (fracText d.frac ++ (expText d.exp ++ rest)).head?, digitOf b = none := by
    by_cases h : d.frac = []
    · simpa [fracText, h] using hdigit
    · simp only [fracText, h, if_false, List.cons_append, List.head?_cons]
      exact fun b hb => by cases hb; decide
  have hint := spanDigits_map hhead d.int
  have hfrac := @fraction_fracText d.frac _ hpoint hdigit
  have hexp := exponent_expText (e := d.exp) hend hd.exp
  simp only [literal, text, List.append_assoc, hint, if_pos hd.int, hfrac, hexp,
    Option.bind_eq_bind, Option.bind_some]

theorem digitByte_range (d : Fin 10) : 48 ≤ digitByte d ∧ digitByte d ≤ 57 := by
  revert d
  decide

/-- What a number starts with. -/
theorem signedText_opens (neg : Bool) {d : Decimal} (hd : IsLiteral d) :
    ∃ c cs, signedText neg d = c :: cs ∧ (c = 45 ∨ 48 ≤ c ∧ c ≤ 57) := by
  cases neg with
  | true => exact ⟨45, d.text, rfl, Or.inl rfl⟩
  | false =>
    have hne : d.int ≠ [] := by
      intro hnil
      have hint := hd.int
      simp [isInteger, hnil] at hint
    obtain ⟨e, es, he⟩ := List.exists_cons_of_ne_nil hne
    refine ⟨digitByte e, es.map digitByte ++ (fracText d.frac ++ expText d.exp), ?_,
      Or.inr (digitByte_range e)⟩
    simp [signedText, text, he]

theorem number_signedText (neg : Bool) {d : Decimal} (hd : IsLiteral d) {rest : Bytes}
    (hend : Ends rest) : number (signedText neg d ++ rest) = some (.number neg d, rest) := by
  have hread := literal_text hd hend
  cases neg with
  | true =>
    have htext : signedText true d ++ rest = 45 :: (d.text ++ rest) := rfl
    rw [htext, number, hread]
    rfl
  | false =>
    obtain ⟨c, cs, hopen, hc⟩ := signedText_opens false hd
    have htext : signedText false d = d.text := rfl
    have hpos : c ≠ 45 := by
      rintro rfl
      obtain ⟨e, es, he⟩ := List.exists_cons_of_ne_nil (l := d.int)
        (fun hnil => by have hint := hd.int; simp [isInteger, hnil] at hint)
      have hhead : digitByte e = 45 := by
        rw [htext, text, he] at hopen
        exact (List.cons.inj hopen).1
      have hrange := (digitByte_range e).1
      rw [hhead] at hrange
      exact absurd hrange (by decide)
    rw [htext] at hopen ⊢
    rw [hopen, List.cons_append] at hread ⊢
    unfold number
    split
    · next heq => exact absurd (List.cons.inj heq).1 hpos
    · rw [hread]
      rfl

theorem opening_of_number {c : UInt8} (h : c = 45 ∨ 48 ≤ c ∧ c ≤ 57) :
    Opening c ∧ c ≠ 34 ∧ c ≠ 91 ∧ c ≠ 123 := by
  revert h
  revert c
  decide +kernel

theorem reads_number (neg : Bool) {d : Decimal} (hd : IsLiteral d) (left : ℕ) :
    Parses (value left) (signedText neg d) (.number neg d) := by
  obtain ⟨c, cs, hopen, hc⟩ := signedText_opens neg hd
  obtain ⟨hopening, hquote, hbracket, hbrace⟩ := opening_of_number hc
  refine ⟨⟨c, cs, hopen, hopening⟩, fun e rest he => ?_⟩
  have hread := number_signedText neg hd (he.ends rest)
  rw [hopen, List.cons_append] at hread ⊢
  rw [value_scalar left _ hbracket hbrace, scalar, if_neg hquote, if_pos hc, hread]

/-! ## Arrays and objects -/

theorem reads_array {left : ℕ} {ts : List Bytes} {vs : List Json}
    (h : List.Forall₂ (Parses (value left)) ts vs) :
    Parses (value (left + 1)) (91 :: (join ts ++ [93])) (.array vs) := by
  refine ⟨⟨91, _, rfl, by decide⟩, fun c rest _ => ?_⟩
  have htext : 91 :: (join ts ++ [93]) ++ c :: rest = 91 :: (join ts ++ 93 :: c :: rest) := by simp
  rw [htext, value, parts_join h (Or.inl rfl)]
  rfl

theorem reads_member {left : ℕ} {k t : Bytes} {v : Json} (hk : Plain k)
    (h : Parses (value left) t v) :
    Parses (member (value left)) (34 :: (k ++ 34 :: 58 :: t)) (k, v) := by
  refine ⟨⟨34, _, rfl, by decide⟩, fun c rest hc => ?_⟩
  have htext : 34 :: (k ++ 34 :: 58 :: t) ++ c :: rest =
      34 :: (k ++ 34 :: 58 :: (t ++ c :: rest)) := by
    simp
  rw [htext, member, string_of_plain hk]
  simp [skipBlanks_cons (show isBlank 58 = false from rfl), h.skip, h.read c rest hc]

/-- An object is read to its closing byte, whatever follows. -/
theorem value_object {left : ℕ} {ts : List Bytes} {ms : List (Bytes × Json)}
    (h : List.Forall₂ (Parses (member (value left))) ts ms) (rest : Bytes) :
    value (left + 1) (123 :: (join ts ++ 125 :: rest)) = some (.object ms, rest) := by
  rw [value, parts_join h (Or.inr rfl)]
  rfl

theorem reads_object {left : ℕ} {ts : List Bytes} {ms : List (Bytes × Json)}
    (h : List.Forall₂ (Parses (member (value left))) ts ms) :
    Parses (value (left + 1)) (123 :: (join ts ++ [125])) (.object ms) := by
  refine ⟨⟨123, _, rfl, by decide⟩, fun c rest _ => ?_⟩
  have htext : 123 :: (join ts ++ [125]) ++ c :: rest = 123 :: (join ts ++ 125 :: c :: rest) := by
    simp
  rw [htext, value_object h]

/-- The text of an object is JSON. -/
theorem parse_object {left : ℕ} {ts : List Bytes} {ms : List (Bytes × Json)}
    (hleft : (join ts).length + 1 = left)
    (h : List.Forall₂ (Parses (member (value left))) ts ms) :
    parse (123 :: (join ts ++ [125])) = some (.object ms) := by
  have hlen : (123 :: (join ts ++ [125])).length = left + 1 := by simp [← hleft]
  rw [parse, hlen, skipBlanks_cons (by decide), value_object h]
  rfl

/-! ## Strings printed as they stand -/

/-- The text of a member whose string is printed as it stands, with another behind it. -/
def openMember (k s rest : Bytes) : Bytes :=
  34 :: (k ++ 34 :: 58 :: 34 :: (s ++ 34 :: 44 :: 34 :: rest))

/-- The string that such a member is read as. -/
theorem member_openMember {left : ℕ} {k s rest r : Bytes} {m : Bytes × Json} (hk : Plain k)
    (h : member (value left) (openMember k s rest) = some (m, r)) :
    ∃ s' n, m = (k, .string s') ∧ chars n (s ++ 34 :: 44 :: 34 :: rest) = some (s', r) := by
  simp only [member, openMember, string_of_plain hk, Option.bind_eq_bind, Option.bind_some,
    skipBlanks_cons (show isBlank 58 = false from rfl),
    skipBlanks_cons (show isBlank 34 = false from rfl),
    value_scalar left _ (show (34 : UInt8) ≠ 91 by decide) (show (34 : UInt8) ≠ 123 by decide),
    scalar, if_true] at h
  simp only [string, if_true, Option.map_eq_some_iff, Prod.exists, Prod.mk.injEq] at h
  obtain ⟨v, r', ⟨s', r'', hchars, rfl, rfl⟩, rfl, rfl⟩ := h
  exact ⟨s', _, rfl, hchars⟩

/-- The first of the parts that are read. -/
theorem many_head {α : Type} {item : Bytes → Option (α × Bytes)} {close : UInt8} {n : ℕ}
    {b r : Bytes} {ys : List α} (h : many item close (n + 1) b = some (ys, r)) :
    ∃ y zs r', ys = y :: zs ∧ item (skipBlanks b) = some (y, r') := by
  simp only [many, Option.bind_eq_bind, Option.bind_eq_some_iff, Prod.exists] at h
  obtain ⟨y, r', hitem, h⟩ := h
  split at h
  · cases h
  · split at h
    · simp only [Option.map_eq_some_iff, Prod.exists, Prod.mk.injEq] at h
      obtain ⟨zs, -, -, rfl, -⟩ := h
      exact ⟨y, zs, r', rfl, hitem⟩
    · split at h
      · exact ⟨y, [], r', (Prod.mk.inj (Option.some.inj h)).1.symm, hitem⟩
      · cases h

/-- The members of an object that is read. -/
theorem many_of_parse {left : ℕ} {b : Bytes} {ms : List (Bytes × Json)} (hleft : b.length = left)
    (hopen : ∃ c cs, b = c :: cs ∧ Opening c) (h : parse (123 :: b) = some (.object ms)) :
    ∃ r, many (member (value left)) 125 b.length b = some (ms, r) := by
  obtain ⟨c, cs, rfl, hc⟩ := hopen
  have hlen : (123 :: c :: cs).length = left + 1 := by
    rw [List.length_cons, hleft]
  rw [parse, hlen, skipBlanks_cons (by decide), value] at h
  simp only [parts, skipBlanks_cons hc.1, if_neg hc.2.2] at h
  cases hread : many (member (value left)) 125 (c :: cs).length (c :: cs) with
  | none =>
    rw [hread] at h
    cases h
  | some p =>
    rw [hread] at h
    simp only [Option.map_some] at h
    split at h
    · exact ⟨p.2, by rw [← Json.object.inj (Option.some.inj h)]⟩
    · cases h

/-- A string in an object that was printed as it stands, with another member behind it, is
the one read under its name only when it needs no escape. -/
theorem plain_of_parse {left : ℕ} {pre : List Bytes} {xs ms : List (Bytes × Json)}
    {k s rest text : Bytes} (hleft : text.length = left + 1)
    (hpre : List.Forall₂ (Parses (member (value left))) pre xs)
    (htext : text = 123 :: (each pre ++ openMember k s rest)) (hk : Plain k)
    (hnew : ∀ m ∈ xs, m.1 ≠ k) (hparse : parse text = some (.object ms))
    (hlook : ms.lookup k = some (.string s)) : Plain s := by
  have hopen : ∃ c cs, each pre ++ openMember k s rest = c :: cs ∧ Opening c := by
    cases hpre with
    | nil => exact ⟨34, _, rfl, by decide⟩
    | cons hfirst _ =>
      obtain ⟨c, cs, rfl, hc⟩ := hfirst.opens
      exact ⟨c, _, rfl, hc⟩
  subst htext
  obtain ⟨r, hmany⟩ := many_of_parse (by simpa using hleft) hopen hparse
  have hlen := length_le_each pre
  obtain ⟨m, hm⟩ : ∃ m, (each pre ++ openMember k s rest).length = pre.length + (m + 1) := by
    refine ⟨(each pre ++ openMember k s rest).length - pre.length - 1, ?_⟩
    simp only [openMember, List.length_append, List.length_cons]
    omega
  rw [hm, many_each hpre] at hmany
  simp only [Option.map_eq_some_iff, Prod.exists, Prod.mk.injEq] at hmany
  obtain ⟨ys, r', hmany, rfl, rfl⟩ := hmany
  -- the member of the string is the first that is not known
  obtain ⟨y, zs, r'', rfl, hitem⟩ := many_head hmany
  rw [openMember, skipBlanks_cons (by decide)] at hitem
  obtain ⟨s', n, rfl, hchars⟩ := member_openMember hk hitem
  have hnone : xs.lookup k = none := by
    rw [List.lookup_eq_none_iff]
    intro p hp
    simpa using (hnew p hp).symm
  rw [List.lookup_append, hnone, Option.none_or, List.lookup_cons_self] at hlook
  rw [Json.string.inj (Option.some.inj hlook)] at hchars
  exact plain_of_chars hchars

end MoonFlare.StrictJson
