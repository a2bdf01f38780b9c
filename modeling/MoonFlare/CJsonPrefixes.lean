import MoonFlare.CJsonRoundTrip

/-!
# Cut texts

An object or an array ends with its own bracket, so a parser that got the whole
of it does not read on: more text behind it changes nothing, and a part of it is
no value. Only a number at the very end of a text could go on.
-/

namespace MoonFlare.CJson

open Decimal

/-- A text in which a number that stands in front of it ends. -/
def EndsNumber (r : Bytes) : Prop := ∃ c ∈ r, isNumberByte c = false

/-- A parser of values reads the same with more text behind what it left. -/
structure Extends (value : Bytes → Option (CJson × Bytes)) : Prop where
  empty : value [] = none
  extend : ∀ {b v r}, value b = some (v, r) → EndsNumber r → ∀ t, value (b ++ t) = some (v, r ++ t)

variable {b r t : Bytes}

/-! ## Strings and spaces -/

theorem splitQuote_append {s : Bytes} (h : splitQuote b = some (s, r)) (t : Bytes) :
    splitQuote (b ++ t) = some (s, r ++ t) := by
  fun_induction splitQuote b generalizing s r with
  | case1 => simp at h
  | case2 =>
    obtain ⟨rfl, rfl⟩ := Prod.mk.inj (Option.some.inj h)
    cases t <;> simp [splitQuote]
  | case3 c hc => simp at h
  | case4 =>
    obtain ⟨rfl, rfl⟩ := Prod.mk.inj (Option.some.inj h)
    simp [splitQuote]
  | case5 c rest hne ih =>
    obtain ⟨⟨s', r'⟩, hs, heq⟩ := Option.map_eq_some_iff.mp h
    obtain ⟨rfl, rfl⟩ := Prod.mk.inj heq
    simp [splitQuote, ih hs]
  | case6 c d rest hc hne ih =>
    obtain ⟨⟨s', r'⟩, hs, heq⟩ := Option.map_eq_some_iff.mp h
    obtain ⟨rfl, rfl⟩ := Prod.mk.inj heq
    have hmore := ih hs
    rw [List.cons_append] at hmore
    simp [splitQuote, hc, hne, hmore]

theorem parseString_append {s : CString} (h : parseString b = some (s, r)) (t : Bytes) :
    parseString (b ++ t) = some (s, r ++ t) := by
  unfold parseString at h
  split at h
  · next rest =>
    obtain ⟨⟨raw, r'⟩, hq, hs⟩ := Option.bind_eq_some_iff.mp h
    obtain ⟨u, hu, heq⟩ := Option.bind_eq_some_iff.mp hs
    obtain ⟨rfl, rfl⟩ := Prod.mk.inj (Option.some.inj heq)
    simp [parseString, splitQuote_append hq, hu]
  · exact absurd h (by simp)

/-- Spaces in front of a text that does not end within them. -/
theorem skipSpace_append {c : UInt8} (h : skipSpace b = c :: r) (t : Bytes) :
    skipSpace (b ++ t) = c :: (r ++ t) := by
  induction b with
  | nil => simp [skipSpace] at h
  | cons x b ih =>
    by_cases hx : x ≤ 32
    · simp only [skipSpace, List.cons_append, List.dropWhile_cons, hx, decide_true, if_true]
        at h ih ⊢
      exact ih h
    · simp only [skipSpace, List.cons_append, List.dropWhile_cons, hx, decide_false,
        Bool.false_eq_true, if_false] at h ⊢
      rw [← List.cons_append, ← List.cons_append, h]

/-! ## Values -/

/-- A number in front of a text that ends it. -/
theorem parseNumber_append {v : Double} (h : Double.parseNumber b = some (v, r))
    (hend : EndsNumber r) (t : Bytes) : Double.parseNumber (b ++ t) = some (v, r ++ t) := by
  obtain ⟨⟨w, rest⟩, hread, heq⟩ := Option.map_eq_some_iff.mp h
  obtain ⟨rfl, rfl⟩ := Prod.mk.inj heq
  obtain ⟨c, hc, hnumber⟩ := hend
  have hmem : c ∈ b := List.mem_of_mem_drop hc
  have hne : (b.takeWhile isNumberByte).length ≠ b.length := by
    intro hlen
    have hall := (List.takeWhile_prefix isNumberByte (l := b)).eq_of_length hlen
    rw [← hall] at hmem
    exact absurd (List.mem_takeWhile_imp hmem) (by simp [hnumber])
  have htoken : (b ++ t).takeWhile isNumberByte = b.takeWhile isNumberByte := by
    rw [List.takeWhile_append, if_neg hne]
  have hle : ((b.takeWhile isNumberByte).take 63).length - rest.length ≤ b.length := by
    have htake := (List.takeWhile_prefix isNumberByte (l := b)).length_le
    rw [List.length_take]
    omega
  rw [Double.parseNumber, htoken, hread, Option.map_some]
  simp only [List.drop_append_of_le_length hle]

/-- A literal does not stand where another byte begins. -/
theorem not_literal {word : String} {x c : UInt8} {xs : Bytes} (hword : ascii word = x :: xs)
    (hne : x ≠ c) (cs : Bytes) : (ascii word).isPrefixOf (c :: cs) = false := by
  simp [hword, List.isPrefixOf, hne]

theorem literal_head {word : String} {x : UInt8} {xs : Bytes} (hword : ascii word = x :: xs)
    (h : (ascii word).isPrefixOf b = true) : ∃ cs, b = x :: cs := by
  obtain ⟨t, rfl⟩ := List.isPrefixOf_iff_prefix.mp h
  exact ⟨xs ++ t, by rw [hword]; rfl⟩

/-- A literal in front of more text. -/
theorem literal_append {word : String} (h : (ascii word).isPrefixOf b = true) (t : Bytes) :
    (ascii word).isPrefixOf (b ++ t) = true ∧
      ∀ n, n = (ascii word).length → (b ++ t).drop n = b.drop n ++ t := by
  obtain ⟨u, rfl⟩ := List.isPrefixOf_iff_prefix.mp h
  refine ⟨List.isPrefixOf_iff_prefix.mpr ⟨u ++ t, by rw [List.append_assoc]⟩, ?_⟩
  rintro n rfl
  rw [List.append_assoc, List.drop_left, List.drop_left]

theorem ascii_null : ascii "null" = 110 :: ascii "ull" := rfl

theorem ascii_false : ascii "false" = 102 :: ascii "alse" := rfl

theorem ascii_true : ascii "true" = 116 :: ascii "rue" := rfl

theorem extends_parseScalar : Extends parseScalar where
  empty := by simp [parseScalar, ascii]
  extend {b v r} h hend t := by
    rw [parseScalar.eq_def] at h
    split at h
    · next hnull =>
      obtain ⟨rfl, rfl⟩ := Prod.mk.inj (Option.some.inj h)
      obtain ⟨hmore, hdrop⟩ := literal_append hnull t
      rw [parseScalar.eq_def, if_pos hmore, hdrop 4 rfl]
    split at h
    · next hfalse =>
      obtain ⟨rfl, rfl⟩ := Prod.mk.inj (Option.some.inj h)
      obtain ⟨hmore, hdrop⟩ := literal_append hfalse t
      obtain ⟨cs, hcs⟩ := literal_head ascii_false hmore
      have hnull := not_literal ascii_null (c := 102) (by decide) cs
      rw [parseScalar.eq_def, hcs, hnull, ← hcs, hmore, hdrop 5 rfl]
      rfl
    split at h
    · next htrue =>
      obtain ⟨rfl, rfl⟩ := Prod.mk.inj (Option.some.inj h)
      obtain ⟨hmore, hdrop⟩ := literal_append htrue t
      obtain ⟨cs, hcs⟩ := literal_head ascii_true hmore
      have hnull := not_literal ascii_null (c := 116) (by decide) cs
      have hfalse := not_literal ascii_false (c := 116) (by decide) cs
      rw [parseScalar.eq_def, hcs, hnull, hfalse, ← hcs, hmore, hdrop 4 rfl]
      rfl
    split at h
    · exact absurd h (by simp)
    · next c cs =>
      split at h
      · next hc =>
        obtain ⟨⟨s, r'⟩, hs, heq⟩ := Option.map_eq_some_iff.mp h
        obtain ⟨rfl, rfl⟩ := Prod.mk.inj heq
        have hmore := parseString_append hs t
        rw [List.cons_append] at hmore ⊢
        rw [parseScalar.eq_def, hc, not_literal ascii_null (by decide),
          not_literal ascii_false (by decide), not_literal ascii_true (by decide), ← hc]
        simp [hc ▸ hmore, hc]
      · split at h
        · next hc =>
          obtain ⟨⟨w, r'⟩, hw, heq⟩ := Option.map_eq_some_iff.mp h
          obtain ⟨rfl, rfl⟩ := Prod.mk.inj heq
          have hmore := parseNumber_append hw hend t
          rw [List.cons_append] at hmore ⊢
          rw [parseScalar_number hc, hmore]
          rfl
        · exact absurd h (by simp)

/-! ## Lists of values -/

variable {value : Bytes → Option (CJson × Bytes)}

/-- A value behind spaces, with a byte of the list's own behind it. -/
theorem Extends.item (hvalue : Extends value) {v : CJson} {c : UInt8} {s : Bytes}
    (h : value (skipSpace b) = some (v, r)) (hr : skipSpace r = c :: s)
    (hc : isNumberByte c = false) (t : Bytes) :
    value (skipSpace (b ++ t)) = some (v, r ++ t) ∧ skipSpace (r ++ t) = c :: (s ++ t) := by
  refine ⟨?_, skipSpace_append hr t⟩
  have hend : EndsNumber r := by
    have hmem : c ∈ skipSpace r := by
      rw [hr]
      exact List.mem_cons_self
    exact ⟨c, (List.dropWhile_sublist _).mem hmem, hc⟩
  cases hb : skipSpace b with
  | nil =>
    rw [hb, hvalue.empty] at h
    exact absurd h (by simp)
  | cons x xs =>
    rw [skipSpace_append hb, ← List.cons_append, ← hb]
    exact hvalue.extend h hend t

theorem parseItems_append (hvalue : Extends value) (t : Bytes) : ∀ (n m : ℕ) (b : Bytes)
    (vs : List CJson) (r : Bytes), parseItems value n b = some (vs, r) → n ≤ m →
      parseItems value m (b ++ t) = some (vs, r ++ t)
  | 0, _, _, _, _, h, _ => by simp [parseItems] at h
  | n + 1, 0, _, _, _, _, hle => by omega
  | n + 1, m + 1, b, vs, r, h, hle => by
    rw [parseItems] at h
    obtain ⟨⟨v, r₁⟩, hv, hrest⟩ := Option.bind_eq_some_iff.mp h
    simp only at hrest
    split at hrest
    · next s hs =>
      obtain ⟨⟨ws, u⟩, hws, heq⟩ := Option.map_eq_some_iff.mp hrest
      obtain ⟨rfl, rfl⟩ := Prod.mk.inj heq
      obtain ⟨hv', hs'⟩ := hvalue.item hv hs (by decide) t
      have ih := parseItems_append hvalue t n m s ws u hws (by omega)
      simp [parseItems, hv', hs', ih]
    · next s hs =>
      obtain ⟨rfl, rfl⟩ := Prod.mk.inj (Option.some.inj hrest)
      obtain ⟨hv', hs'⟩ := hvalue.item hv hs (by decide) t
      simp [parseItems, hv', hs']
    · exact absurd hrest (by simp)

/-- A key behind spaces. -/
theorem parseString_skipSpace {k : CString} (h : parseString (skipSpace b) = some (k, r))
    (t : Bytes) : parseString (skipSpace (b ++ t)) = some (k, r ++ t) := by
  cases hb : skipSpace b with
  | nil =>
    rw [hb] at h
    exact absurd h (by simp [parseString])
  | cons x xs =>
    rw [skipSpace_append hb, ← List.cons_append, ← hb]
    exact parseString_append h t

theorem parseMembers_append (hvalue : Extends value) (t : Bytes) : ∀ (n m : ℕ) (b : Bytes)
    (ms : List (CString × CJson)) (r : Bytes), parseMembers value n b = some (ms, r) → n ≤ m →
      parseMembers value m (b ++ t) = some (ms, r ++ t)
  | 0, _, _, _, _, h, _ => by simp [parseMembers] at h
  | n + 1, 0, _, _, _, _, hle => by omega
  | n + 1, m + 1, b, ms, r, h, hle => by
    rw [parseMembers] at h
    obtain ⟨⟨k, r₀⟩, hk, hcolon⟩ := Option.bind_eq_some_iff.mp h
    have hk' := parseString_skipSpace hk t
    simp only at hcolon
    split at hcolon
    · next r₁ hr₁ =>
      have hr₁' := skipSpace_append hr₁ t
      obtain ⟨⟨v, r₂⟩, hv, hrest⟩ := Option.bind_eq_some_iff.mp hcolon
      simp only at hrest
      split at hrest
      · next s hs =>
        obtain ⟨⟨ws, u⟩, hws, heq⟩ := Option.map_eq_some_iff.mp hrest
        obtain ⟨rfl, rfl⟩ := Prod.mk.inj heq
        obtain ⟨hv', hs'⟩ := hvalue.item hv hs (by decide) t
        have ih := parseMembers_append hvalue t n m s ws u hws (by omega)
        simp [parseMembers, hk', hr₁', hv', hs', ih]
      · next s hs =>
        obtain ⟨rfl, rfl⟩ := Prod.mk.inj (Option.some.inj hrest)
        obtain ⟨hv', hs'⟩ := hvalue.item hv hs (by decide) t
        simp [parseMembers, hk', hr₁', hv', hs']
      · exact absurd hrest (by simp)
    · exact absurd hcolon (by simp)

theorem parseArray_append (hvalue : Extends value) {v : CJson}
    (h : parseArray value b = some (v, r)) (t : Bytes) :
    parseArray value (b ++ t) = some (v, r ++ t) := by
  unfold parseArray at h
  split at h
  · next r' hr =>
    obtain ⟨rfl, rfl⟩ := Prod.mk.inj (Option.some.inj h)
    simp [parseArray, skipSpace_append hr]
  · next hno =>
    obtain ⟨⟨vs, r'⟩, hvs, heq⟩ := Option.map_eq_some_iff.mp h
    obtain ⟨rfl, rfl⟩ := Prod.mk.inj heq
    have hne : skipSpace b ≠ [] := by
      intro hnil
      rw [hnil] at hvs
      exact absurd hvs (by simp [parseItems])
    obtain ⟨c, cs, hc⟩ := List.exists_cons_of_ne_nil hne
    have hspace : skipSpace (b ++ t) = skipSpace b ++ t := by
      rw [skipSpace_append hc, hc, List.cons_append]
    -- the number of rounds grows with the text
    have hle : (skipSpace b).length ≤ (skipSpace b ++ t).length := by simp
    have hmore := parseItems_append hvalue t _ _ _ _ _ hvs hle
    have hbracket : c ≠ 93 := by
      rintro rfl
      exact hno _ hc
    rw [parseArray, hspace]
    rw [hc, List.cons_append] at hmore ⊢
    split
    · next r'' heq => exact absurd (List.cons.inj heq).1 hbracket
    · rw [hmore]
      rfl

theorem parseObject_append (hvalue : Extends value) {v : CJson}
    (h : parseObject value b = some (v, r)) (t : Bytes) :
    parseObject value (b ++ t) = some (v, r ++ t) := by
  unfold parseObject at h
  split at h
  · next r' hr =>
    obtain ⟨rfl, rfl⟩ := Prod.mk.inj (Option.some.inj h)
    simp [parseObject, skipSpace_append hr]
  · next hno =>
    obtain ⟨⟨ms, r'⟩, hms, heq⟩ := Option.map_eq_some_iff.mp h
    obtain ⟨rfl, rfl⟩ := Prod.mk.inj heq
    have hne : skipSpace b ≠ [] := by
      intro hnil
      rw [hnil] at hms
      exact absurd hms (by simp [parseMembers])
    obtain ⟨c, cs, hc⟩ := List.exists_cons_of_ne_nil hne
    have hspace : skipSpace (b ++ t) = skipSpace b ++ t := by
      rw [skipSpace_append hc, hc, List.cons_append]
    have hle : (skipSpace b).length ≤ (skipSpace b ++ t).length := by simp
    have hmore := parseMembers_append hvalue t _ _ _ _ _ hms hle
    have hbracket : c ≠ 125 := by
      rintro rfl
      exact hno _ hc
    rw [parseObject, hspace]
    rw [hc, List.cons_append] at hmore ⊢
    split
    · next r'' heq => exact absurd (List.cons.inj heq).1 hbracket
    · rw [hmore]
      rfl

/-! ## Cut texts -/

theorem extends_parseValue : ∀ left, Extends (parseValue left)
  | 0 => extends_parseScalar
  | left + 1 =>
    { empty := extends_parseScalar.empty
      extend := by
        intro b v r h hend t
        have hvalue := extends_parseValue left
        unfold parseValue at h
        split at h
        · rw [List.cons_append, parseValue]
          exact parseArray_append hvalue h t
        · rw [List.cons_append, parseValue]
          exact parseObject_append hvalue h t
        · next harray hobject =>
          cases b with
          | nil =>
            rw [extends_parseScalar.empty] at h
            exact absurd h (by simp)
          | cons c cs =>
            have hmore := extends_parseScalar.extend h hend t
            rw [List.cons_append] at hmore ⊢
            rw [parseValue_scalar]
            · exact hmore
            · rintro rfl
              exact harray cs rfl
            · rintro rfl
              exact hobject cs rfl }

/-- An object or an array whose brackets are closed does not change with more text behind it. -/
theorem parseValue_closed {left : ℕ} {c : UInt8} {cs : Bytes} {v : CJson}
    (hc : c = 91 ∨ c = 123) (h : parseValue left (c :: cs) = some (v, r)) (t : Bytes) :
    parseValue left (c :: cs ++ t) = some (v, r ++ t) := by
  cases left with
  | zero =>
    have hscalar : parseScalar (c :: cs) = none := by
      rcases hc with rfl | rfl <;> simp [parseScalar, ascii, List.isPrefixOf]
    rw [parseValue, hscalar] at h
    exact absurd h (by simp)
  | succ left =>
    rcases hc with rfl | rfl
    · rw [parseValue] at h
      rw [List.cons_append, parseValue]
      exact parseArray_append (extends_parseValue left) h t
    · rw [parseValue] at h
      rw [List.cons_append, parseValue]
      exact parseObject_append (extends_parseValue left) h t

/-- Of the text of an object or an array, only the whole is read. -/
theorem parse_cut {j v : CJson} {p : CString} (hj : j.isObject = true ∨ j.isArray = true)
    (hdepth : depth j ≤ nestingLimit) (hpre : p.bytes <+: (printText j).bytes)
    (h : parse p = some v) : p = printText j := by
  have hopen : ∃ c cs, print j = c :: cs ∧ (c = 91 ∨ c = 123) := by
    cases j with
    | array xs => exact ⟨91, _, rfl, Or.inl rfl⟩
    | object ms => exact ⟨123, _, rfl, Or.inr rfl⟩
    | null => simp [isObject, isArray] at hj
    | bool b => simp [isObject, isArray] at hj
    | number v => simp [isObject, isArray] at hj
    | string s => simp [isObject, isArray] at hj
  obtain ⟨c, cs, hprint, hc⟩ := hopen
  obtain ⟨t, ht⟩ := hpre
  have htext : p.bytes ++ t = print j := ht
  cases hp : p.bytes with
  | nil =>
    rw [parse, hp] at h
    simp [skipBom, skipSpace, (extends_parseValue nestingLimit).empty] at h
  | cons d ds =>
    obtain rfl : d = c := by
      rw [hp, hprint] at htext
      exact (List.cons.inj htext).1
    have hbom : skipBom (p.length + 1) (d :: ds) = d :: ds := by
      have hne : ([0xEF, 0xBB, 0xBF] : Bytes).isPrefixOf (d :: ds) = false := by
        rcases hc with rfl | rfl <;> simp [List.isPrefixOf]
      simp [skipBom, hne]
    have hspace : skipSpace (d :: ds) = d :: ds :=
      skipSpace_cons (by rcases hc with rfl | rfl <;> decide) ds
    rw [parse, hp, hbom, hspace] at h
    obtain ⟨⟨w, r⟩, hread, -⟩ := Option.map_eq_some_iff.mp h
    have hmore := parseValue_closed hc hread t
    have hwhole := parseValue_print j nestingLimit [] hdepth (by simp [Ends])
    rw [← hp, htext, ← List.append_nil (print j), hwhole] at hmore
    have hnil := (Prod.mk.inj (Option.some.inj hmore)).2
    have ht' : t = [] := (List.append_eq_nil_iff.mp hnil.symm).2
    refine CString.ext ?_
    rw [ht', List.append_nil] at htext
    exact htext

end MoonFlare.CJson
