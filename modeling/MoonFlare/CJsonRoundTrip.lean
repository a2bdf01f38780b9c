import MoonFlare.CJsonText

/-!
# Reading printed JSON back

`cJSON_Parse` of what `cJSON_PrintUnformatted` wrote is the same tree, with
every number replaced by what its digits read as. Strings come back byte for
byte. The text is read in one pass, so each lemma says what is consumed and
leaves the rest of the buffer as a variable.
-/

namespace MoonFlare.CJson

open Decimal

/-- How a byte is written: as itself, as a one letter escape, or by its code. -/
inductive Escaped (b : UInt8) : Bytes → Prop
  | plain (hq : b ≠ 34) (hs : b ≠ 92) : Escaped b [b]
  | letter {c : UInt8} (hc : simpleEscape c = some b) (hu : c ≠ 117) : Escaped b [92, c]
  | code {x y : UInt8} (hx : x ≠ 34 ∧ x ≠ 92) (hy : y ≠ 34 ∧ y ≠ 92)
      (hv : hex4 48 48 x y = b.toNat) (hb : b.toNat < 0x80) : Escaped b [92, 117, 48, 48, x, y]

theorem hexDigit_plain : ∀ n : Fin 16,
    hexDigit (UInt8.ofNat n) ≠ 34 ∧ hexDigit (UInt8.ofNat n) ≠ 92 ∧
      Double.hexOf (hexDigit (UInt8.ofNat n)) = some n.val := by
  decide

theorem escaped_escapeByte (b : UInt8) : Escaped b (escapeByte b) := by
  unfold escapeByte
  split
  · rename_i h
    exact .plain h.2.1 h.2.2
  · rename_i hlow
    split
    · rename_i h; subst h; exact .letter rfl (by decide)
    split
    · rename_i h; subst h; exact .letter rfl (by decide)
    split
    · rename_i h; subst h; exact .letter rfl (by decide)
    split
    · rename_i h; subst h; exact .letter rfl (by decide)
    split
    · rename_i h; subst h; exact .letter rfl (by decide)
    split
    · rename_i h; subst h; exact .letter rfl (by decide)
    split
    · rename_i h; subst h; exact .letter rfl (by decide)
    · have hb : b.toNat ≤ 31 := by
        by_contra hgt
        have : 31 < b := by rw [UInt8.lt_iff_toNat_lt]; exact not_le.mp hgt
        tauto
      obtain ⟨hx1, hx2, hx3⟩ := hexDigit_plain ⟨b.toNat / 16, by omega⟩
      obtain ⟨hy1, hy2, hy3⟩ := hexDigit_plain ⟨b.toNat % 16, by omega⟩
      have hdiv : b / 16 = UInt8.ofNat (b.toNat / 16) := by
        rw [← UInt8.toNat_inj]; simp; omega
      have hmod : b % 16 = UInt8.ofNat (b.toNat % 16) := by
        rw [← UInt8.toNat_inj]; simp; omega
      rw [hdiv, hmod]
      refine .code ⟨hx1, hx2⟩ ⟨hy1, hy2⟩ ?_ (by omega)
      have h48 : Double.hexOf 48 = some 0 := rfl
      simp only [hex4, h48, hx3, hy3]
      omega

/-- An escaped byte is passed over whole, quote or not. -/
theorem splitQuote_escapeByte (b : UInt8) (rest : Bytes) :
    splitQuote (escapeByte b ++ rest) =
      (splitQuote rest).map fun (s, r) => (escapeByte b ++ s, r) := by
  have hplain : ∀ (c : UInt8) (t : Bytes), c ≠ 34 → c ≠ 92 →
      splitQuote (c :: t) = (splitQuote t).map fun (s, r) => (c :: s, r) := by
    intro c t hq hs
    cases t with
    | nil => simp [splitQuote, hq]
    | cons d t => simp [splitQuote, hq, hs]
  have hb := escaped_escapeByte b
  generalize escapeByte b = e at hb ⊢
  cases hb with
  | plain hq hs => exact hplain b rest hq hs
  | letter hc hu => simp [splitQuote]
  | code hx hy hv hb =>
    simp only [List.cons_append, List.nil_append]
    rw [splitQuote, if_neg (by decide), if_pos rfl, hplain 48 _ (by decide) (by decide),
      hplain 48 _ (by decide) (by decide), hplain _ _ hx.1 hx.2, hplain _ _ hy.1 hy.2]
    simp only [Option.map_map]
    rfl

/-- Undoing an escape gives the byte. -/
theorem unescape_escapeByte (b : UInt8) (rest : Bytes) :
    unescape (escapeByte b ++ rest) = (unescape rest).map (b :: ·) := by
  have hb := escaped_escapeByte b
  generalize escapeByte b = e at hb ⊢
  cases hb with
  | plain hq hs =>
    simp only [List.cons_append, List.nil_append]
    rw [unescape]
    · exact fun _ _ _ _ _ h _ => hs h
    · exact fun _ _ h _ => hs h
  | letter hc hu =>
    simp only [List.cons_append, List.nil_append]
    rw [unescape]
    · simp [hc]
    · exact fun _ _ _ _ _ h _ => hu h
  | code hx hy hv hb =>
    simp only [List.cons_append, List.nil_append]
    rw [unescape.eq_def]
    simp only [hv, if_neg (show ¬(0xDC00 ≤ b.toNat ∧ b.toNat ≤ 0xDFFF) by omega),
      if_neg (show ¬(0xD800 ≤ b.toNat ∧ b.toNat ≤ 0xDBFF) by omega), utf8, if_pos hb]
    simp

theorem splitQuote_flatMap (bs rest : Bytes) :
    splitQuote (bs.flatMap escapeByte ++ 34 :: rest) = some (bs.flatMap escapeByte, rest) := by
  induction bs with
  | nil => cases rest <;> simp [splitQuote]
  | cons b bs ih =>
    rw [List.flatMap_cons, List.append_assoc, splitQuote_escapeByte, ih]
    rfl

theorem unescape_flatMap (bs : Bytes) : unescape (bs.flatMap escapeByte) = some bs := by
  induction bs with
  | nil => simp [unescape]
  | cons b bs ih => rw [List.flatMap_cons, unescape_escapeByte, ih]; rfl

/-- `parse_string` reads a printed string up to its closing quote. -/
theorem parseString_printString (s : CString) (rest : Bytes) :
    parseString (printString s ++ rest) = some (s, rest) := by
  simp only [printString, List.cons_append, List.append_assoc, List.nil_append, parseString,
    splitQuote_flatMap, Option.bind_eq_bind, Option.bind_some, unescape_flatMap,
    CString.ofBytes_bytes]

/-- What the first byte of a printed item is not. -/
def Opening (c : UInt8) : Prop := 32 < c ∧ c ≠ 93 ∧ c ≠ 125 ∧ c ≠ 0xEF

instance (c : UInt8) : Decidable (Opening c) := inferInstanceAs (Decidable (_ ∧ _))

theorem signedText_head (neg : Bool) {d : Decimal} (hd : d.WellFormed) :
    ∃ c cs, signedText neg d = c :: cs ∧ (c = 45 ∨ 48 ≤ c ∧ c ≤ 57) := by
  cases neg with
  | true => exact ⟨45, d.text, rfl, Or.inl rfl⟩
  | false =>
    obtain ⟨e, es, he⟩ := List.exists_cons_of_ne_nil hd.1
    refine ⟨digitByte e, es.map digitByte ++ (fracText d.frac ++ expText d.exp), ?_, Or.inr ?_⟩
    · simp [signedText, text, he]
    · exact (show ∀ d : Fin 10, 48 ≤ digitByte d ∧ digitByte d ≤ 57 by decide) e

/-- What a printed number starts with. -/
theorem printNumber_fin_head (d : FinDouble) :
    ∃ c cs, (Double.fin d).printNumber = c :: cs ∧ (c = 45 ∨ 48 ≤ c ∧ c ≤ 57) :=
  signedText_head _ (Double.wellFormed_literal d)

theorem opening_of_number {c : UInt8} (h : c = 45 ∨ 48 ≤ c ∧ c ≤ 57) : Opening c := by
  simp only [Opening, ← UInt8.toNat_inj, ne_eq, UInt8.le_iff_toNat_le, UInt8.lt_iff_toNat_lt] at h ⊢
  simp at h ⊢
  omega

/-- A printed item starts with a byte that opens a value. -/
theorem print_head (j : CJson) : ∃ c cs, print j = c :: cs ∧ Opening c := by
  cases j with
  | null => exact ⟨110, ascii "ull", rfl, by decide⟩
  | bool b => cases b with
    | false => exact ⟨102, ascii "alse", rfl, by decide⟩
    | true => exact ⟨116, ascii "rue", rfl, by decide⟩
  | number v => cases v with
    | nan => exact ⟨110, ascii "ull", rfl, by decide⟩
    | inf neg => exact ⟨110, ascii "ull", rfl, by decide⟩
    | fin d =>
      obtain ⟨c, cs, heq, hc⟩ := printNumber_fin_head d
      exact ⟨c, cs, by rw [print, heq], opening_of_number hc⟩
  | string s => exact ⟨34, _, rfl, by decide⟩
  | array xs => exact ⟨91, _, rfl, by decide⟩
  | object ms => exact ⟨123, _, rfl, by decide⟩

/-- Nothing is skipped in front of a byte past the blank. -/
theorem skipSpace_cons {c : UInt8} (hc : 32 < c) (rest : Bytes) :
    skipSpace (c :: rest) = c :: rest := by
  have hle : ¬c ≤ 32 := UInt8.not_le.mpr hc
  simp [skipSpace, hle]

theorem skipSpace_print (j : CJson) (rest : Bytes) :
    skipSpace (print j ++ rest) = print j ++ rest := by
  obtain ⟨c, cs, heq, hc, -⟩ := print_head j
  rw [heq, List.cons_append, skipSpace_cons hc]

theorem skipSpace_printString (s : CString) (rest : Bytes) :
    skipSpace (printString s ++ rest) = printString s ++ rest :=
  skipSpace_cons (by decide) _

theorem ends_cons {c : UInt8} (h : isNumberByte c = false) (rest : Bytes) : Ends (c :: rest) := by
  simp [Ends, h]

/-- A number is not taken for a literal or a string. -/
theorem parseScalar_number {c : UInt8} {cs : Bytes} (h : c = 45 ∨ 48 ≤ c ∧ c ≤ 57) :
    parseScalar (c :: cs) = (Double.parseNumber (c :: cs)).map fun (v, r) => (number v, r) := by
  have hne : c ≠ 110 ∧ c ≠ 102 ∧ c ≠ 116 ∧ c ≠ 34 := by
    simp only [ne_eq, ← UInt8.toNat_inj, UInt8.le_iff_toNat_le] at h ⊢
    simp at h ⊢
    omega
  have hn : (ascii "null").isPrefixOf (c :: cs) = false := by
    simp [ascii, List.isPrefixOf, Ne.symm hne.1]
  have hf : (ascii "false").isPrefixOf (c :: cs) = false := by
    simp [ascii, List.isPrefixOf, Ne.symm hne.2.1]
  have ht : (ascii "true").isPrefixOf (c :: cs) = false := by
    simp [ascii, List.isPrefixOf, Ne.symm hne.2.2.1]
  simp only [parseScalar, hn, hf, ht, Bool.false_eq_true, if_false, if_neg hne.2.2.2, if_pos h]

/-- Scalars are read without going deeper, at every level. -/
theorem parseValue_scalar (left : ℕ) {c : UInt8} (cs : Bytes) (h91 : c ≠ 91) (h123 : c ≠ 123) :
    parseValue left (c :: cs) = parseScalar (c :: cs) := by
  cases left with
  | zero => rfl
  | succ left =>
    rw [parseValue]
    · exact fun _ h => h91 (List.cons.inj h).1
    · exact fun _ h => h123 (List.cons.inj h).1

theorem one_le_length_print (j : CJson) : 1 ≤ (print j).length := by
  obtain ⟨c, cs, heq, -⟩ := print_head j
  simp [heq]

/-- Every element takes at least a byte of text. -/
theorem length_le_printItems (xs : List CJson) : xs.length ≤ (printItems xs).length := by
  induction xs with
  | nil => simp
  | cons x xs ih =>
    have hx := one_le_length_print x
    cases xs with
    | nil => simpa [printItems] using hx
    | cons y ys =>
      simp only [printItems, List.length_append, List.length_cons] at ih ⊢
      omega

theorem length_le_printMembers (ms : List (CString × CJson)) :
    ms.length ≤ (printMembers ms).length := by
  induction ms with
  | nil => simp
  | cons m ms ih =>
    obtain ⟨k, x⟩ := m
    cases ms with
    | nil =>
      simp only [printMembers, List.length_append, List.length_cons, List.length_nil]
      omega
    | cons y ys =>
      simp only [printMembers, List.length_append, List.length_cons] at ih ⊢
      omega

mutual

/-- Reading a printed item: the induction is on the item, and the level of
nesting left only has to cover its depth. -/
theorem parseValue_print : ∀ (j : CJson) (left : ℕ) (rest : Bytes), depth j ≤ left → Ends rest →
    parseValue left (print j ++ rest) = some (reprint j, rest)
  | null, left, rest, _, _ => by
    have htext : print null ++ rest = 110 :: (ascii "ull" ++ rest) := rfl
    rw [htext, parseValue_scalar left _ (by decide) (by decide)]
    rfl
  | bool true, left, rest, _, _ => by
    have htext : print (bool true) ++ rest = 116 :: (ascii "rue" ++ rest) := rfl
    rw [htext, parseValue_scalar left _ (by decide) (by decide)]
    rfl
  | bool false, left, rest, _, _ => by
    have htext : print (bool false) ++ rest = 102 :: (ascii "alse" ++ rest) := rfl
    rw [htext, parseValue_scalar left _ (by decide) (by decide)]
    rfl
  | number .nan, left, rest, _, _ => by
    have htext : print (number .nan) ++ rest = 110 :: (ascii "ull" ++ rest) := rfl
    rw [htext, parseValue_scalar left _ (by decide) (by decide)]
    rfl
  | number (.inf neg), left, rest, _, _ => by
    have htext : print (number (.inf neg)) ++ rest = 110 :: (ascii "ull" ++ rest) := rfl
    rw [htext, parseValue_scalar left _ (by decide) (by decide)]
    rfl
  | number (.fin d), left, rest, _, hend => by
    have hread := Double.parseNumber_printNumber d hend
    obtain ⟨c, cs, heq, hc⟩ := printNumber_fin_head d
    have hne : c ≠ 91 ∧ c ≠ 123 := by
      simp only [ne_eq, ← UInt8.toNat_inj, UInt8.le_iff_toNat_le] at hc ⊢
      simp at hc ⊢
      omega
    rw [heq, List.cons_append] at hread
    rw [print, heq, List.cons_append, parseValue_scalar left _ hne.1 hne.2,
      parseScalar_number hc, hread]
    rfl
  | string s, left, rest, _, _ => by
    have hread := parseString_printString s rest
    rw [printString, List.cons_append, List.append_assoc, List.singleton_append] at hread
    rw [print, printString, List.cons_append, List.append_assoc, List.singleton_append,
      parseValue_scalar left _ (by decide) (by decide)]
    simp [parseScalar, ascii, List.isPrefixOf, hread, reprint]
  | array [], left + 1, rest, _, _ => by
    simp [print, printItems, parseValue, parseArray, skipSpace, reprint, reprintItems]
  | array (x :: xs), left + 1, rest, h, _ => by
    have hdepth : depthItems (x :: xs) ≤ left := by simp only [depth] at h; omega
    have hitems := parseItems_print (x :: xs) left
      (printItems (x :: xs) ++ 93 :: rest).length rest (by simp) hdepth
      (by
        have := length_le_printItems (x :: xs)
        simp only [List.length_append, List.length_cons] at this ⊢
        omega)
    obtain ⟨c, cs, heq, hc, h93, -⟩ := print_head x
    have hhead : ∃ t, printItems (x :: xs) ++ 93 :: rest = c :: t := by
      cases xs <;> simp [printItems, heq]
    obtain ⟨t, ht⟩ := hhead
    have htext : print (array (x :: xs)) ++ rest =
        91 :: (printItems (x :: xs) ++ 93 :: rest) := by
      simp [print]
    rw [htext, parseValue, parseArray]
    rw [ht] at hitems ⊢
    rw [skipSpace_cons hc]
    split
    · rename_i heq'
      exact absurd (List.cons.inj heq').1 h93
    · rw [hitems]
      simp [reprint]
  | object [], left + 1, rest, _, _ => by
    simp [print, printMembers, parseValue, parseObject, skipSpace, reprint, reprintMembers]
  | object ((k, x) :: ms), left + 1, rest, h, _ => by
    have hdepth : depthMembers ((k, x) :: ms) ≤ left := by simp only [depth] at h; omega
    have hmembers := parseMembers_print ((k, x) :: ms) left
      (printMembers ((k, x) :: ms) ++ 125 :: rest).length rest (by simp) hdepth
      (by
        have := length_le_printMembers ((k, x) :: ms)
        simp only [List.length_append, List.length_cons] at this ⊢
        omega)
    have hhead : ∃ t, printMembers ((k, x) :: ms) ++ 125 :: rest = 34 :: t := by
      cases ms <;> simp [printMembers, printString]
    obtain ⟨t, ht⟩ := hhead
    have htext : print (object ((k, x) :: ms)) ++ rest =
        123 :: (printMembers ((k, x) :: ms) ++ 125 :: rest) := by
      simp [print]
    rw [htext, parseValue, parseObject]
    rw [ht] at hmembers ⊢
    rw [skipSpace_cons (by decide)]
    split
    · rename_i heq'
      exact absurd (List.cons.inj heq').1 (by decide)
    · rw [hmembers]
      simp [reprint]
  | array xs, 0, _, h, _ => by simp [depth] at h
  | object ms, 0, _, h, _ => by simp [depth] at h

/-- Reading printed elements: one round of the loop for each. -/
theorem parseItems_print : ∀ (xs : List CJson) (left n : ℕ) (rest : Bytes), xs ≠ [] →
    depthItems xs ≤ left → xs.length ≤ n →
    parseItems (parseValue left) n (printItems xs ++ 93 :: rest) = some (reprintItems xs, rest)
  | [], _, _, _, h, _, _ => absurd rfl h
  | [x], left, n, rest, _, hdepth, hn => by
    obtain ⟨m, rfl⟩ : ∃ m, n = m + 1 := ⟨n - 1, by simp at hn; omega⟩
    have hx := parseValue_print x left (93 :: rest)
      (by simp only [depthItems] at hdepth; omega) (ends_cons rfl _)
    simp only [printItems, parseItems, skipSpace_print, hx, Option.bind_eq_bind, Option.bind_some,
      skipSpace_cons (show (32 : UInt8) < 93 by decide), reprintItems]
  | x :: y :: xs, left, n, rest, _, hdepth, hn => by
    obtain ⟨m, rfl⟩ : ∃ m, n = m + 1 := ⟨n - 1, by simp at hn; omega⟩
    have hx := parseValue_print x left (44 :: (printItems (y :: xs) ++ 93 :: rest))
      (by simp only [depthItems] at hdepth; omega) (ends_cons rfl _)
    have hxs := parseItems_print (y :: xs) left m rest (by simp)
      (by simp only [depthItems] at hdepth ⊢; omega) (by simp at hn ⊢; omega)
    simp only [printItems, parseItems, List.append_assoc, List.cons_append, skipSpace_print, hx,
      Option.bind_eq_bind, Option.bind_some, skipSpace_cons (show (32 : UInt8) < 44 by decide), hxs,
      Option.map_some, reprintItems]

/-- Reading printed members: one round of the loop for each. -/
theorem parseMembers_print : ∀ (ms : List (CString × CJson)) (left n : ℕ) (rest : Bytes),
    ms ≠ [] → depthMembers ms ≤ left → ms.length ≤ n →
    parseMembers (parseValue left) n (printMembers ms ++ 125 :: rest) =
      some (reprintMembers ms, rest)
  | [], _, _, _, h, _, _ => absurd rfl h
  | [(k, x)], left, n, rest, _, hdepth, hn => by
    obtain ⟨m, rfl⟩ : ∃ m, n = m + 1 := ⟨n - 1, by simp at hn; omega⟩
    have hx := parseValue_print x left (125 :: rest)
      (by simp only [depthMembers] at hdepth; omega) (ends_cons rfl _)
    simp only [printMembers, parseMembers, List.append_assoc, List.cons_append,
      skipSpace_printString, parseString_printString, Option.bind_eq_bind, Option.bind_some,
      skipSpace_cons (show (32 : UInt8) < 58 by decide), skipSpace_print, hx,
      skipSpace_cons (show (32 : UInt8) < 125 by decide), reprintMembers]
  | (k, x) :: (l, y) :: ms, left, n, rest, _, hdepth, hn => by
    obtain ⟨m, rfl⟩ : ∃ m, n = m + 1 := ⟨n - 1, by simp at hn; omega⟩
    have hx := parseValue_print x left (44 :: (printMembers ((l, y) :: ms) ++ 125 :: rest))
      (by simp only [depthMembers] at hdepth; omega) (ends_cons rfl _)
    have hms := parseMembers_print ((l, y) :: ms) left m rest (by simp)
      (by simp only [depthMembers] at hdepth ⊢; omega) (by simp at hn ⊢; omega)
    simp only [printMembers, parseMembers, List.append_assoc, List.cons_append,
      skipSpace_printString, parseString_printString, Option.bind_eq_bind, Option.bind_some,
      skipSpace_cons (show (32 : UInt8) < 58 by decide), skipSpace_print, hx,
      skipSpace_cons (show (32 : UInt8) < 44 by decide), hms, Option.map_some, reprintMembers]

end

theorem zero_notMem_escapeByte {b : UInt8} (hb : b ≠ 0) : (0 : UInt8) ∉ escapeByte b := by
  have hhex : ∀ n : Fin 16, hexDigit (UInt8.ofNat n) ≠ 0 := by decide
  have hdiv : b / 16 = UInt8.ofNat (b.toNat / 16) := by
    rw [← UInt8.toNat_inj]; simp; have := b.toNat_lt; omega
  have hmod : b % 16 = UInt8.ofNat (b.toNat % 16) := by
    rw [← UInt8.toNat_inj]; simp; omega
  have hx := hhex ⟨b.toNat / 16, by have := b.toNat_lt; omega⟩
  have hy := hhex ⟨b.toNat % 16, by omega⟩
  rw [← hdiv] at hx
  rw [← hmod] at hy
  unfold escapeByte
  repeat' split
  all_goals simp [Ne.symm hb, Ne.symm hx, Ne.symm hy]

theorem zero_notMem_printString (s : CString) : (0 : UInt8) ∉ printString s := by
  simp only [printString, List.mem_cons, List.mem_append, List.mem_flatMap, List.not_mem_nil,
    or_false, not_or]
  refine ⟨by decide, ?_, by decide⟩
  rintro ⟨b, hb, h0⟩
  exact zero_notMem_escapeByte (fun h => s.noNul (h ▸ hb)) h0

mutual

/-- Printed text holds no zero byte. -/
theorem zero_notMem_print : ∀ j : CJson, (0 : UInt8) ∉ print j
  | null => by decide
  | bool true => by decide
  | bool false => by decide
  | number .nan => by decide
  | number (.inf neg) => by simp [print, Double.printNumber, ascii]
  | number (.fin d) => fun h => by
    have hb := isNumberByte_of_mem_signedText h
    exact absurd hb (by decide)
  | string s => zero_notMem_printString s
  | array xs => by simp [print, zero_notMem_printItems xs]
  | object ms => by simp [print, zero_notMem_printMembers ms]

theorem zero_notMem_printItems : ∀ xs : List CJson, (0 : UInt8) ∉ printItems xs
  | [] => by simp [printItems]
  | [x] => by simp [printItems, zero_notMem_print x]
  | x :: y :: xs => by
    simp [printItems, zero_notMem_print x, zero_notMem_printItems (y :: xs)]

theorem zero_notMem_printMembers : ∀ ms : List (CString × CJson), (0 : UInt8) ∉ printMembers ms
  | [] => by simp [printMembers]
  | [(k, x)] => by simp [printMembers, zero_notMem_print x, zero_notMem_printString k]
  | (k, x) :: m :: ms => by
    simp [printMembers, zero_notMem_print x, zero_notMem_printString k,
      zero_notMem_printMembers (m :: ms)]

end

/-- `cJSON_PrintUnformatted`. -/
def printText (j : CJson) : CString := ⟨print j, zero_notMem_print j⟩

/-- `cJSON_Parse` of `cJSON_PrintUnformatted`. -/
theorem parse_printText {j : CJson} (hdepth : depth j ≤ nestingLimit) :
    parse (printText j) = some (reprint j) := by
  have hread := parseValue_print j nestingLimit [] hdepth (by simp [Ends])
  have hskip := skipSpace_print j []
  obtain ⟨c, cs, heq, hopen⟩ := print_head j
  have hbom : skipBom ((printText j).length + 1) (print j) = print j := by
    have hne : ([0xEF, 0xBB, 0xBF] : Bytes).isPrefixOf (print j) = false := by
      simp [heq, List.isPrefixOf, Ne.symm hopen.2.2.2]
    simp [skipBom, hne]
  rw [List.append_nil] at hread hskip
  rw [parse]
  simp only [printText] at hbom ⊢
  rw [hbom, hskip, hread]
  rfl

end MoonFlare.CJson
