import MoonFlare.DecimalText
import MoonFlare.Utf8

/-!
# JSON by the letter

The grammar of JSON as a reader that takes one value off the front of a text: no byte below
a space inside a string, no leading zeros, a digit on each side of the point, and nothing
but blanks behind the value. An array or an object is read as the list of its parts, so
what each part reads as gives what the whole reads as. A string that was printed without
escapes is read back exactly when it needs none.
-/

namespace MoonFlare.StrictJson

open Decimal

/-- A JSON value. A number is its literal, a string its bytes with the escapes undone. -/
inductive Json where
  | null
  | bool (b : Bool)
  | number (neg : Bool) (d : Decimal)
  | string (s : Bytes)
  | array (xs : List Json)
  | object (ms : List (Bytes × Json))

/-! ## The grammar -/

/-- A blank between two tokens. -/
def isBlank (b : UInt8) : Bool := b == 32 || b == 9 || b == 10 || b == 13

/-- Blanks at the front are skipped. -/
def skipBlanks (b : Bytes) : Bytes := b.dropWhile isBlank

/-- The byte that a letter behind a backslash stands for. -/
def letterOf (c : UInt8) : Option UInt8 :=
  if c = 34 ∨ c = 92 ∨ c = 47 then some c
  else if c = 98 then some 8
  else if c = 102 then some 12
  else if c = 110 then some 10
  else if c = 114 then some 13
  else if c = 116 then some 9
  else none

/-- Four hexadecimal digits, and what follows. -/
def hex4 : Bytes → Option (ℕ × Bytes)
  | a :: b :: c :: d :: r => do
    let a ← Double.hexOf a
    let b ← Double.hexOf b
    let c ← Double.hexOf c
    let d ← Double.hexOf d
    some (((a * 16 + b) * 16 + c) * 16 + d, r)
  | _ => none

/-- The encoding of a code point. -/
def encode (u : ℕ) : Bytes := String.utf8EncodeChar (Char.ofNat u)

/-- The second half of a pair of surrogates. -/
def lowSurrogate : Bytes → Option (ℕ × Bytes)
  | 92 :: 117 :: r => do
    let (l, r) ← hex4 r
    if 0xDC00 ≤ l ∧ l ≤ 0xDFFF then some (l, r) else none
  | _ => none

/-- A code point behind its backslash and its letter; half a pair of surrogates is none. -/
def codePoint (b : Bytes) : Option (Bytes × Bytes) := do
  let (u, r) ← hex4 b
  if 0xD800 ≤ u ∧ u ≤ 0xDBFF then
    let (l, r) ← lowSurrogate r
    some (encode (0x10000 + (u - 0xD800) * 0x400 + (l - 0xDC00)), r)
  else if 0xDC00 ≤ u ∧ u ≤ 0xDFFF then none
  else some (encode u, r)

/-- An escape behind its backslash. -/
def escape : Bytes → Option (Bytes × Bytes)
  | [] => none
  | c :: r => if c = 117 then codePoint r else (letterOf c).map fun b => ([b], r)

/-- One character of a string: the bytes it stands for, and what follows. -/
def char : Bytes → Option (Bytes × Bytes)
  | [] => none
  | c :: r => if c = 92 then escape r else if 32 ≤ c ∧ c ≠ 34 then some ([c], r) else none

/-- The characters up to the closing quote. Each takes a byte, so the length of the text
bounds their number. -/
def chars : ℕ → Bytes → Option (Bytes × Bytes)
  | 0, _ => none
  | _ + 1, [] => none
  | n + 1, b :: r =>
    if b = 34 then some ([], r)
    else do
      let (c, r) ← char (b :: r)
      let (s, r) ← chars n r
      some (c ++ s, r)

/-- A string, from the opening quote. -/
def string : Bytes → Option (Bytes × Bytes)
  | [] => none
  | c :: r => if c = 34 then chars r.length r else none

/-- The digits behind a point; a point needs one. -/
def fraction : Bytes → Option (List (Fin 10) × Bytes)
  | 46 :: r => if (spanDigits r).1 = [] then none else some (spanDigits r)
  | b => some ([], b)

/-- The sign and the digits of an exponent; its letter needs a digit. -/
def exponent : Bytes → Option (Option (Bool × List (Fin 10)) × Bytes)
  | [] => some (none, [])
  | c :: r =>
    if c = 101 ∨ c = 69 then
      let (neg, r) := scanSign r
      let (ds, r) := spanDigits r
      if ds = [] then none else some (some (neg, ds), r)
    else some (none, c :: r)

/-- Digits in front of the point: zero alone, or no zero in front. -/
def isInteger (ds : List (Fin 10)) : Prop :=
  ds.map Fin.val = [0] ∨ ∃ d ∈ ds.head?, d.val ≠ 0

instance (ds : List (Fin 10)) : Decidable (isInteger ds) :=
  inferInstanceAs (Decidable (_ ∨ ∃ d, d ∈ ds.head? ∧ d.val ≠ 0))

/-- A literal without its sign. -/
def literal (b : Bytes) : Option (Decimal × Bytes) := do
  let (ds, r) := spanDigits b
  if isInteger ds then
    let (fs, r) ← fraction r
    let (e, r) ← exponent r
    some (⟨ds, fs, e⟩, r)
  else none

/-- A number. -/
def number : Bytes → Option (Json × Bytes)
  | 45 :: r => (literal r).map fun (d, r) => (.number true d, r)
  | b => (literal b).map fun (d, r) => (.number false d, r)

/-- A value of one word. -/
def word (b : Bytes) : Option (Json × Bytes) :=
  if (ascii "null").isPrefixOf b then some (.null, b.drop 4)
  else if (ascii "true").isPrefixOf b then some (.bool true, b.drop 4)
  else if (ascii "false").isPrefixOf b then some (.bool false, b.drop 5)
  else none

/-- A value without parts. -/
def scalar : Bytes → Option (Json × Bytes)
  | [] => none
  | c :: r =>
    if c = 34 then (string (c :: r)).map fun (s, r) => (.string s, r)
    else if c = 45 ∨ 48 ≤ c ∧ c ≤ 57 then number (c :: r)
    else word (c :: r)

section Lists

variable {α : Type}

/-- Parts with commas between them, up to the closing byte. Each takes a byte, so the length
of the text bounds their number. -/
def many (item : Bytes → Option (α × Bytes)) (close : UInt8) : ℕ → Bytes → Option (List α × Bytes)
  | 0, _ => none
  | n + 1, b => do
    let (x, r) ← item (skipBlanks b)
    match skipBlanks r with
    | [] => none
    | c :: r =>
      if c = 44 then (many item close n r).map fun (xs, r) => (x :: xs, r)
      else if c = close then some ([x], r)
      else none

/-- The parts behind an opening byte; there may be none. -/
def parts (item : Bytes → Option (α × Bytes)) (close : UInt8) (b : Bytes) :
    Option (List α × Bytes) :=
  match skipBlanks b with
  | [] => none
  | c :: r => if c = close then some ([], r) else many item close (c :: r).length (c :: r)

end Lists

/-- A member of an object. -/
def member (value : Bytes → Option (Json × Bytes)) (b : Bytes) :
    Option ((Bytes × Json) × Bytes) := do
  let (k, r) ← string b
  match skipBlanks r with
  | 58 :: r => (value (skipBlanks r)).map fun (v, r) => ((k, v), r)
  | _ => none

/-- A value with so many levels of nesting left. -/
def value : ℕ → Bytes → Option (Json × Bytes)
  | 0, b => scalar b
  | left + 1, b =>
    match b with
    | 91 :: r => (parts (value left) 93 r).map fun (xs, r) => (.array xs, r)
    | 123 :: r => (parts (member (value left)) 125 r).map fun (ms, r) => (.object ms, r)
    | b => scalar b

/-- The value that a text is, with blanks around it. Every level of nesting takes a byte, so
the length of the text bounds their number. -/
def parse (b : Bytes) : Option Json :=
  match value b.length (skipBlanks b) with
  | none => none
  | some (v, r) => if skipBlanks r = [] then some v else none

/-- A text is the JSON of a value. -/
def IsJson (b : Bytes) (v : Json) : Prop := Utf8.Valid b ∧ parse b = some v

/-! ## Strings without escapes -/

/-- A string that needs no escape. -/
def Plain (s : Bytes) : Prop := ∀ b ∈ s, 32 ≤ b ∧ b ≠ 34 ∧ b ≠ 92

instance (s : Bytes) : Decidable (Plain s) := List.decidableBAll _ s

theorem plain_cons {b : UInt8} {s : Bytes} :
    Plain (b :: s) ↔ (32 ≤ b ∧ b ≠ 34 ∧ b ≠ 92) ∧ Plain s := List.forall_mem_cons

/-- A string that needs no escape is read as it stands. -/
theorem chars_of_plain {s : Bytes} (h : Plain s) {n : ℕ} (hn : s.length < n) (rest : Bytes) :
    chars n (s ++ 34 :: rest) = some (s, rest) := by
  induction s generalizing n with
  | nil =>
    obtain ⟨m, rfl⟩ : ∃ m, n = m + 1 := ⟨n - 1, by simp at hn; omega⟩
    rfl
  | cons b s ih =>
    obtain ⟨m, rfl⟩ : ∃ m, n = m + 1 := ⟨n - 1, by simp at hn; omega⟩
    obtain ⟨⟨hlow, hquote, hslash⟩, hs⟩ := plain_cons.mp h
    have hrest := ih hs (n := m) (by simpa using hn)
    simp [chars, char, hquote, hslash, hlow, hrest]

theorem string_of_plain {s : Bytes} (h : Plain s) (rest : Bytes) :
    string (34 :: (s ++ 34 :: rest)) = some (s, rest) := by
  have hread := chars_of_plain h (n := (s ++ 34 :: rest).length) (by simp) rest
  simpa [string] using hread

theorem length_encode_le (u : ℕ) : (encode u).length ≤ 4 := by
  rw [encode, String.length_utf8EncodeChar]
  exact Char.utf8Size_le_four _

theorem hexOf_quote : Double.hexOf 34 = none := rfl

/-- Four digits are four bytes, and none of them is a quote. -/
theorem hex4_cases {b r : Bytes} {u : ℕ} (h : hex4 b = some (u, r)) :
    ∃ e, b = e ++ r ∧ e.length = 4 ∧ (34 : UInt8) ∉ e := by
  match b, h with
  | a :: b :: c :: d :: rest, h =>
    simp only [hex4, Option.bind_eq_bind, Option.bind_eq_some_iff, Option.some.injEq,
      Prod.mk.injEq] at h
    obtain ⟨va, ha, vb, hb, vc, hc, vd, hd, -, rfl⟩ := h
    refine ⟨[a, b, c, d], rfl, rfl, ?_⟩
    simp only [List.mem_cons, List.not_mem_nil, or_false]
    rintro (rfl | rfl | rfl | rfl) <;> simp_all [hexOf_quote]

theorem lowSurrogate_cases {b r : Bytes} {l : ℕ} (h : lowSurrogate b = some (l, r)) :
    ∃ e, b = e ++ r ∧ (34 : UInt8) ∉ e := by
  unfold lowSurrogate at h
  split at h
  · next rest =>
    simp only [Option.bind_eq_bind, Option.bind_eq_some_iff, Prod.exists] at h
    obtain ⟨v, r', hhex, h⟩ := h
    split at h
    · obtain ⟨-, rfl⟩ := Prod.mk.inj (Option.some.inj h)
      obtain ⟨e, rfl, -, hquote⟩ := hex4_cases hhex
      exact ⟨92 :: 117 :: e, rfl, by simp [hquote]⟩
    · cases h
  · cases h

/-- A code point takes at least as many bytes as it stands for. -/
theorem codePoint_cases {b c r : Bytes} (h : codePoint b = some (c, r)) :
    ∃ e, b = e ++ r ∧ c.length ≤ e.length ∧ (34 : UInt8) ∉ e := by
  simp only [codePoint, Option.bind_eq_bind, Option.bind_eq_some_iff, Prod.exists] at h
  obtain ⟨u, r', hhex, h⟩ := h
  obtain ⟨e, rfl, hlen, hquote⟩ := hex4_cases hhex
  split at h
  · simp only [Option.bind_eq_some_iff, Prod.exists] at h
    obtain ⟨l, r'', hlow, h⟩ := h
    obtain ⟨rfl, rfl⟩ := Prod.mk.inj (Option.some.inj h)
    obtain ⟨e', rfl, hquote'⟩ := lowSurrogate_cases hlow
    refine ⟨e ++ e', (List.append_assoc _ _ _).symm, ?_, by simp [hquote, hquote']⟩
    have hle := length_encode_le (0x10000 + (u - 0xD800) * 0x400 + (l - 0xDC00))
    simp only [List.length_append]
    omega
  · split at h
    · cases h
    · obtain ⟨rfl, rfl⟩ := Prod.mk.inj (Option.some.inj h)
      exact ⟨e, rfl, hlen ▸ length_encode_le u, hquote⟩

/-- A character is a byte that stands for itself, or an escape that stands for no more bytes
than it takes behind its backslash. -/
theorem char_cases {b c r : Bytes} (h : char b = some (c, r)) :
    (∃ x, (32 ≤ x ∧ x ≠ 34 ∧ x ≠ 92) ∧ b = x :: r ∧ c = [x]) ∨
      ∃ e, b = 92 :: (e ++ r) ∧ c.length ≤ e.length ∧ (e = [34] ∨ (34 : UInt8) ∉ e) := by
  cases b with
  | nil => cases h
  | cons x rest =>
    simp only [char] at h
    split at h
    · next hslash =>
      subst hslash
      cases rest with
      | nil => cases h
      | cons y rest =>
        simp only [escape] at h
        split at h
        · next hletter =>
          subst hletter
          obtain ⟨e, rfl, hlen, hquote⟩ := codePoint_cases h
          exact Or.inr ⟨117 :: e, rfl, hlen.trans (Nat.le_succ _), Or.inr (by simp [hquote])⟩
        · simp only [Option.map_eq_some_iff, Prod.mk.injEq] at h
          obtain ⟨v, -, rfl, rfl⟩ := h
          refine Or.inr ⟨[y], rfl, le_rfl, ?_⟩
          simp only [List.cons.injEq, and_true, List.mem_singleton]
          exact (eq_or_ne y 34).imp_right Ne.symm
    · next hslash =>
      split at h
      · next hplain =>
        obtain ⟨rfl, rfl⟩ := Prod.mk.inj (Option.some.inj h)
        exact Or.inl ⟨x, ⟨hplain.1, hplain.2, hslash⟩, rfl, rfl⟩
      · cases h

/-- What stands in front of the first quote is a prefix of what the quote stands behind. -/
theorem prefix_of_no_quote {e r t tail : Bytes} (he : (34 : UInt8) ∉ e)
    (h : t ++ 34 :: tail = e ++ r) : ∃ t', t = e ++ t' ∧ r = t' ++ 34 :: tail := by
  rcases List.append_eq_append_iff.mp h with ⟨m, rfl, hm⟩ | ⟨m, rfl, rfl⟩
  · cases m with
    | nil => exact ⟨[], by simp, by simpa using hm.symm⟩
    | cons x m =>
      obtain ⟨rfl, -⟩ := List.cons.inj hm
      exact absurd (by simp) he
  · exact ⟨m, rfl, rfl⟩

/-- How a text in front of a quote, a comma and a quote is read as a string: as it stands,
as less than it is, or past the quote, which its last byte escapes. -/
inductive ReadAs (t s : Bytes) : Prop
  | verbatim (hplain : Plain t) (heq : s = t)
  | shorter (hlen : s.length < t.length)
  | past (hcomma : s.getLast? = some 44) (hslash : t.getLast? = some 92)

/-- A character more in front, which is no longer than its text. -/
theorem ReadAs.behind_escape {t s c e : Bytes} (h : ReadAs t s) (hlen : c.length ≤ e.length) :
    ReadAs (92 :: (e ++ t)) (c ++ s) := by
  cases h with
  | verbatim hplain heq =>
    subst heq
    exact .shorter (by simp only [List.length_append, List.length_cons]; omega)
  | shorter hshort => exact .shorter (by simp only [List.length_append, List.length_cons]; omega)
  | past hcomma hslash =>
    refine .past ?_ ?_
    · rw [List.getLast?_append, hcomma]
      rfl
    · rw [← List.cons_append, List.getLast?_append, hslash]
      rfl

/-- What is read when the quote itself is escaped. -/
theorem chars_comma {n : ℕ} {more s rest : Bytes}
    (h : chars n (44 :: 34 :: more) = some (s, rest)) : s = [44] := by
  match n, h with
  | 1, h => simp [chars, char] at h
  | n + 2, h =>
    have hread : chars (n + 2) (44 :: 34 :: more) = some ([44], more) := rfl
    rw [hread] at h
    exact (Prod.mk.inj (Option.some.inj h)).1.symm

theorem chars_readAs {n : ℕ} {t more s rest : Bytes}
    (h : chars n (t ++ 34 :: 44 :: 34 :: more) = some (s, rest)) : ReadAs t s := by
  induction n generalizing t s with
  | zero => cases h
  | succ n ih =>
    cases t with
    | nil =>
      obtain ⟨rfl, -⟩ := Prod.mk.inj (Option.some.inj h)
      exact .verbatim (fun b hb => absurd hb List.not_mem_nil) rfl
    | cons x t =>
      rw [List.cons_append, chars] at h
      split at h
      · obtain ⟨rfl, -⟩ := Prod.mk.inj (Option.some.inj h)
        exact .shorter (by simp)
      · simp only [Option.bind_eq_bind, Option.bind_eq_some_iff, Prod.exists] at h
        obtain ⟨c, r, hchar, s', rest', hchars, h⟩ := h
        obtain ⟨rfl, rfl⟩ := Prod.mk.inj (Option.some.inj h)
        rcases char_cases hchar with ⟨y, hy, heq, rfl⟩ | ⟨e, heq, hlen, he⟩
        · obtain ⟨rfl, rfl⟩ := List.cons.inj heq
          -- a plain byte keeps what the rest is read as
          cases ih hchars with
          | verbatim hplain hs => exact .verbatim (plain_cons.mpr ⟨hy, hplain⟩) (by simp [hs])
          | shorter hshort => exact .shorter (by simpa using hshort)
          | past hcomma hslash =>
            refine .past ?_ ?_
            · rw [List.getLast?_append, hcomma]
              rfl
            · rw [List.getLast?_cons, hslash]
              rfl
        · obtain ⟨rfl, htail⟩ := List.cons.inj heq
          rcases he with rfl | hquote
          · cases t with
            | nil =>
              obtain ⟨-, rfl⟩ := List.cons.inj htail
              rw [chars_comma hchars]
              exact .past (by simp) rfl
            | cons z t =>
              obtain ⟨rfl, rfl⟩ := List.cons.inj htail
              exact (ih hchars).behind_escape hlen
          · obtain ⟨t', rfl, rfl⟩ := prefix_of_no_quote hquote htail
            exact (ih hchars).behind_escape hlen

/-- A string that is read as it stands needs no escape. -/
theorem plain_of_chars {n : ℕ} {s more rest : Bytes}
    (h : chars n (s ++ 34 :: 44 :: 34 :: more) = some (s, rest)) : Plain s := by
  cases chars_readAs h with
  | verbatim hplain _ => exact hplain
  | shorter hlen => exact absurd hlen (lt_irrefl _)
  | past hcomma hslash =>
    rw [hcomma] at hslash
    exact absurd hslash (by decide)

end MoonFlare.StrictJson
