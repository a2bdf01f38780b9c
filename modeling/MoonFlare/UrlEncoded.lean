import MoonFlare.DecimalText

/-!
# URL-encoded forms

The reading of `application/x-www-form-urlencoded`: members stand between ampersands, a
name is in front of the first equals sign, a plus is a space and `%` with two hexadecimal
digits is a byte. A text with every byte but the unreserved ones escaped reads as itself.
-/

namespace MoonFlare.UrlEncoded

/-- A text without its escapes; a `%` that no two digits follow stands for itself. -/
def percentDecode : Bytes → Bytes
  | [] => []
  | b :: rest =>
    if b = 37 then
      match rest with
      | h :: l :: rest' =>
        match Double.hexOf h, Double.hexOf l with
        | some a, some d => UInt8.ofNat (16 * a + d) :: percentDecode rest'
        | _, _ => 37 :: percentDecode (h :: l :: rest')
      | rest => 37 :: percentDecode rest
    else (if b = 43 then 32 else b) :: percentDecode rest

/-- A member's name and its value. -/
def readMember (m : Bytes) : Bytes × Bytes :=
  (percentDecode (m.takeWhile (· ≠ 61)), percentDecode ((m.dropWhile (· ≠ 61)).drop 1))

/-- The members of a form; empty ones are passed over. -/
def readForm (b : Bytes) : List (Bytes × Bytes) :=
  ((b.splitOn 38).filter fun m => !m.isEmpty).map readMember

/-- A byte that stands for itself. -/
def unreserved (b : UInt8) : Bool :=
  (48 ≤ b && b ≤ 57) || (65 ≤ b && b ≤ 90) || (97 ≤ b && b ≤ 122) || b == 45 || b == 46 ||
    b == 95 || b == 126

/-- A hexadecimal digit, in capitals. -/
def hexDigit (n : UInt8) : UInt8 := (ascii "0123456789ABCDEF").getD n.toNat 0

/-- A byte with its escape. -/
def escapeByte (b : UInt8) : Bytes :=
  if unreserved b then [b] else [37, hexDigit (b >>> 4), hexDigit (b &&& 15)]

/-- A text with its escapes. -/
def escape (b : Bytes) : Bytes := b.flatMap escapeByte

/-- The digits, read back; none of them is a separator or ends a string. -/
theorem hexDigit_spec {n : UInt8} (h : n.toNat < 16) :
    Double.hexOf (hexDigit n) = some n.toNat ∧ 48 ≤ hexDigit n ∧ hexDigit n ≠ 61 := by
  have hall : ∀ k : Fin 16, Double.hexOf (hexDigit (UInt8.ofNat k.val)) = some k.val ∧
      48 ≤ hexDigit (UInt8.ofNat k.val) ∧ hexDigit (UInt8.ofNat k.val) ≠ 61 := by
    decide +kernel
  have hk := hall ⟨n.toNat, h⟩
  rwa [UInt8.ofNat_toNat] at hk

/-- The halves of a byte. -/
theorem toNat_halves (b : UInt8) :
    (b >>> 4).toNat = b.toNat / 16 ∧ (b &&& 15).toNat = b.toNat % 16 := by
  constructor
  · rw [UInt8.toNat_shiftRight]
    exact Nat.shiftRight_eq_div_pow _ 4
  · rw [UInt8.toNat_and]
    exact Nat.and_two_pow_sub_one_eq_mod _ 4

/-- The digits of an escape are those of its byte. -/
theorem hexOf_hexDigit (b : UInt8) :
    ((Double.hexOf (hexDigit (b >>> 4))).bind fun a =>
      (Double.hexOf (hexDigit (b &&& 15))).map fun d => UInt8.ofNat (16 * a + d)) = some b := by
  obtain ⟨hhigh, hlow⟩ := toNat_halves b
  have hlt := UInt8.toNat_lt b
  have h1 := (hexDigit_spec (n := b >>> 4) (by omega)).1
  have h2 := (hexDigit_spec (n := b &&& 15) (by omega)).1
  rw [h1, h2, hhigh, hlow, Option.bind_some, Option.map_some, Nat.div_add_mod]
  exact congrArg some (UInt8.ofNat_toNat)

theorem unreserved_ne (b : UInt8) (h : unreserved b = true) : b ≠ 37 ∧ b ≠ 43 := by
  refine ⟨?_, ?_⟩ <;> rintro rfl <;> exact absurd h (by decide)

/-- An escape adds no byte that separates, and none that ends a string. -/
theorem escapeByte_plain (b : UInt8) : ∀ c ∈ escapeByte b, c ≠ 0 ∧ c ≠ 38 ∧ c ≠ 61 := by
  have hdigit : ∀ n : UInt8, n.toNat < 16 →
      hexDigit n ≠ 0 ∧ hexDigit n ≠ 38 ∧ hexDigit n ≠ 61 := by
    intro n hn
    obtain ⟨-, hlow, hne⟩ := hexDigit_spec hn
    refine ⟨?_, ?_, hne⟩ <;> intro heq <;> rw [heq] at hlow <;> exact absurd hlow (by decide)
  obtain ⟨hhigh, hlow⟩ := toNat_halves b
  have hlt := UInt8.toNat_lt b
  unfold escapeByte
  split
  · next hplain =>
    intro c hc
    rw [List.mem_singleton] at hc
    rw [hc]
    refine ⟨?_, ?_, ?_⟩ <;> rintro rfl <;> exact absurd hplain (by decide)
  · intro c hc
    simp only [List.mem_cons, List.not_mem_nil, or_false] at hc
    rcases hc with rfl | rfl | rfl
    · decide
    · exact hdigit _ (by omega)
    · exact hdigit _ (by omega)

theorem escape_plain {b : Bytes} {c : UInt8} (h : c ∈ escape b) : c ≠ 0 ∧ c ≠ 38 ∧ c ≠ 61 := by
  obtain ⟨a, -, hc⟩ := List.mem_flatMap.mp h
  exact escapeByte_plain a c hc

theorem length_escapeByte_le (b : UInt8) : (escapeByte b).length ≤ 3 := by
  unfold escapeByte
  split <;> simp

/-- A text takes at most three times its room. -/
theorem length_escape_le (b : Bytes) : (escape b).length ≤ 3 * b.length := by
  induction b with
  | nil => simp [escape]
  | cons a b ih =>
    have ha := length_escapeByte_le a
    simp only [escape, List.flatMap_cons, List.length_append, List.length_cons] at ih ⊢
    omega

theorem percentDecode_escapeByte (b : UInt8) (rest : Bytes) :
    percentDecode (escapeByte b ++ rest) = b :: percentDecode rest := by
  unfold escapeByte
  split
  · next hplain =>
    obtain ⟨hpercent, hplus⟩ := unreserved_ne b hplain
    rw [List.singleton_append, percentDecode.eq_def]
    simp [hpercent, hplus]
  · have hdigits := hexOf_hexDigit b
    obtain ⟨a, ha, hd⟩ := Option.bind_eq_some_iff.mp hdigits
    obtain ⟨d, hd, hb⟩ := Option.map_eq_some_iff.mp hd
    simp only [List.cons_append, List.nil_append]
    rw [percentDecode.eq_def]
    simp [ha, hd, hb]

/-- A text with its escapes reads as the text. -/
theorem percentDecode_escape (b : Bytes) : percentDecode (escape b) = b := by
  induction b with
  | nil => simp [escape, percentDecode]
  | cons a b ih =>
    have hcons : escape (a :: b) = escapeByte a ++ escape b := List.flatMap_cons
    rw [hcons, percentDecode_escapeByte, ih]

/-- A member with a plain name and an escaped value reads as both. -/
theorem readMember_escape {name value : Bytes} (hname : ∀ c ∈ name, unreserved c = true) :
    readMember (name ++ 61 :: escape value) = (name, value) := by
  have hself : escape name = name := by
    unfold escape
    refine (List.flatMap_congr fun c hc => ?_).trans (List.flatMap_singleton' _)
    exact if_pos (hname c hc)
  have hne : ∀ c ∈ name, (decide (c ≠ 61)) = true := by
    intro c hc
    rw [← hself] at hc
    exact decide_eq_true (escape_plain hc).2.2
  have htake : (name ++ 61 :: escape value).takeWhile (· ≠ 61) = name := by
    rw [List.takeWhile_append_of_pos hne]
    simp
  have hdrop : (name ++ 61 :: escape value).dropWhile (· ≠ 61) = 61 :: escape value := by
    rw [List.dropWhile_append_of_pos hne]
    simp
  have hread : percentDecode name = name := by
    have h := percentDecode_escape name
    rwa [hself] at h
  rw [readMember, htake, hdrop, hread, List.drop_one, List.tail_cons, percentDecode_escape]

/-- A form of members with plain names reads as the members. -/
theorem readForm_escape {members : List (Bytes × Bytes)} (hne : members ≠ [])
    (hname : ∀ m ∈ members, ∀ c ∈ m.1, unreserved c = true) :
    readForm ([38].intercalate (members.map fun m => m.1 ++ 61 :: escape m.2)) = members := by
  have hplain : ∀ l ∈ members.map (fun m => m.1 ++ 61 :: escape m.2), (38 : UInt8) ∉ l := by
    intro l hl hmem
    obtain ⟨m, hm, rfl⟩ := List.mem_map.mp hl
    rcases List.mem_append.mp hmem with hin | hin
    · exact absurd (hname m hm 38 hin) (by decide)
    · rcases List.mem_cons.mp hin with heq | hin
      · exact absurd heq (by decide)
      · exact (escape_plain hin).2.1 rfl
  have hsplit := List.splitOn_intercalate 38 hplain (by simpa using hne)
  have hkept : (members.map fun m => m.1 ++ 61 :: escape m.2).filter (fun m => !m.isEmpty) =
      members.map fun m => m.1 ++ 61 :: escape m.2 := by
    refine List.filter_eq_self.mpr fun l hl => ?_
    obtain ⟨m, -, rfl⟩ := List.mem_map.mp hl
    simp
  rw [readForm, hsplit, hkept, List.map_map]
  refine (List.map_congr_left fun m hm => ?_).trans (List.map_id _)
  exact readMember_escape (hname m hm)

end MoonFlare.UrlEncoded
