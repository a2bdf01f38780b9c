import MoonFlare.CString

/-!
# UTF-8

A text is valid when it is the encoding of a list of characters. A character is one byte
below 128, or a byte that starts it and one or more that continue it, all from 128 on. So a
valid text is valid again behind a cut in front of a byte that continues no character.
-/

namespace MoonFlare.Utf8

/-- A byte that continues a character. -/
def continues (b : UInt8) : Bool := b &&& 0xC0 == 0x80

/-- The encoding of some characters. -/
def Valid (b : Bytes) : Prop := ∃ cs : List Char, b = cs.flatMap String.utf8EncodeChar

theorem valid_nil : Valid [] := ⟨[], rfl⟩

theorem Valid.append {a b : Bytes} (ha : Valid a) (hb : Valid b) : Valid (a ++ b) := by
  obtain ⟨cs, rfl⟩ := ha
  obtain ⟨ds, rfl⟩ := hb
  exact ⟨cs ++ ds, List.flatMap_append.symm⟩

/-- A byte from 128 on whose low six bits are its number continues a character. -/
theorem continues_tail (v : ℕ) :
    128 ≤ UInt8.ofNat (v % 64 + 128) ∧ continues (UInt8.ofNat (v % 64 + 128)) = true := by
  have hall : ∀ n : Fin 64, 128 ≤ UInt8.ofNat (n.val + 128) ∧
      continues (UInt8.ofNat (n.val + 128)) = true := by decide +kernel
  exact hall ⟨v % 64, Nat.mod_lt _ (by norm_num)⟩

/-- A byte that starts a longer character does not continue one. -/
theorem starts_lead (v n base : ℕ) (hn : 0 < n) (hlow : 192 ≤ base) (hhigh : base + n ≤ 248) :
    128 ≤ UInt8.ofNat (v % n + base) ∧ continues (UInt8.ofNat (v % n + base)) = false := by
  have hall : ∀ n : Fin 248, 192 ≤ n.val →
      128 ≤ UInt8.ofNat n.val ∧ continues (UInt8.ofNat n.val) = false := by decide +kernel
  have hlt := Nat.mod_lt v hn
  exact hall ⟨v % n + base, by omega⟩ (by simp only; omega)

/-- The bytes of a character. -/
theorem encode_cases (c : Char) :
    (∃ b, b < 128 ∧ continues b = false ∧ String.utf8EncodeChar c = [b]) ∨
      ∃ b bs, 128 ≤ b ∧ continues b = false ∧ (∀ x ∈ bs, 128 ≤ x ∧ continues x = true) ∧
        String.utf8EncodeChar c = b :: bs := by
  have hsmall : ∀ n : Fin 128, UInt8.ofNat n.val < 128 ∧ continues (UInt8.ofNat n.val) = false := by
    decide +kernel
  have htail : ∀ v, 128 ≤ UInt8.ofNat (v % 0x40 + 0x80) ∧
      continues (UInt8.ofNat (v % 0x40 + 0x80)) = true := continues_tail
  unfold String.utf8EncodeChar
  dsimp only
  split_ifs with h1 h2 h3
  · have h := hsmall ⟨c.val.toNat, by omega⟩
    exact Or.inl ⟨_, h.1, h.2, rfl⟩
  · have hlead := starts_lead (c.val.toNat / 64) 0x20 0xc0 (by norm_num) (by norm_num)
      (by norm_num)
    refine Or.inr ⟨_, _, hlead.1, hlead.2, ?_, rfl⟩
    simp only [List.mem_cons, List.not_mem_nil, or_false, forall_eq]
    exact htail _
  · have hlead := starts_lead (c.val.toNat / 4096) 0x10 0xe0 (by norm_num) (by norm_num)
      (by norm_num)
    refine Or.inr ⟨_, _, hlead.1, hlead.2, ?_, rfl⟩
    simp only [List.mem_cons, List.not_mem_nil, or_false, forall_eq_or_imp, forall_eq]
    exact ⟨htail _, htail _⟩
  · have hlead := starts_lead (c.val.toNat / 262144) 0x08 0xf0 (by norm_num) (by norm_num)
      (by norm_num)
    refine Or.inr ⟨_, _, hlead.1, hlead.2, ?_, rfl⟩
    simp only [List.mem_cons, List.not_mem_nil, or_false, forall_eq_or_imp, forall_eq]
    exact ⟨htail _, htail _, htail _⟩

/-- A text is valid up to a byte that continues no character. -/
theorem Valid.take {b : Bytes} (h : Valid b) {n : ℕ} (hn : n = 0 ∨ continues (b.getD n 0) = false) :
    Valid (b.take n) := by
  obtain ⟨cs, rfl⟩ := h
  induction cs generalizing n with
  | nil => exact ⟨[], by simp⟩
  | cons c cs ih =>
    cases n with
    | zero => exact ⟨[], rfl⟩
    | succ n =>
      have hnext : continues (((c :: cs).flatMap String.utf8EncodeChar).getD (n + 1) 0) = false :=
        hn.resolve_left (Nat.succ_ne_zero n)
      rw [List.flatMap_cons] at hnext ⊢
      rcases encode_cases c with ⟨b, -, -, henc⟩ | ⟨b, bs, -, -, hbs, henc⟩
      · rw [henc, List.singleton_append] at hnext ⊢
        rw [List.take_succ_cons]
        obtain ⟨ds, hds⟩ := ih (n := n) (Or.inr (by simpa using hnext))
        exact ⟨c :: ds, by rw [List.flatMap_cons, henc, hds]; rfl⟩
      · rw [henc, List.cons_append] at hnext ⊢
        rw [List.getD_cons_succ] at hnext
        rw [List.take_succ_cons]
        have hlen : bs.length ≤ n := by
          by_contra hlt
          push Not at hlt
          rw [List.getD_append _ _ _ _ hlt, List.getD_eq_getElem _ _ hlt] at hnext
          rw [(hbs _ (List.getElem_mem hlt)).2] at hnext
          cases hnext
        rw [List.getD_append_right _ _ _ _ hlen] at hnext
        rw [List.take_append, List.take_of_length_le hlen]
        obtain ⟨ds, hds⟩ := ih (n := n - bs.length) (Or.inr hnext)
        exact ⟨c :: ds, by rw [List.flatMap_cons, henc, hds]; rfl⟩

/-- A text is valid in front of bytes that continue no character. -/
theorem Valid.of_append {a rest : Bytes} (h : Valid (a ++ rest))
    (hrest : ∀ x ∈ rest, continues x = false) : Valid a := by
  have hnext : continues ((a ++ rest).getD a.length 0) = false := by
    rw [List.getD_append_right _ _ _ _ le_rfl, Nat.sub_self]
    cases rest with
    | nil => rfl
    | cons x rest => exact hrest x List.mem_cons_self
  have htake := h.take (Or.inr hnext)
  rwa [List.take_left] at htake

/-- In front of a byte that continues no character a text is cut into two. -/
theorem Valid.split {a r : Bytes} {x : UInt8} (h : Valid (a ++ x :: r)) (hx : continues x = false) :
    Valid a ∧ Valid (x :: r) := by
  obtain ⟨cs, hcs⟩ := h
  induction cs generalizing a with
  | nil => simp at hcs
  | cons c cs ih =>
    cases a with
    | nil => exact ⟨valid_nil, c :: cs, hcs⟩
    | cons b a =>
      rw [List.flatMap_cons, List.cons_append] at hcs
      rcases encode_cases c with ⟨b', -, -, henc⟩ | ⟨b', bs, -, -, hbs, henc⟩
      · rw [henc, List.singleton_append] at hcs
        obtain ⟨rfl, hrest⟩ := List.cons.inj hcs
        obtain ⟨⟨ds, rfl⟩, hr⟩ := ih hrest
        exact ⟨⟨c :: ds, by rw [List.flatMap_cons, henc]; rfl⟩, hr⟩
      · rw [henc, List.cons_append] at hcs
        obtain ⟨rfl, hrest⟩ := List.cons.inj hcs
        rcases List.append_eq_append_iff.mp hrest with ⟨m, rfl, hm⟩ | ⟨m, rfl, hm⟩
        · cases m with
          | nil =>
            have hr : Valid (x :: r) := ⟨cs, by simpa using hm⟩
            exact ⟨⟨[c], by simp [henc]⟩, hr⟩
          | cons y m =>
            obtain ⟨rfl, -⟩ := List.cons.inj hm
            have hcontinues := (hbs x (by simp)).2
            rw [hx] at hcontinues
            cases hcontinues
        · obtain ⟨⟨ds, rfl⟩, hr⟩ := ih hm.symm
          exact ⟨⟨c :: ds, by rw [List.flatMap_cons, henc]; rfl⟩, hr⟩

/-- Bytes of one byte characters. -/
def Ascii (b : Bytes) : Prop := ∀ x ∈ b, x < 128

instance (b : Bytes) : Decidable (Ascii b) := List.decidableBAll (· < 128) b

theorem Ascii.append {a b : Bytes} (ha : Ascii a) (hb : Ascii b) : Ascii (a ++ b) :=
  List.forall_mem_append.mpr ⟨ha, hb⟩

theorem Ascii.cons {x : UInt8} {a : Bytes} (hx : x < 128) (ha : Ascii a) : Ascii (x :: a) :=
  List.forall_mem_cons.mpr ⟨hx, ha⟩

theorem valid_byte {x : UInt8} (hx : x < 128) : Valid [x] := by
  have hall : ∀ n : Fin 128, [UInt8.ofNat n.val] = String.utf8EncodeChar (Char.ofNat n.val) := by
    decide +kernel
  refine ⟨[Char.ofNat x.toNat], ?_⟩
  rw [List.flatMap_singleton, ← hall ⟨x.toNat, UInt8.lt_iff_toNat_lt.mp hx⟩, UInt8.ofNat_toNat]

/-- What stands behind one byte characters is valid when the whole is. -/
theorem valid_ascii_append {a : Bytes} (ha : Ascii a) (b : Bytes) : Valid (a ++ b) ↔ Valid b := by
  induction a with
  | nil => exact Iff.rfl
  | cons x a ih =>
    obtain ⟨hx, ha⟩ := List.forall_mem_cons.mp ha
    rw [← ih ha, List.cons_append]
    refine ⟨?_, fun h => (valid_byte hx).append h⟩
    rintro ⟨cs, hcs⟩
    cases cs with
    | nil => cases hcs
    | cons c cs =>
      rw [List.flatMap_cons] at hcs
      rcases encode_cases c with ⟨b', -, -, henc⟩ | ⟨b', bs, hb', -, -, henc⟩
      · rw [henc, List.singleton_append] at hcs
        exact ⟨cs, (List.cons.inj hcs).2⟩
      · rw [henc, List.cons_append] at hcs
        rw [(List.cons.inj hcs).1] at hx
        exact absurd hx (UInt8.not_lt.mpr hb')

/-- A text is valid without the spaces at its end. -/
theorem Valid.trimEnd {b : Bytes} (h : Valid b) : Valid (b.rdropWhile (· == 32)) := by
  have hsplit : b.rdropWhile (· == 32) ++ b.rtakeWhile (· == 32) = b :=
    List.rdropWhile_append_rtakeWhile
  refine @Valid.of_append _ (b.rtakeWhile (· == 32)) (hsplit.symm ▸ h) ?_
  intro x hx
  have h32 : x = 32 := by simpa using List.mem_rtakeWhile_imp hx
  rw [h32]
  rfl

end MoonFlare.Utf8
