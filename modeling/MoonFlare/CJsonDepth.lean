import MoonFlare.CJsonRoundTrip

/-!
# How deep parsed text can be

Every level of nesting takes an opening and a closing byte, so a text that
fits a small buffer stays far below the nesting limit. Printing keeps the depth.
-/

namespace MoonFlare.CJson

theorem length_skipSpace_le (b : Bytes) : (skipSpace b).length ≤ b.length :=
  (List.dropWhile_sublist _).length_le

theorem length_skipBom_le (size : ℕ) (b : Bytes) : (skipBom size b).length ≤ b.length := by
  unfold skipBom
  split
  · simp
  · exact le_rfl

theorem splitQuote_rest_le {b raw rest : Bytes} (h : splitQuote b = some (raw, rest)) :
    rest.length ≤ b.length := by
  fun_induction splitQuote b generalizing raw rest with
  | case1 => simp at h
  | case2 => simp_all
  | case3 b hb => simp at h
  | case4 => simp_all
  | case5 c r hne ih =>
    obtain ⟨⟨s, r'⟩, hr, heq⟩ := Option.map_eq_some_iff.mp h
    obtain ⟨-, rfl⟩ := Prod.mk.inj heq
    have hle := ih hr
    simp only [List.length_cons]
    omega
  | case6 b c r hb hne ih =>
    obtain ⟨⟨s, r'⟩, hr, heq⟩ := Option.map_eq_some_iff.mp h
    obtain ⟨-, rfl⟩ := Prod.mk.inj heq
    have hle := ih hr
    simp only [List.length_cons] at hle ⊢
    omega

theorem parseString_rest_le {b rest : Bytes} {s : CString} (h : parseString b = some (s, rest)) :
    rest.length ≤ b.length := by
  unfold parseString at h
  split at h
  · rename_i b
    cases hq : splitQuote b with
    | none => simp [hq] at h
    | some p =>
      obtain ⟨raw, r⟩ := p
      have hle := splitQuote_rest_le hq
      cases hu : unescape raw with
      | none => simp [hq, hu] at h
      | some t =>
        simp only [hq, hu, Option.bind_eq_bind, Option.bind_some, Option.some.injEq,
          Prod.mk.injEq] at h
        rw [← h.2, List.length_cons]
        omega
  · simp at h

theorem parseScalar_rest_le {b rest : Bytes} {v : CJson} (h : parseScalar b = some (v, rest)) :
    depth v = 0 ∧ rest.length ≤ b.length := by
  unfold parseScalar at h
  split at h
  · cases h
    simp [depth]
  split at h
  · cases h
    simp [depth]
  split at h
  · cases h
    simp [depth]
  split at h
  · simp at h
  · split at h
    · obtain ⟨⟨s, r⟩, hs, heq⟩ := Option.map_eq_some_iff.mp h
      cases heq
      exact ⟨rfl, parseString_rest_le hs⟩
    · split at h
      · obtain ⟨⟨v, r⟩, hv, heq⟩ := Option.map_eq_some_iff.mp h
        cases heq
        unfold Double.parseNumber at hv
        obtain ⟨⟨w, r⟩, -, heq⟩ := Option.map_eq_some_iff.mp hv
        cases heq
        refine ⟨rfl, ?_⟩
        simp only [List.length_drop]
        omega
      · simp at h

/-- What a parser of values spends: two bytes for every level. -/
def Spends (value : Bytes → Option (CJson × Bytes)) : Prop :=
  ∀ b v rest, value b = some (v, rest) → rest.length + 2 * depth v ≤ b.length

theorem parseItems_spends {value : Bytes → Option (CJson × Bytes)} (hvalue : Spends value) :
    ∀ (n : ℕ) (b : Bytes) (vs : List CJson) (rest : Bytes),
      parseItems value n b = some (vs, rest) → rest.length + 1 + 2 * depthItems vs ≤ b.length
  | 0, _, _, _, h => by simp [parseItems] at h
  | n + 1, b, vs, rest, h => by
    rw [parseItems] at h
    cases hv : value (skipSpace b) with
    | none => simp [hv] at h
    | some p =>
      obtain ⟨v, r⟩ := p
      have hspent := hvalue _ _ _ hv
      have hb := length_skipSpace_le b
      have hr := length_skipSpace_le r
      simp only [hv, Option.bind_eq_bind, Option.bind_some] at h
      split at h
      · rename_i r' heq
        obtain ⟨⟨ws, t⟩, hrest, hpair⟩ := Option.map_eq_some_iff.mp h
        cases hpair
        have ih := parseItems_spends hvalue n r' ws t hrest
        rw [heq, List.length_cons] at hr
        simp only [depthItems]
        omega
      · rename_i r' heq
        cases h
        rw [heq, List.length_cons] at hr
        simp only [depthItems]
        omega
      · simp at h

theorem parseMembers_spends {value : Bytes → Option (CJson × Bytes)} (hvalue : Spends value) :
    ∀ (n : ℕ) (b : Bytes) (ms : List (CString × CJson)) (rest : Bytes),
      parseMembers value n b = some (ms, rest) → rest.length + 1 + 2 * depthMembers ms ≤ b.length
  | 0, _, _, _, h => by simp [parseMembers] at h
  | n + 1, b, ms, rest, h => by
    rw [parseMembers] at h
    cases hk : parseString (skipSpace b) with
    | none => simp [hk] at h
    | some p =>
      obtain ⟨k, r⟩ := p
      have hkey := parseString_rest_le hk
      have hb := length_skipSpace_le b
      have hr := length_skipSpace_le r
      simp only [hk, Option.bind_eq_bind, Option.bind_some] at h
      split at h
      · rename_i r' hcolon
        rw [hcolon, List.length_cons] at hr
        have hr' := length_skipSpace_le r'
        cases hv : value (skipSpace r') with
        | none => simp [hv] at h
        | some q =>
          obtain ⟨v, r''⟩ := q
          have hspent := hvalue _ _ _ hv
          have hr'' := length_skipSpace_le r''
          simp only [hv, Option.bind_some] at h
          split at h
          · rename_i s heq
            obtain ⟨⟨ws, t⟩, hrest, hpair⟩ := Option.map_eq_some_iff.mp h
            cases hpair
            have ih := parseMembers_spends hvalue n s ws t hrest
            rw [heq, List.length_cons] at hr''
            simp only [depthMembers]
            omega
          · rename_i s heq
            cases h
            rw [heq, List.length_cons] at hr''
            simp only [depthMembers]
            omega
          · simp at h
      · simp at h

/-- Parsing spends two bytes for every level of nesting. -/
theorem parseValue_spends : ∀ left, Spends (parseValue left)
  | 0 => fun b v rest h => by
    have hs := parseScalar_rest_le (show parseScalar b = some (v, rest) from h)
    omega
  | left + 1 => fun b v rest h => by
    have hvalue := parseValue_spends left
    unfold parseValue at h
    split at h
    · rename_i inner
      have hb := length_skipSpace_le inner
      unfold parseArray at h
      split at h
      · rename_i r heq
        cases h
        rw [heq, List.length_cons] at hb
        simp only [depth, depthItems, List.length_cons]
        omega
      · obtain ⟨⟨vs, r'⟩, hvs, hpair⟩ := Option.map_eq_some_iff.mp h
        cases hpair
        have hspent := parseItems_spends hvalue _ _ _ _ hvs
        simp only [depth, List.length_cons]
        omega
    · rename_i inner
      have hb := length_skipSpace_le inner
      unfold parseObject at h
      split at h
      · rename_i r heq
        cases h
        rw [heq, List.length_cons] at hb
        simp only [depth, depthMembers, List.length_cons]
        omega
      · obtain ⟨⟨ms, r'⟩, hms, hpair⟩ := Option.map_eq_some_iff.mp h
        cases hpair
        have hspent := parseMembers_spends hvalue _ _ _ _ hms
        simp only [depth, List.length_cons]
        omega
    · have hs := parseScalar_rest_le h
      omega

/-- Text of `n` bytes parses to at most `n / 2` levels. -/
theorem depth_of_parse {s : CString} {j : CJson} (h : parse s = some j) : 2 * depth j ≤ s.length := by
  obtain ⟨⟨v, rest⟩, hv, hpair⟩ := Option.map_eq_some_iff.mp h
  cases hpair
  have hspent := parseValue_spends _ _ _ _ hv
  have hspace := length_skipSpace_le (skipBom (s.length + 1) s.bytes)
  have hbom := length_skipBom_le (s.length + 1) s.bytes
  have hlen : s.length = s.bytes.length := rfl
  dsimp only
  omega

theorem depthMembers_append (ms ns : List (CString × CJson)) :
    depthMembers (ms ++ ns) = max (depthMembers ms) (depthMembers ns) := by
  induction ms with
  | nil => simp [depthMembers]
  | cons m ms ih =>
    obtain ⟨k, v⟩ := m
    simp only [List.cons_append, depthMembers, ih, max_assoc]

theorem depthMembers_le_iff {ms : List (CString × CJson)} {n : ℕ} :
    depthMembers ms ≤ n ↔ ∀ m ∈ ms, depth m.2 ≤ n := by
  induction ms with
  | nil => simp [depthMembers]
  | cons m ms ih =>
    obtain ⟨k, v⟩ := m
    simp [depthMembers, ih]

/-- A lookup commutes with printing and parsing. -/
theorem lookup_reprintMembers (k : CString) (ms : List (CString × CJson)) :
    lookup k (reprintMembers ms) = (lookup k ms).map reprint := by
  induction ms with
  | nil => rfl
  | cons m ms ih =>
    obtain ⟨l, v⟩ := m
    rw [reprintMembers, lookup_cons, lookup_cons, ih]
    split <;> rfl

end MoonFlare.CJson
