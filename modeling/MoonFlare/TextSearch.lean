import MoonFlare.CString

/-!
# Searching C strings

Where one text first stands in another, and what stands behind the last of a byte.
-/

namespace MoonFlare.CString

/-- The first place where a text stands in another: `strstr`, as an offset. -/
def strstr (s p : CString) : Option ℕ := s.bytes.tails.findIdx? fun t => p.bytes.isPrefixOf t

/-- The first place is the one in front of which the text does not stand. -/
theorem strstr_eq_some {s p : CString} {i : ℕ} (hp : p.bytes ≠ []) : s.strstr p = some i ↔
    p.bytes <+: s.bytes.drop i ∧ ∀ j < i, ¬p.bytes <+: s.bytes.drop j := by
  rw [strstr, List.findIdx?_eq_some_iff_getElem]
  simp only [List.getElem_tails, List.length_tails, List.isPrefixOf_iff_prefix]
  constructor
  · rintro ⟨-, hat, hbefore⟩
    exact ⟨hat, hbefore⟩
  · rintro ⟨hat, hbefore⟩
    have hi : i < s.bytes.length := by
      by_contra hge
      rw [List.drop_of_length_le (by omega), List.prefix_nil] at hat
      exact hp hat
    exact ⟨hi.trans (Nat.lt_succ_self _), hat, hbefore⟩

/-- What stands behind the last `c`, or all of a text without one: the base name that
`strrchr` finds. -/
def afterLast (s : CString) (c : UInt8) : CString :=
  ⟨s.bytes.rtakeWhile (· ≠ c), fun h => s.noNul ((List.rtakeWhile_suffix _ _).mem h)⟩

/-- Behind a `c` a text without one is the base name. -/
theorem afterLast_append {s t u : CString} {c : UInt8} (hs : s.bytes = u.bytes ++ [c])
    (ht : c ∉ t.bytes) : (s ++ t).afterLast c = t := by
  refine CString.ext ?_
  have hall : ∀ b ∈ t.bytes, decide (b ≠ c) = true := by
    intro b hb
    have hne : b ≠ c := fun h => ht (h ▸ hb)
    simpa using hne
  have hrev : ∀ b ∈ t.bytes.reverse, decide (b ≠ c) = true :=
    fun b hb => hall b (List.mem_reverse.mp hb)
  change (s.bytes ++ t.bytes).rtakeWhile (· ≠ c) = t.bytes
  rw [hs, List.rtakeWhile, List.append_assoc, List.reverse_append, List.reverse_append,
    List.reverse_singleton, List.append_assoc, List.takeWhile_append_of_pos hrev]
  simp

end MoonFlare.CString
