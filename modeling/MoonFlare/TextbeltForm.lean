import MoonFlare.Textbelt
import MoonFlare.UrlEncoded

/-!
# The form of a text

`tb_form` joins three escaped members. The room it asks for holds all of them, and a reader
of the form gets back exactly what was put in.
-/

namespace MoonFlare.Textbelt

open UrlEncoded

/-- `tb_escape`. -/
def tbEscape (s : CString) : CString :=
  ⟨escape s.bytes, fun h => (escape_plain h).1 rfl⟩

/-- `tb_form`: what `snprintf` leaves in the room that was asked for. -/
def tbForm (phone message key : CString) : CString :=
  let p := tbEscape phone
  let m := tbEscape message
  let k := tbEscape key
  let n := p.length + m.length + k.length + 32
  (CString.lit "phone=" ++ p ++ CString.lit "&message=" ++ m ++ CString.lit "&key=" ++ k).take
    (n - 1)

/-- The members of the form, in its order. -/
def formMembers (phone message key : CString) : List (Bytes × Bytes) :=
  [(ascii "phone", phone.bytes), (ascii "message", message.bytes), (ascii "key", key.bytes)]

/-- An escaped text fits in the room that is asked for. -/
theorem length_tbEscape_lt (s : CString) : (tbEscape s).length < s.length * 3 + 1 := by
  have h := length_escape_le s.bytes
  have hlen : (tbEscape s).length = (escape s.bytes).length := rfl
  have hs : s.length = s.bytes.length := rfl
  omega

/-- The form is not cut. -/
theorem tbForm_whole (phone message key : CString) :
    (tbForm phone message key).bytes =
      [38].intercalate ((formMembers phone message key).map fun m => m.1 ++ 61 :: escape m.2) := by
  have hbytes : (CString.lit "phone=" ++ tbEscape phone ++ CString.lit "&message=" ++
      tbEscape message ++ CString.lit "&key=" ++ tbEscape key).bytes =
      [38].intercalate ((formMembers phone message key).map fun m => m.1 ++ 61 :: escape m.2) := by
    have hphone : (CString.lit "phone=").bytes = ascii "phone" ++ [61] := by decide +kernel
    have hmessage : (CString.lit "&message=").bytes = 38 :: (ascii "message" ++ [61]) := by
      decide +kernel
    have hkey : (CString.lit "&key=").bytes = 38 :: (ascii "key" ++ [61]) := by decide +kernel
    simp only [CString.bytes_append, hphone, hmessage, hkey, tbEscape, formMembers, List.map_cons,
      List.map_nil]
    simp [List.intercalate]
  unfold tbForm
  dsimp only
  rw [CString.take_of_length_le]
  · exact hbytes
  · have hphone : (CString.lit "phone=").length = 6 := by decide +kernel
    have hmessage : (CString.lit "&message=").length = 9 := by decide +kernel
    have hkey : (CString.lit "&key=").length = 5 := by decide +kernel
    have happend : ∀ s t : CString, (s ++ t).length = s.length + t.length := by
      intro s t
      exact List.length_append
    simp only [happend, hphone, hmessage, hkey]
    omega

/-- Reading the form gives exactly the three members back, and neither the form nor an
escaped text is cut. -/
theorem tbForm_readForm (phone message key : CString) :
    readForm (tbForm phone message key).bytes = formMembers phone message key ∧
      (tbForm phone message key).bytes =
        [38].intercalate ((formMembers phone message key).map fun m => m.1 ++ 61 :: escape m.2) ∧
      ∀ s ∈ [phone, message, key], (tbEscape s).length < s.length * 3 + 1 := by
  refine ⟨?_, tbForm_whole phone message key, fun s _ => length_tbEscape_lt s⟩
  rw [tbForm_whole]
  have hnames : ∀ name ∈ [ascii "phone", ascii "message", ascii "key"],
      ∀ c ∈ name, unreserved c = true := by decide +kernel
  refine readForm_escape (by simp [formMembers]) fun m hm => hnames m.1 ?_
  simp only [formMembers, List.mem_cons, List.not_mem_nil, or_false] at hm
  rcases hm with rfl | rfl | rfl <;> simp

end MoonFlare.Textbelt
