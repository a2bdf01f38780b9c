import MoonFlare.HttpConnection
import MoonFlare.Runs

/-!
# The framing of request bodies

How many bytes behind a header block belong to it is what its `Content-Length` fields
say. The server copies such a value into 32 bytes, reads the number at its front and lets
the last field win, so it takes what the fields say exactly when that makes no difference.
Where it does, every request starts right behind the one before.
-/

namespace MoonFlare.Http

open Runs

/-! ## What the fields say -/

/-- A decimal digit. -/
def isDigitByte (b : UInt8) : Bool := (Decimal.digitOf b).isSome

/-- A value is purely digits. -/
def IsDigits (v : Bytes) : Prop := v ≠ [] ∧ ∀ b ∈ v, isDigitByte b = true

/-- The number that the digits of a value denote. -/
def decimalOf (v : Bytes) : ℕ := Decimal.ofDigits (v.filterMap Decimal.digitOf)

/-- The values of the `Content-Length` fields. -/
def lengthValues (hs : List PhrHeader) : List Bytes :=
  (hs.filter fun h => hdrNameEq h "content-length").map fun h => h.value

/-- A field is a `Transfer-Encoding` other than `identity`. -/
def IsEncoded (h : PhrHeader) : Prop :=
  hdrNameEq h "transfer-encoding" = true ∧ hdrIsIdentity h = false

/-- The fields say no length: the body is encoded, a length is not purely digits, or two
lengths differ. -/
def Ambiguous (hs : List PhrHeader) : Prop :=
  (∃ h ∈ hs, IsEncoded h) ∨ (∃ v ∈ lengthValues hs, ¬IsDigits v) ∨
    ∃ v ∈ lengthValues hs, ∃ w ∈ lengthValues hs, v ≠ w

/-- All lengths are one string of digits, and this is its value; zero when there is none. -/
def Declares (hs : List PhrHeader) (n : ℕ) : Prop :=
  lengthValues hs = [] ∧ n = 0 ∨
    ∃ v ∈ lengthValues hs, (∀ w ∈ lengthValues hs, w = v) ∧ IsDigits v ∧ n = decimalOf v

/-- The fields declare a body of that length. -/
structure Framing (hs : List PhrHeader) (n : ℕ) : Prop where
  clear : ¬Ambiguous hs
  declared : Declares hs n
  fits : n ≤ bodyCap

/-- The fields declare more than the server takes. -/
def TooLong (hs : List PhrHeader) : Prop := ∃ n, Declares hs n ∧ bodyCap < n

/-- The result of the header loop is what the fields ask for. -/
def Right (hs : List PhrHeader) (r : HeaderFields × Option HeaderReject) : Prop :=
  match r.2 with
  | none => Framing hs r.1.contentLength
  | some .tooLarge => TooLong hs
  | some .chunked => Ambiguous hs
  | some .badLength => Ambiguous hs

/-! ## What the server reads -/

/-- A length that `strtoull` does not read from its first 31 bytes. -/
def Unreadable (v : Bytes) : Prop := ∀ n, Decimal.strtoull (copyToken 32 v) ≠ some (n, false)

/-- A length that reads as more than the server takes. -/
def ReadsTooLong (v : Bytes) : Prop :=
  ∃ n, Decimal.strtoull (copyToken 32 v) = some (n, false) ∧ bodyCap < n

/-- Some field is refused as malformed, and in front of it no length reads as too long. -/
def RefusedInTime (hs : List PhrHeader) : Prop :=
  ∃ front h rest, hs = front ++ h :: rest ∧
    (IsEncoded h ∨ hdrNameEq h "content-length" = true ∧ Unreadable h.value) ∧
    ∀ v ∈ lengthValues front, ¬ReadsTooLong v

/-- The condition. Where the fields say no length one of them is refused in time, or they
declare too much as well. Where they do, the first 31 digits fit 64 bits, and they have the
value of all of them or are too much already. -/
def ReadAsWritten (hs : List PhrHeader) : Prop :=
  (Ambiguous hs → RefusedInTime hs ∨ TooLong hs) ∧
    (¬Ambiguous hs → ∀ v ∈ lengthValues hs, decimalOf (v.take 31) < 2 ^ 64 ∧
      (decimalOf v = decimalOf (v.take 31) ∨ bodyCap < decimalOf (v.take 31)))

/-! ## Digits -/

theorem spanDigits_of_digits {v : Bytes} (h : ∀ b ∈ v, isDigitByte b = true) :
    Decimal.spanDigits v = (v.filterMap Decimal.digitOf, []) := by
  induction v with
  | nil => rfl
  | cons b v ih =>
    obtain ⟨d, hd⟩ := Option.isSome_iff_exists.mp (h b List.mem_cons_self)
    rw [Decimal.spanDigits, hd, ih fun c hc => h c (List.mem_cons_of_mem b hc),
      List.filterMap_cons_some hd]

theorem filterMap_ne_nil {v : Bytes} (h : IsDigits v) : v.filterMap Decimal.digitOf ≠ [] := by
  obtain ⟨hne, hall⟩ := h
  cases v with
  | nil => exact absurd rfl hne
  | cons b v =>
    obtain ⟨d, hd⟩ := Option.isSome_iff_exists.mp (hall b List.mem_cons_self)
    rw [List.filterMap_cons_some hd]
    exact List.cons_ne_nil _ _

theorem isDigits_take {v : Bytes} (h : IsDigits v) {k : ℕ} (hk : k ≠ 0) : IsDigits (v.take k) := by
  refine ⟨fun hnil => ?_, fun b hb => h.2 b (List.mem_of_mem_take hb)⟩
  rcases List.take_eq_nil_iff.mp hnil with hzero | hnone
  · exact hk hzero
  · exact h.1 hnone

/-- The bytes of a digit are between the characters zero and nine. -/
theorem toNat_of_digit {b : UInt8} (h : isDigitByte b = true) : 48 ≤ b.toNat ∧ b.toNat ≤ 57 := by
  unfold isDigitByte Decimal.digitOf at h
  by_contra hno
  rw [dif_neg hno] at h
  cases h

/-- `strtoull` reads purely digits as their value, when that fits. -/
theorem strtoull_of_digits {v : Bytes} (h : IsDigits v) :
    Decimal.strtoull (CString.ofBytes v) =
      if 2 ^ 64 ≤ decimalOf v then some (2 ^ 64 - 1, true) else some (decimalOf v, false) := by
  have hspan := spanDigits_of_digits h.2
  have hsome := filterMap_ne_nil h
  obtain ⟨hne, hall⟩ := h
  have hbytes : (CString.ofBytes v).bytes = v := by
    refine CString.bytes_ofBytes ?_
    intro hzero
    have hdigit := toNat_of_digit (hall 0 hzero)
    simp at hdigit
  have hplain : Decimal.scanSign (v.dropWhile Double.isSpace) = (false, v) := by
    cases v with
    | nil => exact absurd rfl hne
    | cons b v =>
      have hdigit := toNat_of_digit (hall b List.mem_cons_self)
      have hspace : Double.isSpace b = false := by
        rw [Bool.eq_false_iff]
        intro hb
        simp only [Double.isSpace, Bool.or_eq_true, beq_iff_eq, Bool.and_eq_true,
          decide_eq_true_eq, UInt8.le_iff_toNat_le] at hb
        rcases hb with hb | hb
        · rw [hb] at hdigit
          simp at hdigit
        · have h13 : (13 : UInt8).toNat = 13 := rfl
          omega
      rw [List.dropWhile_cons_of_neg (by simp [hspace])]
      have hminus : b ≠ 45 := by
        rintro rfl
        simp at hdigit
      have hplus : b ≠ 43 := by
        rintro rfl
        simp at hdigit
      rw [Decimal.scanSign]
      · exact fun rest heq => hminus (List.cons.inj heq).1
      · exact fun rest heq => hplus (List.cons.inj heq).1
  unfold Decimal.strtoull
  rw [hbytes, hplain]
  dsimp only
  rw [hspan, decimalOf]
  cases hds : v.filterMap Decimal.digitOf with
  | nil => exact absurd hds hsome
  | cons d ds => rfl

theorem ofDigits_append (ds es : List (Fin 10)) :
    Decimal.ofDigits (ds ++ es) =
      Decimal.ofDigits ds * 10 ^ es.length + Decimal.ofDigits es := by
  rw [Decimal.ofDigits, List.foldl_append, Decimal.ofDigits_foldl]
  rfl

/-- The first digits alone are no more than all of them. -/
theorem decimalOf_take_le (v : Bytes) (k : ℕ) : decimalOf (v.take k) ≤ decimalOf v := by
  have hsplit : decimalOf v =
      decimalOf (v.take k) * 10 ^ ((v.drop k).filterMap Decimal.digitOf).length +
        decimalOf (v.drop k) := by
    conv_lhs => rw [decimalOf, ← List.take_append_drop k v, List.filterMap_append]
    exact ofDigits_append _ _
  rw [hsplit]
  exact (Nat.le_mul_of_pos_right _ (by positivity)).trans (Nat.le_add_right _ _)

/-! ## The header loop -/

/-- Why a length is refused. -/
def lengthReject (v : Bytes) : Option HeaderReject :=
  match Decimal.strtoull (copyToken 32 v) with
  | none => some .badLength
  | some (cl, overflow) =>
    if overflow then some .badLength else if bodyCap < cl then some .tooLarge else none

/-- Why a field is refused. -/
def fieldReject (h : PhrHeader) : Option HeaderReject :=
  if hdrNameEq h "transfer-encoding" then (if hdrIsIdentity h then none else some .chunked)
  else if hdrNameEq h "content-length" then lengthReject h.value
  else none

/-- The number that a length reads as. -/
def lengthRead (v : Bytes) : ℕ := ((Decimal.strtoull (copyToken 32 v)).map Prod.fst).getD 0

theorem not_encoding_of_length {h : PhrHeader} (hlen : hdrNameEq h "content-length" = true) :
    hdrNameEq h "transfer-encoding" = false := by
  unfold hdrNameEq at hlen ⊢
  cases hname : h.name with
  | none => rfl
  | some n =>
    rw [hname] at hlen
    dsimp only at hlen ⊢
    rw [beq_iff_eq] at hlen
    rw [hlen]
    decide

theorem fieldReject_of_length {h : PhrHeader} (hlen : hdrNameEq h "content-length" = true) :
    fieldReject h = lengthReject h.value := by
  unfold fieldReject
  rw [not_encoding_of_length hlen, hlen]
  rfl

/-- One round of the loop. -/
theorem headerStep_eq (f : HeaderFields) (h : PhrHeader) :
    (headerStep f h).2 = fieldReject h ∧
      (fieldReject h = none → (headerStep f h).1.contentLength =
        if hdrNameEq h "content-length" then lengthRead h.value else f.contentLength) := by
  unfold headerStep fieldReject
  by_cases henc : hdrNameEq h "transfer-encoding" = true
  · have hno : hdrNameEq h "content-length" = false := by
      by_contra hlen
      rw [not_encoding_of_length (by simpa using hlen)] at henc
      cases henc
    simp only [henc, hno, if_true]
    exact ⟨trivial, fun _ => rfl⟩
  · simp only [henc, Bool.false_eq_true, if_false]
    by_cases hlen : hdrNameEq h "content-length" = true
    · simp only [hlen, if_true, lengthReject, lengthRead]
      cases hread : Decimal.strtoull (copyToken 32 h.value) with
      | none => exact ⟨rfl, fun hno => by cases hno⟩
      | some r =>
        obtain ⟨cl, overflow⟩ := r
        dsimp only
        cases overflow with
        | true => exact ⟨rfl, fun hno => by cases hno⟩
        | false =>
          simp only [Bool.false_eq_true, if_false]
          split
          · exact ⟨rfl, fun hno => by cases hno⟩
          · exact ⟨rfl, fun _ => rfl⟩
    · simp only [hlen, Bool.false_eq_true, if_false]
      split_ifs
      · exact ⟨rfl, fun _ => rfl⟩
      · exact ⟨rfl, fun _ => rfl⟩
      · exact ⟨rfl, fun _ => rfl⟩
      · exact ⟨rfl, fun _ => rfl⟩
      · exact ⟨rfl, fun _ => rfl⟩

/-- The loop stops at the first field that is refused. -/
theorem headerLoop_reject (f : HeaderFields) (hs : List PhrHeader) :
    (headerLoop f hs).2 = hs.findSome? fieldReject := by
  induction hs generalizing f with
  | nil => rfl
  | cons h hs ih =>
    have hstep := (headerStep_eq f h).1
    unfold headerLoop
    rw [List.findSome?_cons]
    rcases hres : headerStep f h with ⟨f', reject⟩
    rw [hres] at hstep
    dsimp only at hstep
    rw [← hstep]
    cases reject with
    | none => exact ih f'
    | some r => rfl

theorem lengthValues_cons (h : PhrHeader) (hs : List PhrHeader) :
    lengthValues (h :: hs) =
      if hdrNameEq h "content-length" then h.value :: lengthValues hs else lengthValues hs := by
  unfold lengthValues
  rw [List.filter_cons]
  split
  · rfl
  · rfl

/-- When none is refused the last length counts. -/
theorem headerLoop_length (f : HeaderFields) {hs : List PhrHeader}
    (hnone : hs.findSome? fieldReject = none) :
    (headerLoop f hs).1.contentLength =
      ((lengthValues hs).getLast?.map lengthRead).getD f.contentLength := by
  induction hs generalizing f with
  | nil => rfl
  | cons h hs ih =>
    rw [List.findSome?_cons] at hnone
    have hfirst : fieldReject h = none := by
      cases hr : fieldReject h with
      | none => rfl
      | some r => rw [hr] at hnone; cases hnone
    rw [hfirst] at hnone
    obtain ⟨hstep, hlength⟩ := headerStep_eq f h
    have hlength := hlength hfirst
    unfold headerLoop
    rcases hres : headerStep f h with ⟨f', reject⟩
    rw [hres] at hstep hlength
    dsimp only at hstep hlength
    rw [hfirst] at hstep
    rw [hstep]
    dsimp only
    rw [ih f' hnone, hlength, lengthValues_cons]
    split
    · cases hvals : lengthValues hs with
      | nil => rfl
      | cons v vs =>
        rw [List.getLast?_cons_cons]
        cases hlast : (v :: vs).getLast? with
        | none => simp at hlast
        | some w => rfl
    · rfl

/-- A length that is not refused is no more than the server takes. -/
theorem lengthRead_le {v : Bytes} (h : lengthReject v = none) : lengthRead v ≤ bodyCap := by
  unfold lengthReject at h
  unfold lengthRead
  cases hread : Decimal.strtoull (copyToken 32 v) with
  | none => exact Nat.zero_le _
  | some r =>
    obtain ⟨cl, overflow⟩ := r
    simp only [hread] at h
    rw [Option.map_some, Option.getD_some]
    split_ifs at h with hover hlarge
    omega

/-- Nor is the length that the loop ends with. -/
theorem headerLoop_le {f : HeaderFields} (hf : f.contentLength = 0) {hs : List PhrHeader}
    (hnone : (headerLoop f hs).2 = none) : (headerLoop f hs).1.contentLength ≤ bodyCap := by
  rw [headerLoop_reject] at hnone
  rw [headerLoop_length f hnone, hf]
  cases hlast : (lengthValues hs).getLast? with
  | none => exact Nat.zero_le _
  | some v =>
    rw [Option.map_some, Option.getD_some]
    have hv := List.mem_of_getLast? hlast
    simp only [lengthValues, List.mem_map, List.mem_filter] at hv
    obtain ⟨h, ⟨hmem, hlen⟩, rfl⟩ := hv
    refine lengthRead_le ?_
    rw [← fieldReject_of_length hlen]
    exact List.findSome?_eq_none_iff.mp hnone h hmem

/-! ## When the server reads what is written -/

theorem lengthReject_of_digits {v : Bytes} (h : IsDigits v) :
    lengthReject v = if 2 ^ 64 ≤ decimalOf (v.take 31) then some .badLength
      else if bodyCap < decimalOf (v.take 31) then some .tooLarge else none := by
  have hread := strtoull_of_digits (isDigits_take h (show 31 ≠ 0 by decide))
  unfold lengthReject copyToken
  rw [hread]
  by_cases hbig : 2 ^ 64 ≤ decimalOf (v.take 31)
  · simp only [if_pos hbig, if_true]
  · simp only [if_neg hbig, Bool.false_eq_true, if_false]

theorem lengthRead_of_digits {v : Bytes} (h : IsDigits v) (hfit : decimalOf (v.take 31) < 2 ^ 64) :
    lengthRead v = decimalOf (v.take 31) := by
  have hread := strtoull_of_digits (isDigits_take h (show 31 ≠ 0 by decide))
  rw [lengthRead, copyToken, hread, if_neg (by omega)]
  rfl

/-- A length is refused as malformed exactly when it is unreadable. -/
theorem lengthReject_eq_badLength {v : Bytes} :
    lengthReject v = some .badLength ↔ Unreadable v := by
  unfold lengthReject Unreadable
  cases hread : Decimal.strtoull (copyToken 32 v) with
  | none => simp
  | some r =>
    obtain ⟨cl, overflow⟩ := r
    cases overflow with
    | true => simp
    | false =>
      simp only [Bool.false_eq_true, if_false]
      constructor
      · intro h
        split at h
        · cases h
        · cases h
      · exact fun h => absurd rfl (h cl)

/-- It is refused as too large exactly when it reads as that. -/
theorem lengthReject_eq_tooLarge {v : Bytes} :
    lengthReject v = some .tooLarge ↔ ReadsTooLong v := by
  unfold lengthReject ReadsTooLong
  cases hread : Decimal.strtoull (copyToken 32 v) with
  | none => simp
  | some r =>
    obtain ⟨cl, overflow⟩ := r
    cases overflow with
    | true => simp
    | false => simp

/-- A field is refused as malformed when it is encoded, or an unreadable length. -/
theorem fieldReject_malformed {h : PhrHeader} :
    (fieldReject h = some .chunked ∨ fieldReject h = some .badLength) ↔
      IsEncoded h ∨ hdrNameEq h "content-length" = true ∧ Unreadable h.value := by
  by_cases henc : hdrNameEq h "transfer-encoding" = true
  · have hno : hdrNameEq h "content-length" = false := by
      by_contra hlen
      rw [not_encoding_of_length (by simpa using hlen)] at henc
      cases henc
    unfold fieldReject IsEncoded
    rw [henc, hno]
    cases hdrIsIdentity h <;> simp
  · by_cases hlen : hdrNameEq h "content-length" = true
    · rw [fieldReject_of_length hlen, lengthReject_eq_badLength]
      have hnot : lengthReject h.value ≠ some .chunked := by
        unfold lengthReject
        split
        · simp
        · split_ifs <;> simp
      simp [IsEncoded, henc, hlen, hnot]
    · simp [fieldReject, IsEncoded, henc, hlen]

theorem fieldReject_tooLarge {h : PhrHeader} :
    fieldReject h = some .tooLarge ↔ hdrNameEq h "content-length" = true ∧ ReadsTooLong h.value := by
  by_cases hlen : hdrNameEq h "content-length" = true
  · rw [fieldReject_of_length hlen, lengthReject_eq_tooLarge]
    exact (and_iff_right hlen).symm
  · unfold fieldReject
    rw [if_neg hlen]
    split_ifs <;> simp [hlen]

theorem mem_lengthValues {hs : List PhrHeader} {v : Bytes} :
    v ∈ lengthValues hs ↔ ∃ h ∈ hs, hdrNameEq h "content-length" = true ∧ h.value = v := by
  simp [lengthValues, and_assoc]

/-- The loop refuses the request as malformed exactly when a field is refused in time. -/
theorem refusedInTime_iff {hs : List PhrHeader} :
    RefusedInTime hs ↔
      hs.findSome? fieldReject = some .chunked ∨ hs.findSome? fieldReject = some .badLength := by
  constructor
  · rintro ⟨front, h, rest, rfl, hbad, htime⟩
    have hfirst := fieldReject_malformed.mpr hbad
    rw [List.findSome?_append]
    cases hfront : front.findSome? fieldReject with
    | none =>
      rw [Option.none_or, List.findSome?_cons]
      rcases hfirst with hfirst | hfirst
      · rw [hfirst]
        exact Or.inl rfl
      · rw [hfirst]
        exact Or.inr rfl
    | some r =>
      cases r with
      | chunked => exact Or.inl rfl
      | badLength => exact Or.inr rfl
      | tooLarge =>
        obtain ⟨g, hg, hrej⟩ := List.exists_of_findSome?_eq_some hfront
        obtain ⟨hlen, hread⟩ := fieldReject_tooLarge.mp hrej
        exact absurd hread (htime g.value (mem_lengthValues.mpr ⟨g, hg, hlen, rfl⟩))
  · intro hfound
    obtain ⟨r, hr, hkind⟩ : ∃ r, hs.findSome? fieldReject = some r ∧
        (r = .chunked ∨ r = .badLength) := by
      rcases hfound with h | h
      · exact ⟨_, h, Or.inl rfl⟩
      · exact ⟨_, h, Or.inr rfl⟩
    obtain ⟨front, h, rest, hsplit, hrej, hnone⟩ := List.findSome?_eq_some_iff.mp hr
    refine ⟨front, h, rest, hsplit, fieldReject_malformed.mp ?_, fun v hv hread => ?_⟩
    · rcases hkind with rfl | rfl
      · exact Or.inl hrej
      · exact Or.inr hrej
    · obtain ⟨g, hg, hlen, rfl⟩ := mem_lengthValues.mp hv
      have htoo := fieldReject_tooLarge.mpr ⟨hlen, hread⟩
      rw [hnone g hg] at htoo
      cases htoo

/-- What is declared is one number. -/
theorem declares_unique {hs : List PhrHeader} {n : ℕ} (h : Declares hs n) {v : Bytes}
    (hv : v ∈ lengthValues hs) : n = decimalOf v := by
  rcases h with ⟨hnil, -⟩ | ⟨w, -, hall, -, rfl⟩
  · rw [hnil] at hv
    cases hv
  · rw [hall v hv]

theorem declares_inj {hs : List PhrHeader} {n m : ℕ} (hn : Declares hs n) (hm : Declares hs m) :
    n = m := by
  rcases hn with ⟨hnil, hzero⟩ | ⟨v, hv, hall, hdigits, hval⟩
  · rcases hm with ⟨-, hzero'⟩ | ⟨w, hw, -⟩
    · rw [hzero, hzero']
    · rw [hnil] at hw
      cases hw
  · rw [hval, declares_unique hm hv]

/-- Lengths that are not ambiguous are all one string of digits. -/
theorem digits_of_clear {hs : List PhrHeader} (h : ¬Ambiguous hs) {v : Bytes}
    (hv : v ∈ lengthValues hs) : IsDigits v ∧ ∀ w ∈ lengthValues hs, w = v := by
  simp only [Ambiguous, not_or, not_exists, not_and, not_not] at h
  exact ⟨h.2.1 v hv, fun w hw => h.2.2 w hw v hv⟩

theorem declares_of_clear {hs : List PhrHeader} (h : ¬Ambiguous hs) : ∃ n, Declares hs n := by
  cases hvals : lengthValues hs with
  | nil => exact ⟨0, Or.inl ⟨hvals, rfl⟩⟩
  | cons v vs =>
    have hv : v ∈ lengthValues hs := by rw [hvals]; exact List.mem_cons_self
    obtain ⟨hdigits, hsame⟩ := digits_of_clear h hv
    exact ⟨_, Or.inr ⟨v, hv, hsame, hdigits, rfl⟩⟩

/-- A field that is not refused, among fields that are not ambiguous, is no length or reads. -/
theorem findSome?_of_clear {hs : List PhrHeader} (h : ¬Ambiguous hs) :
    hs.findSome? fieldReject = (lengthValues hs).head?.bind lengthReject := by
  have hfields : ∀ g ∈ hs, fieldReject g =
      if hdrNameEq g "content-length" then lengthReject g.value else none := by
    intro g hg
    by_cases hlen : hdrNameEq g "content-length" = true
    · rw [fieldReject_of_length hlen, if_pos hlen]
    · rw [if_neg hlen]
      unfold fieldReject
      rw [if_neg hlen]
      by_cases henc : hdrNameEq g "transfer-encoding" = true
      · rw [if_pos henc]
        by_cases hid : hdrIsIdentity g = true
        · rw [if_pos hid]
        · exact absurd (Or.inl ⟨g, hg, henc, by simpa using hid⟩) h
      · rw [if_neg henc]
  cases hvals : lengthValues hs with
  | nil =>
    refine List.findSome?_eq_none_iff.mpr fun g hg => ?_
    rw [hfields g hg, if_neg]
    intro hlen
    have hmem := mem_lengthValues.mpr ⟨g, hg, hlen, rfl⟩
    rw [hvals] at hmem
    cases hmem
  | cons v vs =>
    have hv : v ∈ lengthValues hs := by rw [hvals]; exact List.mem_cons_self
    obtain ⟨-, hsame⟩ := digits_of_clear h hv
    have hvalue : ∀ g ∈ hs, hdrNameEq g "content-length" = true → g.value = v :=
      fun g hg hlen => hsame _ (mem_lengthValues.mpr ⟨g, hg, hlen, rfl⟩)
    rw [List.head?_cons, Option.bind_some]
    cases hrej : lengthReject v with
    | none =>
      refine List.findSome?_eq_none_iff.mpr fun g hg => ?_
      rw [hfields g hg]
      split
      · next hlen => rw [hvalue g hg hlen, hrej]
      · rfl
    | some r =>
      obtain ⟨g, hg, hlen, -⟩ := mem_lengthValues.mp hv
      have hfound : (hs.findSome? fieldReject).isSome := by
        rw [List.findSome?_isSome_iff]
        exact ⟨g, hg, by rw [hfields g hg, if_pos hlen, hvalue g hg hlen, hrej]; rfl⟩
      obtain ⟨r', hr'⟩ := Option.isSome_iff_exists.mp hfound
      obtain ⟨g', hg', hrej'⟩ := List.exists_of_findSome?_eq_some hr'
      rw [hfields g' hg'] at hrej'
      split at hrej'
      · next hlen' =>
        rw [hvalue g' hg' hlen', hrej] at hrej'
        rw [hr', ← hrej']
      · cases hrej'

/-- Where the fields are clear. -/
theorem right_of_clear {hs : List PhrHeader} (h : ¬Ambiguous hs) (f : HeaderFields)
    (hf : f.contentLength = 0) :
    Right hs (headerLoop f hs) ↔ ∀ v ∈ lengthValues hs, decimalOf (v.take 31) < 2 ^ 64 ∧
      (decimalOf v = decimalOf (v.take 31) ∨ bodyCap < decimalOf (v.take 31)) := by
  have hrej := headerLoop_reject f hs
  have hfound := findSome?_of_clear h
  cases hvals : lengthValues hs with
  | nil =>
    rw [hvals, List.head?_nil, Option.bind_none] at hfound
    have hlength := headerLoop_length f hfound
    rw [hvals, List.getLast?_nil, Option.map_none, Option.getD_none, hf] at hlength
    rw [hfound] at hrej
    unfold Right
    rw [hrej]
    dsimp only
    rw [hlength]
    refine ⟨fun _ v hv => (by cases hv), fun _ => ⟨h, Or.inl ⟨hvals, rfl⟩, Nat.zero_le _⟩⟩
  | cons v vs =>
    have hv : v ∈ lengthValues hs := by rw [hvals]; exact List.mem_cons_self
    obtain ⟨hdigits, hsame⟩ := digits_of_clear h hv
    have hall : (∀ w ∈ v :: vs, decimalOf (w.take 31) < 2 ^ 64 ∧
        (decimalOf w = decimalOf (w.take 31) ∨ bodyCap < decimalOf (w.take 31))) ↔
        decimalOf (v.take 31) < 2 ^ 64 ∧
        (decimalOf v = decimalOf (v.take 31) ∨ bodyCap < decimalOf (v.take 31)) := by
      constructor
      · exact fun hw => hw v List.mem_cons_self
      · intro hw w hwmem
        rw [hsame w (by rw [hvals]; exact hwmem)]
        exact hw
    have hdeclares : Declares hs (decimalOf v) := Or.inr ⟨v, hv, hsame, hdigits, rfl⟩
    have hle := decimalOf_take_le v 31
    have hreject := lengthReject_of_digits hdigits
    rw [hvals, List.head?_cons, Option.bind_some, hreject] at hfound
    rw [hfound] at hrej
    rw [hall]
    unfold Right
    by_cases hbig : 2 ^ 64 ≤ decimalOf (v.take 31)
    · rw [if_pos hbig] at hrej
      rw [hrej]
      dsimp only
      exact ⟨fun hamb => absurd hamb h, fun hw => absurd hw.1 (by omega)⟩
    · rw [if_neg hbig] at hrej hfound
      by_cases hover : bodyCap < decimalOf (v.take 31)
      · rw [if_pos hover] at hrej
        rw [hrej]
        dsimp only
        exact ⟨fun _ => ⟨by omega, Or.inr hover⟩, fun _ => ⟨_, hdeclares, by omega⟩⟩
      · rw [if_neg hover] at hrej hfound
        have hlength := headerLoop_length f hfound
        have hlast : (lengthValues hs).getLast? = some v := by
          have hne : lengthValues hs ≠ [] := by rw [hvals]; exact List.cons_ne_nil _ _
          rw [List.getLast?_eq_some_getLast hne]
          exact congrArg some (hsame _ (List.getLast_mem hne))
        rw [hlast, Option.map_some, Option.getD_some,
          lengthRead_of_digits hdigits (by omega)] at hlength
        rw [hrej]
        dsimp only
        rw [hlength]
        constructor
        · intro hframing
          exact ⟨by omega, Or.inl (declares_unique hframing.declared hv).symm⟩
        · rintro ⟨-, heq | hless⟩
          · exact ⟨h, heq ▸ hdeclares, by omega⟩
          · omega

/-- The server does with a header block what its fields ask for exactly under the condition. -/
theorem right_iff (hs : List PhrHeader) (f : HeaderFields) (hf : f.contentLength = 0) :
    Right hs (headerLoop f hs) ↔ ReadAsWritten hs := by
  unfold ReadAsWritten
  by_cases h : Ambiguous hs
  · have hrej := headerLoop_reject f hs
    simp only [h, not_true_eq_false, true_imp_iff, false_imp_iff, and_true]
    rw [refusedInTime_iff]
    unfold Right
    rw [hrej]
    cases hfound : hs.findSome? fieldReject with
    | none =>
      dsimp only
      constructor
      · exact fun hframing => absurd h hframing.clear
      · rintro ((hno | hno) | ⟨n, hdecl, -⟩)
        · cases hno
        · cases hno
        · exfalso
          rcases h with ⟨g, hg, henc⟩ | ⟨v, hv, hno⟩ | ⟨v, hv, w, hw, hne⟩
          · have hrefused := fieldReject_malformed.mpr (Or.inl henc)
            rw [List.findSome?_eq_none_iff.mp hfound g hg] at hrefused
            simp at hrefused
          · rcases hdecl with ⟨hnil, -⟩ | ⟨w, -, hall, hdigits, -⟩
            · rw [hnil] at hv
              cases hv
            · exact hno (hall v hv ▸ hdigits)
          · rcases hdecl with ⟨hnil, -⟩ | ⟨u, -, hall, -, -⟩
            · rw [hnil] at hv
              cases hv
            · exact hne ((hall v hv).trans (hall w hw).symm)
    | some r =>
      cases r with
      | chunked => exact ⟨fun _ => Or.inl (Or.inl rfl), fun _ => h⟩
      | badLength => exact ⟨fun _ => Or.inl (Or.inr rfl), fun _ => h⟩
      | tooLarge =>
        dsimp only
        simp
  · rw [right_of_clear h f hf]
    simp only [h, false_imp_iff, true_and, not_false_iff, true_imp_iff]

end MoonFlare.Http
