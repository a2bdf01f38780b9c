import Mathlib

/-!
# Scanning a stream for frames

Frames of a fixed size begin with a header and carry a check. A scanner goes
through a stream position by position: where a header begins, the frame is taken
if its check holds, waited for if it is not all there, and passed over otherwise.
What was scanned of a stream says how the scan of any longer one goes on.
-/

namespace MoonFlare.FrameScan

/-- A format of frames. The header's first symbol does not come again in it. -/
structure Format (α : Type*) where
  header : List α
  size : ℕ
  /-- The check of a frame, its header apart. -/
  valid : List α → Bool
  fits : header.length ≤ size
  sharp : ∀ k, 0 < k → header[k]? ≠ header[0]?

namespace Format

variable {α : Type*} (F : Format α)

theorem header_pos : 0 < F.header.length := by
  by_contra hempty
  have hnone (k : ℕ) (hk : 0 ≤ k) : F.header[k]? = none := List.getElem?_eq_none (by omega)
  exact F.sharp 1 one_pos ((hnone 1 (by omega)).trans (hnone 0 (by omega)).symm)

variable [DecidableEq α]

/-- A header begins a stream. -/
def starts (s : List α) : Bool := decide (s.take F.header.length = F.header)

/-- The scanner. -/
def scan : List α → List (List α)
  | [] => []
  | a :: s =>
    if F.starts (a :: s) then
      if (a :: s).length < F.size then []
      else if F.valid ((a :: s).take F.size) then
        (a :: s).take F.size :: scan ((a :: s).drop F.size)
      else scan s
    else scan s
termination_by s => s.length
decreasing_by
  · have hpos := F.header_pos
    have hfits := F.fits
    simp only [List.length_drop, List.length_cons]
    omega
  · simp
  · simp

/-- A whole frame: its size, its header and its check. -/
structure IsFrame (f : List α) : Prop where
  length : f.length = F.size
  starts : F.starts f = true
  valid : F.valid f = true

/-- No header is in a stretch of the stream. -/
def NoHeader (s : List α) : Prop := ∀ i, F.starts (s.drop i) = false

variable {F}

theorem starts_append {s : List α} (h : F.header.length ≤ s.length) (ys : List α) :
    F.starts (s ++ ys) = F.starts s := by
  unfold starts
  rw [List.take_append_of_le_length h]

/-- A header that begins a stream is all there. -/
theorem length_of_starts {s : List α} (h : F.starts s = true) : F.header.length ≤ s.length := by
  have htake : s.take F.header.length = F.header := of_decide_eq_true h
  have hlen := congrArg List.length htake
  rw [List.length_take] at hlen
  omega

theorem scan_nil : F.scan [] = [] := by rw [scan]

/-- Where no header begins, the scanner moves on. -/
theorem scan_of_not_starts {s : List α} (h : F.starts s = false) : F.scan s = F.scan (s.drop 1) := by
  cases s with
  | nil => rfl
  | cons a s =>
    rw [scan, h]
    rfl

/-- A frame that is not all there is waited for. -/
theorem scan_of_partial {s : List α} (h : F.starts s = true) (hlen : s.length < F.size) :
    F.scan s = [] := by
  cases s with
  | nil => exact scan_nil
  | cons a s => rw [scan, if_pos h, if_pos hlen]

/-- A frame whose check holds is taken. -/
theorem scan_of_valid {s : List α} (h : F.starts s = true) (hlen : F.size ≤ s.length)
    (hvalid : F.valid (s.take F.size) = true) :
    F.scan s = s.take F.size :: F.scan (s.drop F.size) := by
  cases s with
  | nil =>
    have hpos := F.header_pos
    have hstarts := length_of_starts h
    simp at hstarts
    simp [hstarts] at hpos
  | cons a s => rw [scan, if_pos h, if_neg (by omega), if_pos hvalid]

/-- A frame whose check fails is passed over. -/
theorem scan_of_invalid {s : List α} (h : F.starts s = true) (hlen : F.size ≤ s.length)
    (hvalid : F.valid (s.take F.size) = false) : F.scan s = F.scan (s.drop 1) := by
  cases s with
  | nil => rfl
  | cons a s =>
    rw [scan, if_pos h, if_neg (by omega), if_neg (by simp [hvalid])]
    rfl

/-- Positions at which no header begins are passed over. -/
theorem scan_drop {s : List α} {n : ℕ} (h : ∀ i < n, F.starts (s.drop i) = false) :
    F.scan s = F.scan (s.drop n) := by
  induction n with
  | zero => rfl
  | succ n ih =>
    rw [ih fun i hi => h i (by omega), scan_of_not_starts (h n (by omega)), List.drop_drop]

/-- Too short a stream has no frames. -/
theorem scan_of_short {s : List α} (h : s.length < F.size) : F.scan s = [] := by
  induction s with
  | nil => exact scan_nil
  | cons a s ih =>
    cases hs : F.starts (a :: s) with
    | true => exact scan_of_partial hs h
    | false =>
      rw [scan_of_not_starts hs]
      exact ih (by simp only [List.length_cons] at h; omega)

/-- A stretch without a header has no frames. -/
theorem scan_noHeader {s : List α} (h : F.NoHeader s) : F.scan s = [] := by
  rw [scan_drop (n := s.length) fun i _ => h i, List.drop_length, scan_nil]

/-! ## What was scanned so far -/

/-- Of a buffer, these frames are scanned and this much is left, whatever comes
behind it. -/
def Scanned (F : Format α) (buf : List α) (fs : List (List α)) (rest : List α) : Prop :=
  ∀ ys, F.scan (buf ++ ys) = fs ++ F.scan (rest ++ ys)

theorem Scanned.refl (buf : List α) : Scanned F buf [] buf := fun _ => rfl

theorem Scanned.trans {buf rest rest' : List α} {fs gs : List (List α)} (h : Scanned F buf fs rest)
    (h' : Scanned F rest gs rest') : Scanned F buf (fs ++ gs) rest' := by
  intro ys
  rw [h ys, h' ys, List.append_assoc]

/-- More of the stream behind the buffer. -/
theorem Scanned.append {buf rest : List α} {fs : List (List α)} (h : Scanned F buf fs rest)
    (ys : List α) : Scanned F (buf ++ ys) fs (rest ++ ys) := by
  intro zs
  rw [List.append_assoc, List.append_assoc]
  exact h (ys ++ zs)

/-- What was scanned is the scan itself when nothing that is left makes a
frame. -/
theorem Scanned.eq {buf rest : List α} {fs : List (List α)} (h : Scanned F buf fs rest)
    (hrest : rest.length < F.size) : F.scan buf = fs := by
  have hall := h []
  rwa [List.append_nil, List.append_nil, scan_of_short hrest, List.append_nil] at hall

/-- Positions at which no header begins, each with room for a whole header
behind it. -/
theorem scanned_drop {s : List α} {n : ℕ} (h : ∀ i < n, F.starts (s.drop i) = false)
    (hlen : ∀ i < n, i + F.header.length ≤ s.length) : Scanned F s [] (s.drop n) := by
  intro ys
  rcases Nat.eq_zero_or_pos n with rfl | hpos
  · rfl
  have hle : n ≤ s.length := by
    have hroom := hlen (n - 1) (by omega)
    have hheader := F.header_pos
    omega
  have hstarts (i : ℕ) (hi : i < n) : F.starts ((s ++ ys).drop i) = false := by
    have hroom := hlen i hi
    rw [List.drop_append_of_le_length (by omega), starts_append (by rw [List.length_drop]; omega)]
    exact h i hi
  rw [scan_drop hstarts, List.drop_append_of_le_length hle]
  rfl

/-- A frame at the front of the buffer. -/
theorem scanned_valid {s : List α} (h : F.starts s = true) (hlen : F.size ≤ s.length)
    (hvalid : F.valid (s.take F.size) = true) : Scanned F s [s.take F.size] (s.drop F.size) := by
  intro ys
  have hstarts : F.starts (s ++ ys) = true := (starts_append (length_of_starts h) ys).trans h
  have htake : (s ++ ys).take F.size = s.take F.size := List.take_append_of_le_length hlen
  rw [scan_of_valid hstarts (by rw [List.length_append]; omega) (htake ▸ hvalid), htake,
    List.drop_append_of_le_length hlen]
  rfl

/-- A frame at the front of the buffer whose check fails, up to the next
header. -/
theorem scanned_invalid {s : List α} (h : F.starts s = true) (hlen : F.size ≤ s.length)
    (hvalid : F.valid (s.take F.size) = false) {n : ℕ} (hn : 0 < n)
    (hnext : ∀ i < n, 0 < i → F.starts (s.drop i) = false)
    (hroom : ∀ i < n, i + F.header.length ≤ s.length) : Scanned F s [] (s.drop n) := by
  have hfirst : Scanned F s [] (s.drop 1) := by
    intro ys
    have hstarts : F.starts (s ++ ys) = true := (starts_append (length_of_starts h) ys).trans h
    have htake : (s ++ ys).take F.size = s.take F.size := List.take_append_of_le_length hlen
    have hpos := F.header_pos
    have hfits := F.fits
    rw [scan_of_invalid hstarts (by rw [List.length_append]; omega) (htake ▸ hvalid),
      List.drop_append_of_le_length (by omega)]
    rfl
  have hrest : Scanned F (s.drop 1) [] ((s.drop 1).drop (n - 1)) := by
    refine scanned_drop (fun i hi => ?_) fun i hi => ?_
    · rw [List.drop_drop]
      exact hnext (1 + i) (by omega) (by omega)
    · have hlast := hroom (i + 1) (by omega)
      rw [List.length_drop]
      omega
  have hboth := hfirst.trans hrest
  rwa [List.drop_drop, show 1 + (n - 1) = n by omega] at hboth

/-! ## A frame behind junk -/

/-- A header does not begin in junk and end in the frame behind it. -/
theorem starts_junk {junk f : List α} (hjunk : F.NoHeader junk) (hf : F.IsFrame f) {i : ℕ}
    (hi : i < junk.length) (ys : List α) : F.starts ((junk ++ (f ++ ys)).drop i) = false := by
  rw [List.drop_append_of_le_length (by omega)]
  by_cases hlong : F.header.length ≤ (junk.drop i).length
  · rw [starts_append hlong]
    exact hjunk i
  · rw [starts, decide_eq_false_iff_not]
    intro heq
    have hpos : 0 < (junk.drop i).length := by
      rw [List.length_drop]
      omega
    have hfirst : f[0]? = F.header[0]? := by
      have htake : f.take F.header.length = F.header := of_decide_eq_true hf.starts
      rw [← htake, List.getElem?_take_of_lt F.header_pos]
    have hhere : (junk.drop i ++ (f ++ ys))[(junk.drop i).length]? =
        F.header[(junk.drop i).length]? := by
      conv => rhs; rw [← heq]
      rw [List.getElem?_take_of_lt (by omega)]
    have hflen : 0 < f.length := by
      have hheader := F.header_pos
      have hfits := F.fits
      rw [hf.length]
      omega
    rw [List.getElem?_append_right (le_refl _), Nat.sub_self, List.getElem?_append_left hflen,
      hfirst] at hhere
    exact F.sharp _ hpos hhere.symm

/-- A frame behind junk is taken. -/
theorem scan_junk {junk f : List α} (hjunk : F.NoHeader junk) (hf : F.IsFrame f) (ys : List α) :
    F.scan (junk ++ (f ++ ys)) = f :: F.scan ys := by
  have hskip : F.scan (junk ++ (f ++ ys)) = F.scan ((junk ++ (f ++ ys)).drop junk.length) :=
    scan_drop fun i hi => starts_junk hjunk hf hi ys
  have hlen : F.size ≤ f.length := hf.length.ge
  have htake : f.take F.size = f := List.take_of_length_le hf.length.le
  have hframe := scanned_valid hf.starts hlen (htake.symm ▸ hf.valid) ys
  have hrest : f.drop F.size = [] := List.drop_eq_nil_of_le hf.length.le
  rw [htake, hrest] at hframe
  rw [hskip, List.drop_left]
  exact hframe

theorem NoHeader.drop {s : List α} (h : F.NoHeader s) (n : ℕ) : F.NoHeader (s.drop n) := by
  intro i
  rw [List.drop_drop]
  exact h (n + i)

/-- Whatever comes first, a frame behind enough junk is found. -/
theorem mem_scan {junk f : List α} (hjunk : F.NoHeader junk) (hlen : F.size ≤ junk.length + 1)
    (hf : F.IsFrame f) (s ys : List α) : f ∈ F.scan (s ++ (junk ++ (f ++ ys))) := by
  induction hn : s.length using Nat.strong_induction_on generalizing s with
  | _ n ih =>
    cases s with
    | nil =>
      rw [List.nil_append, scan_junk hjunk hf ys]
      exact List.mem_cons_self
    | cons a s =>
      have hnext : f ∈ F.scan (s ++ (junk ++ (f ++ ys))) :=
        ih s.length (by rw [← hn]; exact Nat.lt_succ_self _) s rfl
      have hall : F.size ≤ (a :: s ++ (junk ++ (f ++ ys))).length := by
        simp only [List.length_append, List.length_cons]
        omega
      cases hs : F.starts (a :: s ++ (junk ++ (f ++ ys))) with
      | false =>
        rw [scan_of_not_starts hs]
        exact hnext
      | true =>
        cases hvalid : F.valid ((a :: s ++ (junk ++ (f ++ ys))).take F.size) with
        | false =>
          rw [scan_of_invalid hs hall hvalid]
          exact hnext
        | true =>
          rw [scan_of_valid hs hall hvalid]
          refine List.mem_cons_of_mem _ ?_
          have hpos : 0 < F.size := F.header_pos.trans_le F.fits
          by_cases hin : F.size ≤ (a :: s).length
          · rw [List.drop_append_of_le_length hin]
            refine ih ((a :: s).drop F.size).length ?_ _ rfl
            rw [← hn, List.length_drop]
            simp only [List.length_cons]
            omega
          · have hshort : F.size - (a :: s).length ≤ junk.length := by
              simp only [List.length_cons] at hin ⊢
              omega
            rw [List.drop_append, List.drop_eq_nil_of_le (by omega), List.nil_append,
              List.drop_append_of_le_length hshort, scan_junk (hjunk.drop _) hf ys]
            exact List.mem_cons_self

end Format

end MoonFlare.FrameScan
