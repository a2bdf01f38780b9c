import MoonFlare.PicoHttpGrammar

/-!
# The HTTP request parser on a growing buffer

The daemon tries the parser after every read, with the length at the last try.
The parser is stable, and its search for the end of a head from the last try on
misses no head, so what comes of the tries is what the parser makes of the
whole stream, in whichever pieces it arrives.
-/

namespace MoonFlare.Pico

open Http Incremental Incremental.Scanner

/-! ## The parts are stable -/

theorem stable_lineEnd : Stable lineEnd :=
  stable_next.bind fun _ => .ite (stable_next.bind fun _ => .ite (stable_pure _) (stable_halt _))
    (.ite (stable_pure _) (stable_halt _))

theorem stable_emptyLine : Stable emptyLine :=
  stable_look.bind fun _ => .ite (stable_lineEnd.bind fun _ => stable_pure _) (stable_pure _)

theorem stable_getTokenToEol : Stable getTokenToEol :=
  (stable_tokens _ _).bind fun _ => stable_lineEnd.bind fun _ => stable_pure _

theorem stable_parseHttpVersion : Stable parseHttpVersion where
  read h t := by
    obtain ⟨hne, d, hd, rfl, rfl⟩ := parseHttpVersion_eq_ok.mp h
    exact parseHttpVersion_eq_ok.mpr ⟨by simp [hne], d, hd, rfl, by simp⟩
  bad {b} h t := by
    have hseven : (ascii "HTTP/1.").length = 7 := by decide
    by_cases hlen : b.length < 9
    · simp [parseHttpVersion, hlen] at h
    · have hlen' : ¬(b ++ t).length < 9 := by
        rw [List.length_append]
        omega
      rw [parseHttpVersion, if_neg hlen] at h
      rw [parseHttpVersion, if_neg hlen']
      by_cases hpre : (ascii "HTTP/1.").isPrefixOf b = true
      · obtain ⟨s, rfl⟩ := List.isPrefixOf_iff_prefix.mp hpre
        rw [if_pos hpre, List.drop_left' hseven] at h
        rw [List.append_assoc, if_pos (List.isPrefixOf_iff_prefix.mpr ⟨_, rfl⟩),
          List.drop_left' hseven]
        cases s with
        | nil => simp at h
        | cons d s =>
          simp only [List.cons_append] at h ⊢
          split_ifs at h ⊢
          rfl
      · have hpre' : ¬(ascii "HTTP/1.").isPrefixOf (b ++ t) = true := by
          intro hlong
          refine hpre (List.isPrefixOf_iff_prefix.mpr ?_)
          refine List.prefix_of_prefix_length_le (List.isPrefixOf_iff_prefix.mp hlong)
            (List.prefix_append b t) ?_
          omega
        rw [if_neg hpre']

theorem stable_parseHeader (first : Bool) : Stable (parseHeader first) :=
  stable_look.bind fun _ => .ite (stable_getTokenToEol.bind fun _ => stable_pure _)
    ((stable_tokens _ _).bind fun _ => .ite (stable_halt _) (stable_next.bind fun _ =>
      (stable_tokens _ _).bind fun _ => stable_getTokenToEol.bind fun _ => stable_pure _))

theorem stable_parseHeaders (left : ℕ) (first : Bool) : Stable (parseHeaders left first) := by
  induction left generalizing first with
  | zero => exact stable_emptyLine.bind fun _ => .ite (stable_pure _) (stable_halt _)
  | succ left ih =>
    exact stable_emptyLine.bind fun _ => .ite (stable_pure _)
      ((stable_parseHeader first).bind fun _ => (ih false).bind fun _ => stable_pure _)

theorem stable_parseRequest (maxHeaders : ℕ) : Stable (parseRequest maxHeaders) :=
  stable_emptyLine.bind fun _ => (stable_tokens _ _).bind fun _ => stable_next.bind fun _ =>
    (stable_tokens _ _).bind fun _ => (stable_tokens _ _).bind fun _ => stable_next.bind fun _ =>
      (stable_tokens _ _).bind fun _ => .ite (stable_halt _)
        (stable_parseHttpVersion.bind fun _ => stable_lineEnd.bind fun _ =>
          (stable_parseHeaders maxHeaders true).bind fun _ => stable_pure _)

/-! ## The search for the end of a head -/

theorem isComplete_crlf (n : ℕ) (r : Bytes) : isComplete n (13 :: 10 :: r) =
    if n = 1 then .ok ((), r) else isComplete (n + 1) r := by
  simp [isComplete]

theorem isComplete_cr {d : UInt8} (hd : d ≠ 10) (n : ℕ) (r : Bytes) :
    isComplete n (13 :: d :: r) = .error .bad := by
  simp [isComplete, hd]

theorem isComplete_lf (n : ℕ) (r : Bytes) : isComplete n (10 :: r) =
    if n = 1 then .ok ((), r) else isComplete (n + 1) r := by
  rw [isComplete.eq_def]
  simp

theorem isComplete_plain {c : UInt8} (h13 : c ≠ 13) (h10 : c ≠ 10) (n : ℕ) (r : Bytes) :
    isComplete n (c :: r) = isComplete 0 r := by
  rw [isComplete.eq_def]
  simp [h13, h10]

theorem stable_isComplete (n : ℕ) : @Stable UInt8 Unit (isComplete n) where
  read {b a r} h t := by
    fun_induction isComplete n b with
    | case1 | case2 | case5 => simp at h
    | case3 ds =>
      obtain ⟨-, rfl⟩ := Prod.mk.inj (Except.ok.inj h)
      exact isComplete_crlf 1 (ds ++ t)
    | case4 n ds hn ih =>
      rw [List.cons_append, List.cons_append, isComplete_crlf, if_neg hn]
      exact ih h
    | case6 cs =>
      obtain ⟨-, rfl⟩ := Prod.mk.inj (Except.ok.inj h)
      exact isComplete_lf 1 (cs ++ t)
    | case7 n cs hn _ ih =>
      rw [List.cons_append, isComplete_lf, if_neg hn]
      exact ih h
    | case8 n c cs h13 h10 ih =>
      rw [List.cons_append, isComplete_plain h13 h10]
      exact ih h
  bad {b} h t := by
    fun_induction isComplete n b with
    | case1 | case2 | case3 | case6 => simp at h
    | case4 n ds hn ih =>
      rw [List.cons_append, List.cons_append, isComplete_crlf, if_neg hn]
      exact ih h
    | case5 n d ds hd => exact isComplete_cr hd n (ds ++ t)
    | case7 n cs hn _ ih =>
      rw [List.cons_append, isComplete_lf, if_neg hn]
      exact ih h
    | case8 n c cs h13 h10 ih =>
      rw [List.cons_append, isComplete_plain h13 h10]
      exact ih h

/-- Text in which every carriage return belongs to the end of a line. -/
inductive Lines : Bytes → Prop
  | nil : Lines []
  | plain {c : UInt8} {w : Bytes} (h13 : c ≠ 13) (h10 : c ≠ 10) (hw : Lines w) : Lines (c :: w)
  | line {eol w : Bytes} (heol : LineEnd eol) (hw : Lines w) : Lines (eol ++ w)

variable {b w v eol : Bytes}

theorem Lines.append (hw : Lines w) (hv : Lines v) : Lines (w ++ v) := by
  induction hw with
  | nil => exact hv
  | plain h13 h10 _ ih => exact .plain h13 h10 ih
  | line heol _ ih =>
    rw [List.append_assoc]
    exact .line heol ih

theorem Lines.of_plain (h : ∀ c ∈ w, c ≠ 13 ∧ c ≠ 10) : Lines w := by
  induction w with
  | nil => exact .nil
  | cons c w ih =>
    have hc := h c List.mem_cons_self
    exact .plain hc.1 hc.2 (ih fun d hd => h d (List.mem_cons_of_mem c hd))

theorem LineEnd.lines (h : LineEnd eol) : Lines eol := by
  have hline := Lines.line h .nil
  rwa [List.append_nil] at hline

/-- The second half of a line's end is a line's end. -/
theorem Lines.drop (h : Lines w) (k : ℕ) : Lines (w.drop k) := by
  induction h generalizing k with
  | nil => simpa using Lines.nil
  | @plain c w h13 h10 hw ih =>
    cases k with
    | zero => exact .plain h13 h10 hw
    | succ k => exact ih k
  | @line eol w heol hw ih =>
    cases heol with
    | crlf =>
      match k with
      | 0 => exact .line .crlf hw
      | 1 => exact .line .lf hw
      | k + 2 => exact ih k
    | lf =>
      cases k with
      | zero => exact .line .lf hw
      | succ k => exact ih k

/-- Two line ends in a row behind such text are found. -/
theorem isComplete_of_lines {eol' : Bytes} (hw : Lines w) (heol : LineEnd eol)
    (heol' : LineEnd eol') {n : ℕ} (hn : n ≤ 1) (t : Bytes) :
    ∃ r, isComplete n (w ++ (eol ++ (eol' ++ t))) = .ok ((), r) := by
  have hend : ∀ {e : Bytes}, LineEnd e → ∀ (m : ℕ) (s : Bytes), isComplete m (e ++ s) =
      if m = 1 then .ok ((), s) else isComplete (m + 1) s := by
    intro e he m s
    cases he with
    | crlf => exact isComplete_crlf m s
    | lf => exact isComplete_lf m s
  induction hw generalizing n with
  | nil =>
    rw [List.nil_append, hend heol]
    split_ifs with hone
    · exact ⟨_, rfl⟩
    · obtain rfl : n = 0 := by omega
      rw [hend heol', if_pos rfl]
      exact ⟨_, rfl⟩
  | plain h13 h10 _ ih =>
    rw [List.cons_append, isComplete_plain h13 h10]
    exact ih (Nat.zero_le 1)
  | line heol₁ _ ih =>
    rw [List.append_assoc, hend heol₁]
    split_ifs with hone
    · exact ⟨_, rfl⟩
    · exact ih (by omega)

/-! ## How a head ends -/

/-- Bytes that are no control bytes are in the middle of a line. -/
theorem plain_of_control {c : UInt8} (h : isControl c = false) : c ≠ 13 ∧ c ≠ 10 := by
  constructor <;> rintro rfl <;> exact absurd h (by decide)

theorem IsToken.lines {t : Bytes} (h : IsToken t) : Lines t :=
  .of_plain fun c hc => ⟨(token_ne (h.legal c hc)).2.1, (token_ne (h.legal c hc)).1⟩

theorem AllBlank.lines (h : AllBlank w) : Lines w :=
  .of_plain fun c hc => plain_of_control (control_of_blank (h c hc))

theorem IsValue.lines (h : IsValue w) : Lines w :=
  .of_plain fun c hc => plain_of_control (h.text c hc)

theorem lines_of_spaces (h : ∀ c ∈ w, c = 32) : Lines w := by
  refine .of_plain fun c hc => ?_
  obtain rfl := h c hc
  decide

theorem IsPath.lines {p : Bytes} (h : IsPath p) : Lines p := by
  refine .of_plain fun c hc => ?_
  have hc := (h.legal c hc).2
  constructor <;> rintro rfl <;> exact absurd hc (by decide)

theorem HeaderLine.ends {first : Bool} {line : Bytes} {h : PhrHeader}
    (hline : HeaderLine first line h) :
    ∃ body eol, line = body ++ eol ∧ Lines body ∧ LineEnd eol := by
  cases hline with
  | @field first name lead value trail eol hname hlead hvalue hplain htrail heol =>
    refine ⟨name ++ 58 :: (lead ++ (value ++ trail)), eol, by simp, ?_, heol⟩
    exact hname.lines.append (.plain (by decide) (by decide)
      (hlead.lines.append (hvalue.lines.append htrail.lines)))
  | @continued value trail eol hvalue hblank htrail heol =>
    exact ⟨value ++ trail, eol, rfl, hvalue.lines.append htrail.lines, heol⟩

/-- Text that ends with two line ends in a row. -/
def EndsTwice (w : Bytes) : Prop :=
  ∃ body eol eol', w = body ++ (eol ++ eol') ∧ Lines body ∧ LineEnd eol ∧ LineEnd eol'

theorem EndsTwice.behind (hv : EndsTwice v) (hw : Lines w) : EndsTwice (w ++ v) := by
  obtain ⟨body, eol, eol', rfl, hbody, heol, heol'⟩ := hv
  exact ⟨w ++ body, eol, eol', (List.append_assoc _ _ _).symm, hw.append hbody, heol, heol'⟩

/-- The header block behind the end of a line. -/
theorem HeaderLines.endsTwice {first : Bool} {left : ℕ} {lines : Bytes} {hs : List PhrHeader}
    (h : HeaderLines first left lines hs) (heol : LineEnd eol) : EndsTwice (eol ++ lines) := by
  induction h generalizing eol with
  | @empty first left eol' heol' => exact ⟨[], eol, eol', rfl, .nil, heol, heol'⟩
  | @cons first left line rest h hs hline hrest ih =>
    obtain ⟨body, eol', rfl, hbody, heol'⟩ := hline.ends
    have hmore := (ih heol').behind (heol.lines.append hbody)
    simpa using hmore

theorem RequestHead.endsTwice {maxHeaders : ℕ} {head : Bytes} {req : PhrRequest}
    (h : RequestHead maxHeaders head req) : EndsTwice head := by
  obtain @⟨pre, method, gap, path, gap', eol, lines, d, headers, hpre, hmethod, hgap, hpath, hgap',
    hd, heol, hlines⟩ := h
  have hpre' : Lines pre := by
    rcases hpre with rfl | hpre
    · exact .nil
    · exact hpre.lines
  have hversion : Lines (ascii "HTTP/1." ++ [d]) := by
    refine .of_plain fun c hc => ?_
    rcases List.mem_append.mp hc with hc | hc
    · exact (show ∀ c ∈ ascii "HTTP/1.", c ≠ 13 ∧ c ≠ 10 by simp [ascii]) c hc
    · obtain rfl := List.mem_singleton.mp hc
      constructor <;> rintro rfl <;> exact absurd hd (by decide)
  have hblank : Lines [32] := .plain (by decide) (by decide) .nil
  have hfront : Lines (pre ++ (method ++ ([32] ++ (gap ++ (path ++ ([32] ++ (gap' ++
      (ascii "HTTP/1." ++ [d])))))))) :=
    hpre'.append (hmethod.lines.append (hblank.append ((lines_of_spaces hgap).append
      (hpath.lines.append (hblank.append ((lines_of_spaces hgap').append hversion))))))
  have hends := (hlines.endsTwice heol).behind hfront
  simpa using hends

/-! ## Attempts -/

variable {maxHeaders last : ℕ} {head : Bytes} {req : PhrRequest}

/-- From the last attempt on, the end of a head is found. -/
theorem isComplete_head (h : RequestHead maxHeaders head req) (hlast : last < head.length)
    (rest : Bytes) : ∃ r, isComplete 0 ((head ++ rest).drop (last - 3)) = .ok ((), r) := by
  obtain ⟨body, eol, eol', rfl, hbody, heol, heol'⟩ := h.endsTwice
  have hlen : eol.length + eol'.length ≤ 4 := by cases heol <;> cases heol' <;> decide
  have hle : last - 3 ≤ body.length := by
    simp only [List.length_append] at hlast
    omega
  rw [List.append_assoc, List.drop_append_of_le_length hle, List.append_assoc]
  exact isComplete_of_lines (hbody.drop _) heol heol' (Nat.zero_le 1) rest

theorem parseRequest_head (h : RequestHead maxHeaders head req) (rest : Bytes) :
    parseRequest maxHeaders (head ++ rest) = .ok (req, rest) :=
  parseRequest_of_requestHead h rest

/-- An attempt is the search for the end, and then the parse. -/
theorem phrParseRequest_eq (b : Bytes) (last : ℕ) : phrParseRequest maxHeaders b last =
    match if last = 0 then .ok ((), b) else isComplete 0 (b.drop (last - 3)) with
    | .error e => stopResult e
    | .ok _ => phrParseRequest maxHeaders b 0 := rfl

/-- A whole head is returned, if the last attempt was made on less than that. -/
theorem phr_whole (h : RequestHead maxHeaders head req) (hlast : last < head.length)
    (rest : Bytes) :
    phrParseRequest maxHeaders (head ++ rest) last = .ok head.length req := by
  have hfirst : phrParseRequest maxHeaders (head ++ rest) 0 = .ok head.length req :=
    phr_eq_ok.mpr ⟨head, rest, h, rfl, rfl⟩
  obtain ⟨r, hr⟩ := isComplete_head h hlast rest
  rw [phrParseRequest_eq, hr]
  split_ifs <;> exact hfirst

/-- On a part of a head the parser asks for more. -/
theorem phr_part (h : RequestHead maxHeaders head req) (hpre : b <+: head) (hne : b ≠ head)
    (hlast : last ≤ b.length) : phrParseRequest maxHeaders b last = .incomplete := by
  obtain ⟨s, rfl⟩ := hpre
  have hpos : 0 < s.length := by
    rw [List.length_pos_iff]
    rintro rfl
    exact hne (List.append_nil b).symm
  have hshort : parseRequest maxHeaders b = .error .short := by
    have hread := parseRequest_head h []
    rw [List.append_nil] at hread
    exact (stable_parseRequest maxHeaders).short_of_read hread hpos
  have hfirst : phrParseRequest maxHeaders b 0 = .incomplete := by
    simp only [phrParseRequest, if_true, hshort, stopResult]
  rw [phrParseRequest_eq]
  split_ifs with hzero
  · exact hfirst
  · rcases hsearch : isComplete 0 (b.drop (last - 3)) with e | ⟨u, r⟩
    · cases e with
      | short => rfl
      | bad =>
        -- the search would reject the whole head too
        have hbad := (stable_isComplete 0).bad hsearch s
        have hlast' : last < (b ++ s).length := by
          rw [List.length_append]
          omega
        obtain ⟨r, hr⟩ := isComplete_head h hlast' []
        rw [List.append_nil, List.drop_append_of_le_length (by omega), hbad] at hr
        exact absurd hr (by simp)
    · exact hfirst

/-- The daemon's attempts: one after every piece, with the length at the one before. -/
def attempts (phr : PhrParse) : Bytes → List Bytes → PhrResult
  | _, [] => .incomplete
  | b, piece :: pieces =>
    match phr (b ++ piece) b.length with
    | .incomplete => attempts phr (b ++ piece) pieces
    | r => r

/-- What an attempt returns stays what the parser returns when more comes. -/
theorem phr_extended {n : ℕ} (h : phrParseRequest maxHeaders b last = .ok n req) (t : Bytes) :
    phrParseRequest maxHeaders (b ++ t) 0 = .ok n req := by
  have hfirst : phrParseRequest maxHeaders b 0 = .ok n req := by
    rw [phrParseRequest_eq] at h
    split at h
    · next e _ => cases e <;> simp [stopResult] at h
    · exact h
  obtain ⟨head, r, hhead, rfl, rfl⟩ := phr_eq_ok.mp hfirst
  exact phr_eq_ok.mpr ⟨head, r ++ t, hhead, List.append_assoc _ _ _, rfl⟩

theorem attempts_of_head (h : RequestHead maxHeaders head req) {pieces : List Bytes} {rest : Bytes}
    (hstream : b ++ pieces.flatten = head ++ rest) (hshort : b.length < head.length) :
    attempts (phrParseRequest maxHeaders) b pieces = .ok head.length req := by
  induction pieces generalizing b with
  | nil =>
    have hlen := congrArg List.length hstream
    simp only [List.flatten_nil, List.append_nil, List.length_append] at hlen
    omega
  | cons piece pieces ih =>
    have hstream' : (b ++ piece) ++ pieces.flatten = head ++ rest := by
      rw [← hstream, List.flatten_cons, List.append_assoc]
    have hpre : b ++ piece <+: head ++ rest := ⟨pieces.flatten, hstream'⟩
    rw [attempts]
    rcases Nat.lt_or_ge (b ++ piece).length head.length with hlt | hge
    · have hpart : b ++ piece <+: head :=
        List.prefix_of_prefix_length_le hpre (List.prefix_append head rest) hlt.le
      have hne : b ++ piece ≠ head := by
        intro heq
        rw [heq] at hlt
        omega
      rw [phr_part h hpart hne (by simp)]
      exact ih hstream' hlt
    · obtain ⟨s, hs⟩ : head <+: b ++ piece :=
        List.prefix_of_prefix_length_le (List.prefix_append head rest) hpre hge
      rw [← hs, phr_whole h hshort s]

theorem attempts_ok {pieces : List Bytes} {n : ℕ}
    (h : attempts (phrParseRequest maxHeaders) b pieces = .ok n req) :
    phrParseRequest maxHeaders (b ++ pieces.flatten) 0 = .ok n req := by
  induction pieces generalizing b with
  | nil => exact absurd h (by simp [attempts])
  | cons piece pieces ih =>
    rw [List.flatten_cons, ← List.append_assoc]
    rw [attempts] at h
    split at h
    · exact ih h
    · exact phr_extended h _

/-- The attempts on a stream return a request exactly when a single look at the whole stream does,
and the same one, in whichever pieces the stream arrives. -/
theorem attempts_any_pieces (maxHeaders : ℕ) (pieces : List Bytes) (n : ℕ) (req : PhrRequest) :
    attempts (phrParseRequest maxHeaders) [] pieces = .ok n req ↔
      phrParseRequest maxHeaders pieces.flatten 0 = .ok n req := by
  refine ⟨attempts_ok, fun h => ?_⟩
  obtain ⟨head, r, hhead, hsplit, rfl⟩ := phr_eq_ok.mp h
  have hpos : 0 < head.length := by
    obtain ⟨body, eol, eol', heq, -, heol, -⟩ := hhead.endsTwice
    obtain ⟨c, cs, rfl, -⟩ := heol.head
    rw [heq]
    simp
  have hstream : [] ++ pieces.flatten = head ++ r := hsplit
  exact attempts_of_head hhead hstream hpos

end MoonFlare.Pico
