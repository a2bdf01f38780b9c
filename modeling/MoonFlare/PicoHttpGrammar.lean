import MoonFlare.PicoHttp

/-!
# What the HTTP request parser accepts

A grammar of request heads, with the value that each head stands for. The
parser reads a head at the front of a buffer exactly when the grammar derives
it, so a method and a header's name are tokens, no path and no value holds a
control byte, and only a line behind a header can continue it.
-/

namespace MoonFlare.Pico

open Http Incremental Incremental.Scanner

/-! ## The grammar -/

/-- The end of a line. -/
inductive LineEnd : Bytes → Prop
  | crlf : LineEnd [13, 10]
  | lf : LineEnd [10]

/-- Blanks and tabs. -/
def AllBlank (b : Bytes) : Prop := ∀ c ∈ b, isBlank c = true

/-- A token. -/
structure IsToken (t : Bytes) : Prop where
  nonempty : t ≠ []
  legal : ∀ c ∈ t, isTokenChar c = true

/-- The value of a header: no control byte, and no blank at its end. -/
structure IsValue (v : Bytes) : Prop where
  text : ∀ c ∈ v, isControl c = false
  trimmed : v.rdropWhile isBlank = v

/-- A text that does not begin with a blank. -/
def StartsPlain (b : Bytes) : Prop := ∀ c cs, b = c :: cs → isBlank c = false

/-- A text that begins with a blank. -/
def StartsBlank (b : Bytes) : Prop := ∃ c cs, b = c :: cs ∧ isBlank c = true

/-- A line of the header block: a field, or, behind one, a line that continues it. -/
inductive HeaderLine : Bool → Bytes → PhrHeader → Prop
  | field {first : Bool} {name lead value trail eol : Bytes} (hname : IsToken name)
      (hlead : AllBlank lead) (hvalue : IsValue value) (hplain : StartsPlain (value ++ trail))
      (htrail : AllBlank trail) (heol : LineEnd eol) :
      HeaderLine first (name ++ 58 :: (lead ++ (value ++ trail ++ eol))) ⟨some name, value⟩
  | continued {value trail eol : Bytes} (hvalue : IsValue value)
      (hblank : StartsBlank (value ++ trail)) (htrail : AllBlank trail) (heol : LineEnd eol) :
      HeaderLine false (value ++ trail ++ eol) ⟨none, value⟩

/-- The header block, with at most so many headers. -/
inductive HeaderLines : Bool → ℕ → Bytes → List PhrHeader → Prop
  | empty {first : Bool} {left : ℕ} {eol : Bytes} (heol : LineEnd eol) :
      HeaderLines first left eol []
  | cons {first : Bool} {left : ℕ} {line rest : Bytes} {h : PhrHeader} {hs : List PhrHeader}
      (hline : HeaderLine first line h) (hrest : HeaderLines false left rest hs) :
      HeaderLines first (left + 1) (line ++ rest) (h :: hs)

/-- A path as it stands in a request line. -/
structure IsPath (p : Bytes) : Prop where
  nonempty : p ≠ []
  legal : ∀ c ∈ p, c ≠ 32 ∧ isUnprintable c = false

/-- The head of a request. -/
inductive RequestHead (maxHeaders : ℕ) : Bytes → PhrRequest → Prop
  | head {pre method gap path gap' eol lines : Bytes} {d : UInt8} {headers : List PhrHeader}
      (hpre : pre = [] ∨ LineEnd pre) (hmethod : IsToken method) (hgap : ∀ c ∈ gap, c = 32)
      (hpath : IsPath path) (hgap' : ∀ c ∈ gap', c = 32) (hd : 48 ≤ d ∧ d ≤ 57)
      (heol : LineEnd eol) (hlines : HeaderLines true maxHeaders lines headers) :
      RequestHead maxHeaders
        (pre ++ (method ++ 32 :: (gap ++ (path ++ 32 :: (gap' ++ (ascii "HTTP/1." ++
          d :: (eol ++ lines)))))))
        ⟨method, path, d.toNat - 48, headers⟩

variable {first : Bool} {b r v name value trail lead eol line : Bytes}

/-! ## Bytes -/

/-- A byte of a token ends no line and no token. -/
theorem token_ne {c : UInt8} (h : isTokenChar c = true) :
    c ≠ 10 ∧ c ≠ 13 ∧ c ≠ 9 ∧ c ≠ 32 ∧ c ≠ 58 := by
  refine ⟨?_, ?_, ?_, ?_, ?_⟩ <;> rintro rfl <;> exact absurd h (by decide)

theorem isBlank_iff {c : UInt8} : isBlank c = true ↔ c = 32 ∨ c = 9 := by
  simp [isBlank]

/-- Blanks and tabs may stand in a value. -/
theorem control_of_blank {c : UInt8} (h : isBlank c = true) : isControl c = false := by
  rcases isBlank_iff.mp h with rfl | rfl <;> decide

/-! ## Lines -/

theorem lineEnd_eq_ok {u : Unit} : lineEnd b = .ok (u, r) ↔ ∃ eol, LineEnd eol ∧ b = eol ++ r := by
  constructor
  · intro h
    obtain ⟨c, m, hc, hrest⟩ := bind_eq_ok.mp h
    obtain rfl := next_eq_ok.mp hc
    split_ifs at hrest with h13 h10
    · obtain ⟨d, m', hd, hlast⟩ := bind_eq_ok.mp hrest
      obtain rfl := next_eq_ok.mp hd
      split_ifs at hlast with hlf
      · obtain ⟨-, rfl⟩ := Prod.mk.inj (Except.ok.inj hlast)
        exact ⟨[13, 10], .crlf, by rw [h13, hlf]; rfl⟩
      · exact absurd hlast (by simp)
    · obtain ⟨-, rfl⟩ := Prod.mk.inj (Except.ok.inj hrest)
      exact ⟨[10], .lf, by rw [h10]; rfl⟩
    · exact absurd hrest (by simp)
  · rintro ⟨eol, heol, rfl⟩
    cases heol <;> rfl

/-- A line's end begins with a byte that ends a value. -/
theorem LineEnd.head (h : LineEnd eol) :
    ∃ c cs, eol = c :: cs ∧ isControl c = true ∧ (c = 13 ∨ c = 10) := by
  cases h with
  | crlf => exact ⟨13, [10], rfl, by decide, Or.inl rfl⟩
  | lf => exact ⟨10, [], rfl, by decide, Or.inr rfl⟩

theorem emptyLine_eq_true : emptyLine b = .ok (true, r) ↔ ∃ eol, LineEnd eol ∧ b = eol ++ r := by
  constructor
  · intro h
    obtain ⟨c, m, hc, hrest⟩ := bind_eq_ok.mp h
    obtain ⟨cs, -, rfl⟩ := look_eq_ok.mp hc
    split_ifs at hrest with hend
    · obtain ⟨u, m', hline, hlast⟩ := bind_eq_ok.mp hrest
      obtain ⟨-, rfl⟩ := Prod.mk.inj (Except.ok.inj hlast)
      exact lineEnd_eq_ok.mp hline
    · simp at hrest
  · rintro ⟨eol, heol, rfl⟩
    obtain ⟨c, cs, hhead, -, hc⟩ := heol.head
    have hlook : look (eol ++ r) = .ok (c, eol ++ r) := by
      rw [hhead]
      rfl
    have hline : lineEnd (eol ++ r) = .ok ((), r) := lineEnd_eq_ok.mpr ⟨eol, heol, rfl⟩
    rw [emptyLine, bind_of_ok hlook, if_pos hc, bind_of_ok hline]
    rfl

theorem emptyLine_eq_false : emptyLine b = .ok (false, r) ↔
    r = b ∧ ∃ c cs, b = c :: cs ∧ c ≠ 13 ∧ c ≠ 10 := by
  constructor
  · intro h
    obtain ⟨c, m, hc, hrest⟩ := bind_eq_ok.mp h
    obtain ⟨cs, hb, rfl⟩ := look_eq_ok.mp hc
    split_ifs at hrest with hend
    · obtain ⟨u, m', -, hlast⟩ := bind_eq_ok.mp hrest
      simp at hlast
    · obtain ⟨-, rfl⟩ := Prod.mk.inj (Except.ok.inj hrest)
      exact ⟨rfl, c, cs, hb, not_or.mp hend⟩
  · rintro ⟨rfl, c, cs, rfl, h13, h10⟩
    have hlook : look (c :: cs) = .ok (c, c :: cs) := rfl
    rw [emptyLine, bind_of_ok hlook, if_neg (by tauto)]
    rfl

theorem getTokenToEol_eq_ok : getTokenToEol b = .ok (v, r) ↔
    (∀ c ∈ v, isControl c = false) ∧ ∃ eol, LineEnd eol ∧ b = v ++ (eol ++ r) := by
  constructor
  · intro h
    obtain ⟨t, m, ht, hrest⟩ := bind_eq_ok.mp h
    obtain ⟨u, m', hline, hlast⟩ := bind_eq_ok.mp hrest
    obtain ⟨rfl, rfl⟩ := Prod.mk.inj (Except.ok.inj hlast)
    obtain ⟨rfl, htext, -⟩ := tokens_eq_ok.mp ht
    obtain ⟨eol, heol, rfl⟩ := lineEnd_eq_ok.mp hline
    exact ⟨fun c hc => (htext c hc).1, eol, heol, rfl⟩
  · rintro ⟨htext, eol, heol, rfl⟩
    obtain ⟨c, cs, hhead, hcontrol, -⟩ := heol.head
    have htokens : tokens isControl (fun _ => true) (v ++ (eol ++ r)) = .ok (v, eol ++ r) := by
      rw [hhead]
      exact tokens_append (fun x hx => ⟨htext x hx, rfl⟩) hcontrol (cs ++ r)
    have hline : lineEnd (eol ++ r) = .ok ((), r) := lineEnd_eq_ok.mpr ⟨eol, heol, rfl⟩
    rw [getTokenToEol, bind_of_ok htokens, bind_of_ok hline]
    rfl

/-! ## Headers -/

/-- The rest of a line is a value with blanks behind it. -/
theorem value_split (htext : ∀ c ∈ v, isControl c = false) :
    IsValue (v.rdropWhile isBlank) ∧
      ∃ trail, AllBlank trail ∧ v = v.rdropWhile isBlank ++ trail := by
  refine ⟨⟨?_, List.rdropWhile_idempotent _ _⟩, v.rtakeWhile isBlank, ?_, ?_⟩
  · exact fun c hc => htext c ((List.rdropWhile_prefix _ _).mem hc)
  · exact fun c hc => List.mem_rtakeWhile_imp hc
  · exact List.rdropWhile_append_rtakeWhile.symm

/-- Blanks behind a value are dropped. -/
theorem rdropWhile_value (hvalue : IsValue value) (htrail : AllBlank trail) :
    (value ++ trail).rdropWhile isBlank = value := by
  induction trail using List.reverseRecOn with
  | nil => rw [List.append_nil, hvalue.trimmed]
  | append_singleton trail c ih =>
    have hc : isBlank c = true := htrail c (by simp)
    rw [← List.append_assoc, List.rdropWhile_concat_pos _ _ _ hc]
    exact ih fun d hd => htrail d (by simp [hd])

/-- The rest of a line of the grammar is read as its value. -/
theorem getTokenToEol_value (hvalue : IsValue value) (htrail : AllBlank trail)
    (heol : LineEnd eol) (r : Bytes) :
    getTokenToEol (value ++ trail ++ eol ++ r) = .ok (value ++ trail, r) := by
  refine getTokenToEol_eq_ok.mpr ⟨?_, eol, heol, by simp⟩
  intro c hc
  rcases List.mem_append.mp hc with hc | hc
  · exact hvalue.text c hc
  · exact control_of_blank (htrail c hc)

/-- Behind the blanks stands a byte that is none. -/
theorem skipBlanks_line (hlead : AllBlank lead) (hplain : StartsPlain v) (heol : LineEnd eol)
    (r : Bytes) : skipBlanks (lead ++ (v ++ eol ++ r)) = .ok (lead, v ++ eol ++ r) := by
  have hhead : ∃ c cs, v ++ eol ++ r = c :: cs ∧ isBlank c = false := by
    cases v with
    | nil =>
      obtain ⟨c, cs, hc, hcontrol, -⟩ := heol.head
      refine ⟨c, cs ++ r, by simp [hc], ?_⟩
      by_contra hblank
      have hplain := control_of_blank (Bool.not_eq_false _ ▸ hblank)
      exact absurd hcontrol (by simp [hplain])
    | cons c cs => exact ⟨c, cs ++ eol ++ r, by simp, hplain c cs rfl⟩
  obtain ⟨c, cs, heq, hc⟩ := hhead
  rw [heq]
  exact tokens_append (fun x hx => ⟨by simp [hlead x hx], rfl⟩) (by simp [hc]) cs

/-- A round reads one line of the grammar. -/
theorem headerLine_of_parseHeader {h : PhrHeader} (hread : parseHeader first b = .ok (h, r)) :
    ∃ line, HeaderLine first line h ∧ b = line ++ r := by
  obtain ⟨c, m, hc, hrest⟩ := bind_eq_ok.mp hread
  obtain ⟨cs, hb, rfl⟩ := look_eq_ok.mp hc
  split_ifs at hrest with hcont
  · obtain ⟨v, m', hv, hlast⟩ := bind_eq_ok.mp hrest
    obtain ⟨rfl, rfl⟩ := Prod.mk.inj (Except.ok.inj hlast)
    obtain ⟨htext, eol, heol, hsplit⟩ := getTokenToEol_eq_ok.mp hv
    obtain ⟨hvalue, trail, htrail, heq⟩ := value_split htext
    obtain ⟨rfl, hblank⟩ := hcont
    have hstart : StartsBlank v := by
      cases v with
      | nil =>
        -- the line's end is no blank
        obtain ⟨d, ds, hd, hcontrol, -⟩ := heol.head
        rw [hb, hd] at hsplit
        obtain ⟨rfl, -⟩ := List.cons.inj hsplit
        exact absurd (control_of_blank hblank) (by simp [hcontrol])
      | cons x xs =>
        rw [hb] at hsplit
        obtain ⟨rfl, -⟩ := List.cons.inj hsplit
        exact ⟨c, xs, rfl, hblank⟩
    refine ⟨_, .continued hvalue (heq ▸ hstart) htrail heol, ?_⟩
    rw [← heq, hsplit, List.append_assoc]
  · obtain ⟨name, m', hname, hfield⟩ := bind_eq_ok.mp hrest
    obtain ⟨hsplit, hlegal, d, ds, rfl, hd⟩ := tokens_eq_ok.mp hname
    split_ifs at hfield with hempty
    · exact absurd hfield (by simp)
    · obtain ⟨colon, m₁, hcolon, hblanks⟩ := bind_eq_ok.mp hfield
      obtain ⟨rfl, rfl⟩ := List.cons.inj (next_eq_ok.mp hcolon)
      obtain ⟨lead, m₂, hlead, hvalue⟩ := bind_eq_ok.mp hblanks
      obtain ⟨rfl, hblank, e, es, hm₂, he⟩ := tokens_eq_ok.mp hlead
      obtain ⟨v, m₃, hv, hlast⟩ := bind_eq_ok.mp hvalue
      obtain ⟨rfl, rfl⟩ := Prod.mk.inj (Except.ok.inj hlast)
      obtain ⟨htext, eol, heol, rfl⟩ := getTokenToEol_eq_ok.mp hv
      obtain ⟨hvalue, trail, htrail, heq⟩ := value_split htext
      have hplain : StartsPlain v := by
        rintro x xs rfl
        obtain ⟨rfl, -⟩ := List.cons.inj hm₂
        simpa using he
      have hcolon : d = 58 := by simpa using hd
      refine ⟨_, .field ⟨hempty, fun x hx => (hlegal x hx).2⟩
        (fun x hx => by simpa using (hblank x hx).1) hvalue (heq ▸ hplain) htrail heol, ?_⟩
      rw [← heq, hsplit, hcolon]
      simp

theorem parseHeader_of_headerLine {h : PhrHeader} (hline : HeaderLine first line h) (r : Bytes) :
    parseHeader first (line ++ r) = .ok (h, r) := by
  cases hline with
  | @field first name lead value trail eol hname hlead hvalue hplain htrail heol =>
    obtain ⟨x, xs, hx⟩ := List.exists_cons_of_ne_nil hname.nonempty
    have hne := token_ne (hname.legal x (by simp [hx]))
    have hnoblank : ¬(first = false ∧ isBlank x = true) := by
      rintro ⟨-, hblank⟩
      rcases isBlank_iff.mp hblank with h | h
      · exact hne.2.2.2.1 h
      · exact hne.2.2.1 h
    have htext : name ++ 58 :: (lead ++ (value ++ trail ++ eol)) ++ r =
        name ++ 58 :: (lead ++ (value ++ trail ++ eol ++ r)) := by simp
    have hlook : look (name ++ 58 :: (lead ++ (value ++ trail ++ eol ++ r))) =
        .ok (x, name ++ 58 :: (lead ++ (value ++ trail ++ eol ++ r))) := by
      rw [hx]
      rfl
    have htoken : parseToken 58 (name ++ 58 :: (lead ++ (value ++ trail ++ eol ++ r))) =
        .ok (name, 58 :: (lead ++ (value ++ trail ++ eol ++ r))) := by
      refine tokens_append (fun y hy => ⟨?_, hname.legal y hy⟩) (by simp) _
      simpa using (token_ne (hname.legal y hy)).2.2.2.2
    have hnext : next (58 :: (lead ++ (value ++ trail ++ eol ++ r))) =
        .ok (58, lead ++ (value ++ trail ++ eol ++ r)) := rfl
    rw [htext, parseHeader, bind_of_ok hlook, if_neg hnoblank, bind_of_ok htoken,
      if_neg hname.nonempty, bind_of_ok hnext, bind_of_ok (skipBlanks_line hlead hplain heol r),
      bind_of_ok (getTokenToEol_value hvalue htrail heol r), rdropWhile_value hvalue htrail]
    rfl
  | @continued value trail eol hvalue hblank htrail heol =>
    obtain ⟨c, cs, hc, hblank⟩ := hblank
    have hlook : look (value ++ trail ++ eol ++ r) = .ok (c, value ++ trail ++ eol ++ r) := by
      rw [hc]
      rfl
    rw [parseHeader, bind_of_ok hlook, if_pos ⟨rfl, hblank⟩,
      bind_of_ok (getTokenToEol_value hvalue htrail heol r), rdropWhile_value hvalue htrail]
    rfl

/-- A header's line does not begin as an empty line does. -/
theorem HeaderLine.head {h : PhrHeader} (hline : HeaderLine first line h) :
    ∃ c cs, line = c :: cs ∧ c ≠ 13 ∧ c ≠ 10 := by
  cases hline with
  | @field first name lead value trail eol hname hlead hvalue hplain htrail heol =>
    obtain ⟨x, xs, rfl⟩ := List.exists_cons_of_ne_nil hname.nonempty
    have hne := token_ne (hname.legal x List.mem_cons_self)
    exact ⟨x, _, rfl, hne.2.1, hne.1⟩
  | @continued value trail eol hvalue hblank htrail heol =>
    obtain ⟨c, cs, hc, hblank⟩ := hblank
    refine ⟨c, cs ++ eol, by rw [hc, List.cons_append], ?_, ?_⟩ <;> rintro rfl <;>
      exact absurd hblank (by decide)

theorem parseHeaders_eq_ok {left : ℕ} {hs : List PhrHeader} :
    parseHeaders left first b = .ok (hs, r) ↔
      ∃ lines, HeaderLines first left lines hs ∧ b = lines ++ r := by
  induction left generalizing first b hs with
  | zero =>
    constructor
    · intro h
      obtain ⟨done, m, hempty, hrest⟩ := bind_eq_ok.mp h
      cases done with
      | true =>
        obtain ⟨rfl, rfl⟩ := Prod.mk.inj (Except.ok.inj hrest)
        obtain ⟨eol, heol, rfl⟩ := emptyLine_eq_true.mp hempty
        exact ⟨eol, .empty heol, rfl⟩
      | false => simp at hrest
    · rintro ⟨lines, hlines, rfl⟩
      cases hlines with
      | empty heol =>
        rw [parseHeaders, bind_of_ok (emptyLine_eq_true.mpr ⟨_, heol, rfl⟩)]
        rfl
  | succ left ih =>
    constructor
    · intro h
      obtain ⟨done, m, hempty, hrest⟩ := bind_eq_ok.mp h
      cases done with
      | true =>
        obtain ⟨rfl, rfl⟩ := Prod.mk.inj (Except.ok.inj hrest)
        obtain ⟨eol, heol, rfl⟩ := emptyLine_eq_true.mp hempty
        exact ⟨eol, .empty heol, rfl⟩
      | false =>
        obtain ⟨rfl, -⟩ := emptyLine_eq_false.mp hempty
        simp only [Bool.false_eq_true, if_false] at hrest
        obtain ⟨h₁, m₁, hheader, hmore⟩ := bind_eq_ok.mp hrest
        obtain ⟨hs₁, m₂, hheaders, hlast⟩ := bind_eq_ok.mp hmore
        obtain ⟨rfl, rfl⟩ := Prod.mk.inj (Except.ok.inj hlast)
        obtain ⟨line, hline, rfl⟩ := headerLine_of_parseHeader hheader
        obtain ⟨rest, hlines, rfl⟩ := ih.mp hheaders
        exact ⟨line ++ rest, .cons hline hlines, (List.append_assoc _ _ _).symm⟩
    · rintro ⟨lines, hlines, rfl⟩
      cases hlines with
      | empty heol =>
        rw [parseHeaders, bind_of_ok (emptyLine_eq_true.mpr ⟨_, heol, rfl⟩)]
        rfl
      | @cons _ _ line rest h hs hline hrest =>
        obtain ⟨c, cs, hc, h13, h10⟩ := hline.head
        have hempty : emptyLine (line ++ rest ++ r) = .ok (false, line ++ rest ++ r) :=
          emptyLine_eq_false.mpr ⟨rfl, c, cs ++ rest ++ r, by rw [hc]; rfl, h13, h10⟩
        have hheader := parseHeader_of_headerLine hline (rest ++ r)
        rw [← List.append_assoc] at hheader
        rw [parseHeaders, bind_of_ok hempty]
        simp only [Bool.false_eq_true, if_false]
        rw [bind_of_ok hheader, bind_of_ok (ih.mpr ⟨rest, hrest, rfl⟩)]
        rfl

/-! ## Requests -/

/-- The version is read when a byte follows its digit. -/
theorem parseHttpVersion_eq_ok {minor : ℕ} : parseHttpVersion b = .ok (minor, r) ↔
    r ≠ [] ∧ ∃ d, (48 ≤ d ∧ d ≤ 57) ∧ minor = d.toNat - 48 ∧ b = ascii "HTTP/1." ++ d :: r := by
  have hseven : (ascii "HTTP/1.").length = 7 := by decide
  constructor
  · intro h
    rw [parseHttpVersion] at h
    split_ifs at h with hlen hpre
    obtain ⟨t, rfl⟩ := List.isPrefixOf_iff_prefix.mp hpre
    rw [List.drop_left' hseven] at h
    cases t with
    | nil => exact absurd h (by simp)
    | cons d t =>
      simp only at h
      split_ifs at h with hdigit
      obtain ⟨rfl, rfl⟩ := Prod.mk.inj (Except.ok.inj h)
      refine ⟨?_, d, hdigit, rfl, rfl⟩
      rintro rfl
      simp [hseven] at hlen
  · rintro ⟨hne, d, hdigit, rfl, rfl⟩
    have hlen : ¬(ascii "HTTP/1." ++ d :: r).length < 9 := by
      have hpos := List.length_pos_iff.mpr hne
      simp only [List.length_append, hseven, List.length_cons]
      omega
    rw [parseHttpVersion, if_neg hlen, if_pos (List.isPrefixOf_iff_prefix.mpr ⟨_, rfl⟩),
      List.drop_left' hseven]
    exact if_pos hdigit

/-- Blanks in front of another byte. -/
theorem skipSpaces_eq_ok {gap : Bytes} : skipSpaces b = .ok (gap, r) ↔
    b = gap ++ r ∧ (∀ c ∈ gap, c = 32) ∧ ∃ d cs, r = d :: cs ∧ d ≠ 32 := by
  rw [skipSpaces, tokens_eq_ok]
  simp

theorem parseToken_eq_ok {t : Bytes} {nextChar : UInt8} (hchar : isTokenChar nextChar = false) :
    parseToken nextChar b = .ok (t, r) ↔
      (∀ c ∈ t, isTokenChar c = true) ∧ ∃ cs, r = nextChar :: cs ∧ b = t ++ r := by
  rw [parseToken, tokens_eq_ok]
  constructor
  · rintro ⟨rfl, ht, d, cs, rfl, hd⟩
    obtain rfl : d = nextChar := by simpa using hd
    exact ⟨fun c hc => (ht c hc).2, cs, rfl, rfl⟩
  · rintro ⟨ht, cs, rfl, rfl⟩
    refine ⟨rfl, fun c hc => ⟨?_, ht c hc⟩, nextChar, cs, rfl, by simp⟩
    have hne : c ≠ nextChar := by
      rintro rfl
      exact absurd (ht c hc) (by simp [hchar])
    simpa using hne

theorem advanceToken_eq_ok {t : Bytes} : advanceToken b = .ok (t, r) ↔
    (∀ c ∈ t, c ≠ 32 ∧ isUnprintable c = false) ∧ ∃ cs, r = 32 :: cs ∧ b = t ++ r := by
  rw [advanceToken, tokens_eq_ok]
  constructor
  · rintro ⟨rfl, ht, d, cs, rfl, hd⟩
    obtain rfl : d = 32 := by simpa using hd
    exact ⟨fun c hc => by simpa using ht c hc, cs, rfl, rfl⟩
  · rintro ⟨ht, cs, rfl, rfl⟩
    exact ⟨rfl, fun c hc => by simpa using ht c hc, 32, cs, rfl, rfl⟩

/-- What is read of a buffer is a head of the grammar. -/
theorem requestHead_of_parseRequest {maxHeaders : ℕ} {req : PhrRequest}
    (hread : parseRequest maxHeaders b = .ok (req, r)) :
    ∃ head, RequestHead maxHeaders head req ∧ b = head ++ r := by
  obtain ⟨skipped, b₁, hskip, h₁⟩ := bind_eq_ok.mp hread
  obtain ⟨method, b₂, hmethod, h₂⟩ := bind_eq_ok.mp h₁
  obtain ⟨hmlegal, b₃, rfl, rfl⟩ := (parseToken_eq_ok (by decide)).mp hmethod
  obtain ⟨_, b₃, hblank, h₃⟩ := bind_eq_ok.mp h₂
  obtain ⟨rfl, rfl⟩ := List.cons.inj (next_eq_ok.mp hblank)
  obtain ⟨gap, b₄, hgap, h₄⟩ := bind_eq_ok.mp h₃
  obtain ⟨rfl, hspaces, -⟩ := skipSpaces_eq_ok.mp hgap
  obtain ⟨path, b₅, hpath, h₅⟩ := bind_eq_ok.mp h₄
  obtain ⟨hplegal, b₆, rfl, rfl⟩ := advanceToken_eq_ok.mp hpath
  obtain ⟨_, b₆, hblank', h₆⟩ := bind_eq_ok.mp h₅
  obtain ⟨rfl, rfl⟩ := List.cons.inj (next_eq_ok.mp hblank')
  obtain ⟨gap', b₇, hgap', h₇⟩ := bind_eq_ok.mp h₆
  obtain ⟨rfl, hspaces', -⟩ := skipSpaces_eq_ok.mp hgap'
  split_ifs at h₇ with hempty
  · exact absurd h₇ (by simp)
  · obtain ⟨hmne, hpne⟩ := not_or.mp hempty
    obtain ⟨minor, b₈, hversion, h₈⟩ := bind_eq_ok.mp h₇
    obtain ⟨-, d, hdigit, rfl, rfl⟩ := parseHttpVersion_eq_ok.mp hversion
    obtain ⟨_, b₉, hline, h₉⟩ := bind_eq_ok.mp h₈
    obtain ⟨eol, heol, rfl⟩ := lineEnd_eq_ok.mp hline
    obtain ⟨headers, b₁₀, hheaders, hlast⟩ := bind_eq_ok.mp h₉
    obtain ⟨rfl, rfl⟩ := Prod.mk.inj (Except.ok.inj hlast)
    obtain ⟨lines, hlines, rfl⟩ := parseHeaders_eq_ok.mp hheaders
    have hpre : ∃ pre, (pre = [] ∨ LineEnd pre) ∧ b = pre ++ (method ++ 32 :: (gap ++ (path ++
        32 :: (gap' ++ (ascii "HTTP/1." ++ d :: (eol ++ (lines ++ b₁₀))))))) := by
      cases skipped with
      | true =>
        obtain ⟨pre, hpre, rfl⟩ := emptyLine_eq_true.mp hskip
        exact ⟨pre, Or.inr hpre, rfl⟩
      | false =>
        obtain ⟨rfl, -⟩ := emptyLine_eq_false.mp hskip
        exact ⟨[], Or.inl rfl, rfl⟩
    obtain ⟨pre, hpre, rfl⟩ := hpre
    refine ⟨_, .head hpre ⟨hmne, hmlegal⟩ hspaces ⟨hpne, hplegal⟩ hspaces' hdigit heol hlines, ?_⟩
    simp

/-- A head of the grammar is read, whatever follows it. -/
theorem parseRequest_of_requestHead {maxHeaders : ℕ} {req : PhrRequest} {head : Bytes}
    (hhead : RequestHead maxHeaders head req) (r : Bytes) :
    parseRequest maxHeaders (head ++ r) = .ok (req, r) := by
  obtain @⟨pre, method, gap, path, gap', eol, lines, d, headers, hpre, hmethod, hgap, hpath, hgap',
    hd, heol, hlines⟩ := hhead
  have hversion : parseHttpVersion (ascii "HTTP/1." ++ d :: (eol ++ (lines ++ r))) =
      .ok (d.toNat - 48, eol ++ (lines ++ r)) := by
    refine parseHttpVersion_eq_ok.mpr ⟨?_, d, hd, rfl, rfl⟩
    obtain ⟨c, cs, rfl, -⟩ := heol.head
    simp
  have hspaces' : skipSpaces (gap' ++ (ascii "HTTP/1." ++ d :: (eol ++ (lines ++ r)))) =
      .ok (gap', ascii "HTTP/1." ++ d :: (eol ++ (lines ++ r))) :=
    skipSpaces_eq_ok.mpr ⟨rfl, hgap', 72, _, rfl, by decide⟩
  generalize hrest' : gap' ++ (ascii "HTTP/1." ++ d :: (eol ++ (lines ++ r))) = rest' at hspaces'
  have hadvance : advanceToken (path ++ 32 :: rest') = .ok (path, 32 :: rest') :=
    advanceToken_eq_ok.mpr ⟨hpath.legal, rest', rfl, rfl⟩
  have hspaces : skipSpaces (gap ++ (path ++ 32 :: rest')) = .ok (gap, path ++ 32 :: rest') := by
    obtain ⟨c, cs, hc⟩ := List.exists_cons_of_ne_nil hpath.nonempty
    refine skipSpaces_eq_ok.mpr ⟨rfl, hgap, c, cs ++ 32 :: rest', by rw [hc]; rfl, ?_⟩
    exact (hpath.legal c (by simp [hc])).1
  generalize hrest : gap ++ (path ++ 32 :: rest') = rest at hspaces
  have htoken : parseToken 32 (method ++ 32 :: rest) = .ok (method, 32 :: rest) :=
    (parseToken_eq_ok (by decide)).mpr ⟨hmethod.legal, rest, rfl, rfl⟩
  have hempty : ∃ skipped,
      emptyLine (pre ++ (method ++ 32 :: rest)) = .ok (skipped, method ++ 32 :: rest) := by
    rcases hpre with rfl | hpre
    · obtain ⟨c, cs, hc⟩ := List.exists_cons_of_ne_nil hmethod.nonempty
      have hne := token_ne (hmethod.legal c (by simp [hc]))
      exact ⟨false, emptyLine_eq_false.mpr ⟨rfl, c, cs ++ 32 :: rest, by rw [hc]; rfl,
        hne.2.1, hne.1⟩⟩
    · exact ⟨true, emptyLine_eq_true.mpr ⟨pre, hpre, rfl⟩⟩
  obtain ⟨skipped, hempty⟩ := hempty
  have hline : lineEnd (eol ++ (lines ++ r)) = .ok ((), lines ++ r) :=
    lineEnd_eq_ok.mpr ⟨eol, heol, rfl⟩
  have hheaders : parseHeaders maxHeaders true (lines ++ r) = .ok (headers, r) :=
    parseHeaders_eq_ok.mpr ⟨lines, hlines, rfl⟩
  have hblank : ∀ t : Bytes, next ((32 : UInt8) :: t) = .ok (32, t) := fun _ => rfl
  have hsome : ¬(method = [] ∨ path = []) := not_or.mpr ⟨hmethod.nonempty, hpath.nonempty⟩
  have htext : pre ++ (method ++ 32 :: (gap ++ (path ++ 32 :: (gap' ++ (ascii "HTTP/1." ++
      d :: (eol ++ lines)))))) ++ r = pre ++ (method ++ 32 :: rest) := by
    rw [← hrest, ← hrest']
    simp
  rw [htext, parseRequest, bind_of_ok hempty, bind_of_ok htoken, bind_of_ok (hblank rest),
    bind_of_ok hspaces, bind_of_ok hadvance, bind_of_ok (hblank rest'), bind_of_ok hspaces',
    if_neg hsome, bind_of_ok hversion, bind_of_ok hline, bind_of_ok hheaders]
  rfl

theorem parseRequest_eq_ok {maxHeaders : ℕ} {req : PhrRequest} :
    parseRequest maxHeaders b = .ok (req, r) ↔
      ∃ head, RequestHead maxHeaders head req ∧ b = head ++ r := by
  refine ⟨requestHead_of_parseRequest, ?_⟩
  rintro ⟨head, hhead, rfl⟩
  exact parseRequest_of_requestHead hhead r

theorem phrParseRequest_zero (maxHeaders : ℕ) (b : Bytes) : phrParseRequest maxHeaders b 0 =
    match parseRequest maxHeaders b with
    | .error e => stopResult e
    | .ok (req, r) => .ok (b.length - r.length) req := rfl

/-- The parser returns a request with the length of its head. -/
theorem phr_eq_ok {maxHeaders n : ℕ} {b : Bytes} {req : PhrRequest} :
    phrParseRequest maxHeaders b 0 = .ok n req ↔
      ∃ head r, RequestHead maxHeaders head req ∧ b = head ++ r ∧ n = head.length := by
  rw [phrParseRequest_zero]
  constructor
  · intro h
    split at h
    · next e _ => cases e <;> simp [stopResult] at h
    · next req' r hread =>
      obtain ⟨rfl, rfl⟩ := PhrResult.ok.inj h
      obtain ⟨head, hhead, rfl⟩ := parseRequest_eq_ok.mp hread
      exact ⟨head, r, hhead, rfl, by simp⟩
  · rintro ⟨head, r, hhead, rfl, rfl⟩
    rw [parseRequest_eq_ok.mpr ⟨head, hhead, rfl⟩]
    simp

/-- A first attempt on a buffer returns a request exactly when the buffer begins with a head of
the grammar that stands for it, and returns the head's length. -/
theorem phr_reads_grammar (maxHeaders : ℕ) (b : Bytes) (n : ℕ) (req : PhrRequest) :
    phrParseRequest maxHeaders b 0 = .ok n req ↔
      n ≤ b.length ∧ RequestHead maxHeaders (b.take n) req := by
  constructor
  · intro h
    obtain ⟨head, r, hhead, rfl, rfl⟩ := phr_eq_ok.mp h
    rw [List.take_left]
    exact ⟨by simp, hhead⟩
  · rintro ⟨hn, hhead⟩
    exact phr_eq_ok.mpr ⟨b.take n, b.drop n, hhead, (List.take_append_drop n b).symm,
      (List.length_take_of_le hn).symm⟩

end MoonFlare.Pico
