import MoonFlare.Textbelt
import MoonFlare.Utf8

/-!
# The text of a notification, cut

What a notification says is the words of its title and of its message with one space
between two of them, and `": "` where the title ends. `tb_message` writes it into a buffer
of any size: the text itself when it fits, else the start of it up to a character and
`"..."`. The scratch buffer can be too short for the title alone, but never for the part
that is kept.
-/

namespace MoonFlare.Textbelt

open Utf8 (Valid continues)

/-! ## The function for any capacity -/

/-- `tb_message` with the capacity it is given. With none it writes nothing. -/
def tbMessageIn (cap : ℕ) (title : Option CString) (message : CString) : Option CString :=
  if cap = 0 then none
  else
    let max := min (cap - 1) tbMsgMax
    let size := 2 * tbMsgMax + 8
    let body := putText size [] message.bytes
    if body = [] ∨ body = [32] then some CString.empty
    else
      let head := match title with
        | some t => trimEnd (putText size [] t.bytes)
        | none => []
      let head := if head ≠ [] ∧ head.length + 2 < size then head ++ ascii ": " else head
      let buf := trimEnd (putText size head message.bytes)
      let buf := if max < buf.length ∧ 4 ≤ max then
        trimEnd (buf.take (charStart buf (max - 3))) ++ ascii "..." else buf
      some ((CString.ofBytes buf).take (cap - 1))

/-- The sender's own buffer is the longest one that is of use. -/
theorem tbMessage_eq (title : Option CString) (message : CString) :
    tbMessageIn 321 title message = some (tbMessage title message).str := by
  have hmin : min (321 - 1) tbMsgMax = tbMsgMax := rfl
  have hmax : ∀ n, (tbMsgMax < n ∧ 4 ≤ tbMsgMax) ↔ tbMsgMax < n := fun n =>
    and_iff_left (by decide)
  unfold tbMessageIn tbMessage
  rw [if_neg (by norm_num)]
  dsimp only
  rw [hmin]
  by_cases hbody : putText (2 * tbMsgMax + 8) [] message.bytes = [] ∨
      putText (2 * tbMsgMax + 8) [] message.bytes = [32]
  · rw [if_pos hbody, if_pos hbody]
    rfl
  · rw [if_neg hbody, if_neg hbody]
    simp only [hmax]
    rfl

/-! ## What the text is to be -/

/-- The words of a text: what stands between spaces and control bytes. -/
def words (b : Bytes) : List Bytes := (b.splitOnP (· ≤ 32)).filter (· ≠ [])

/-- The words with one space between two of them. -/
def normal (b : Bytes) : Bytes := [32].intercalate (words b)

/-- The whole text of a notification. A title alone is not one. -/
def whole (title : Option CString) (message : CString) : Bytes :=
  let head := normal ((title.map CString.bytes).getD [])
  let body := normal message.bytes
  if body = [] then [] else if head = [] then body else head ++ ascii ": " ++ body

/-- No two spaces in a row. -/
def Single (b : Bytes) : Prop := b.IsChain fun x y => ¬(x = 32 ∧ y = 32)

/-- A line as a message is to be: no control bytes, no space at its ends and no two in a
row. -/
structure Tidy (b : Bytes) : Prop where
  /-- Every byte shows. -/
  printed : ∀ x ∈ b, 32 ≤ x
  /-- It starts with a word. -/
  first : b.head? ≠ some 32
  /-- It ends with one. -/
  last : b.getLast? ≠ some 32
  /-- There is one space between two words. -/
  single : Single b

/-! ## One pass over a text -/

/-- What `put_text` writes for a text, behind a space or nothing (`sp`) or behind
something else. -/
def collapse : Bool → Bytes → Bytes
  | _, [] => []
  | sp, b :: rest =>
    let ch := if b < 32 then 32 else b
    if ch = 32 ∧ sp = true then collapse sp rest else ch :: collapse (ch == 32) rest

/-- What is there ends a word or is nothing. -/
def endsWord (out : Bytes) : Bool := out == [] || out.getLast? == some 32

/-- A byte that is no space, and the word it goes on. -/
theorem collapse_letter {b : UInt8} (hb : 32 < b) (sp : Bool) (rest : Bytes) :
    collapse sp (b :: rest) = b :: collapse false rest := by
  have hlow : ¬b < 32 := UInt8.not_lt.mpr (UInt8.le_of_lt hb)
  have hne : b ≠ 32 := (UInt8.ne_of_lt hb).symm
  rw [collapse]
  simp only [if_neg hlow, hne, false_and, if_false, beq_eq_false_iff_ne.mpr hne]

/-- A space or a control byte behind a space is left out. -/
theorem collapse_blank_true {b : UInt8} (hb : b ≤ 32) (rest : Bytes) :
    collapse true (b :: rest) = collapse true rest := by
  have hch : (if b < 32 then 32 else b) = 32 := by
    split_ifs with h
    · rfl
    · exact UInt8.le_antisymm hb (UInt8.not_lt.mp h)
  rw [collapse]
  simp only [hch, and_self, if_true]

/-- A space or a control byte behind a word is one space. -/
theorem collapse_blank_false {b : UInt8} (hb : b ≤ 32) (rest : Bytes) :
    collapse false (b :: rest) = 32 :: collapse true rest := by
  have hch : (if b < 32 then 32 else b) = 32 := by
    split_ifs with h
    · rfl
    · exact UInt8.le_antisymm hb (UInt8.not_lt.mp h)
  rw [collapse]
  simp only [hch, Bool.false_eq_true, and_false, if_false, beq_self_eq_true]

/-- `put_text` writes the pass over the text up to the room there is. -/
theorem putText_eq {cap : ℕ} (out s : Bytes) (h : out.length < cap) :
    putText cap out s = out ++ (collapse (endsWord out) s).take (cap - 1 - out.length) := by
  induction s generalizing out with
  | nil => simp [putText, collapse]
  | cons b rest ih =>
    unfold putText collapse
    by_cases hroom : out.length + 1 < cap
    · rw [if_pos hroom]
      dsimp only
      generalize (if b < 32 then 32 else b) = ch
      have hsame : (out = [] ∨ out.getLast? = some 32) ↔ endsWord out = true := by
        simp [endsWord]
      simp only [hsame]
      by_cases hskip : ch = 32 ∧ endsWord out = true
      · rw [if_pos hskip, if_pos hskip, ih out h]
      · rw [if_neg hskip, if_neg hskip, ih (out ++ [ch]) (by simpa using hroom)]
        have hends : endsWord (out ++ [ch]) = (ch == 32) := by
          simp [endsWord]
        have hleft : cap - 1 - out.length = cap - 1 - (out ++ [ch]).length + 1 := by
          rw [List.length_append, List.length_singleton]
          omega
        rw [hends, hleft, List.take_succ_cons, List.append_assoc, List.singleton_append]
    · have hzero : cap - 1 - out.length = 0 := by omega
      rw [if_neg hroom, hzero, List.take_zero, List.append_nil]

/-! ## The pass and the words -/

/-- Trimming a text with one more byte in front. -/
theorem trimEnd_cons (c : UInt8) (x : Bytes) :
    trimEnd (c :: x) = if c = 32 ∧ trimEnd x = [] then [] else c :: trimEnd x := by
  unfold trimEnd List.rdropWhile
  rw [List.reverse_cons, List.dropWhile_append]
  by_cases hx : (x.reverse.dropWhile (· == 32)) = []
  · by_cases hc : c = 32
    · simp [hx, hc]
    · simp [hx, hc]
  · have hempty : (x.reverse.dropWhile (· == 32)).isEmpty = false := by
      simpa using hx
    rw [hempty]
    simp only [Bool.false_eq_true, if_false, List.reverse_append, List.reverse_singleton,
      List.singleton_append, List.reverse_eq_nil_iff, hx, and_false]

/-- Words, each with a space in front. -/
def spaced (ws : List Bytes) : Bytes := ws.flatMap (32 :: ·)

theorem intercalate_cons (w : Bytes) (ws : List Bytes) :
    [32].intercalate (w :: ws) = w ++ spaced ws := by
  induction ws generalizing w with
  | nil => simp [spaced, List.intercalate]
  | cons v ws ih =>
    have hstep : ([32] : Bytes).intercalate (w :: v :: ws) =
        w ++ 32 :: [32].intercalate (v :: ws) := by
      simp [List.intercalate]
    rw [hstep, ih v]
    simp [spaced]

/-- The words of the first piece and of the ones behind it. -/
theorem normal_eq {s head : Bytes} {tail : List Bytes}
    (hsplit : s.splitOnP (· ≤ 32) = head :: tail) :
    normal s = if head = [] then [32].intercalate (tail.filter (· ≠ []))
      else head ++ spaced (tail.filter (· ≠ [])) := by
  unfold normal words
  rw [hsplit, List.filter_cons]
  by_cases hhead : head = []
  · simp [hhead]
  · simp only [hhead, ne_eq, not_false_eq_true, decide_true, if_true, if_false]
    exact intercalate_cons _ _

/-- Words with a space in front of each. -/
theorem spaced_words (ws : List Bytes) (hne : ∀ w ∈ ws, w ≠ []) :
    spaced ws = if [32].intercalate ws = [] then [] else 32 :: [32].intercalate ws := by
  cases ws with
  | nil => simp [spaced, List.intercalate]
  | cons w ws =>
    have hw : w ≠ [] := hne w List.mem_cons_self
    rw [intercalate_cons, if_neg (by simp [hw])]
    simp [spaced]

/-- A text behind a blank has the words of the text. -/
theorem normal_blank {b : UInt8} (hb : b ≤ 32) (rest : Bytes) :
    normal (b :: rest) = normal rest := by
  unfold normal words
  rw [List.splitOnP_cons_eq_if_modifyHead, if_pos (by simpa using hb), List.filter_cons,
    if_neg (by simp)]

/-- The pass over a text gives its words, but for a space at the end. Behind a word, the
first piece of the text goes on that word. -/
theorem trimEnd_collapse (s : Bytes) :
    trimEnd (collapse true s) = normal s ∧
      ∀ head tail, s.splitOnP (· ≤ 32) = head :: tail →
        trimEnd (collapse false s) = head ++ spaced (tail.filter (· ≠ [])) := by
  induction s with
  | nil =>
    refine ⟨rfl, ?_⟩
    intro head tail hsplit
    rw [List.splitOnP_nil] at hsplit
    cases hsplit
    rfl
  | cons b rest ih =>
    by_cases hb : b ≤ 32
    · refine ⟨by rw [collapse_blank_true hb, normal_blank hb, ih.1], ?_⟩
      intro head tail hsplit
      rw [List.splitOnP_cons_eq_if_modifyHead, if_pos (by simpa using hb)] at hsplit
      cases hsplit
      have hspaced := spaced_words (words rest) fun w hw => by
        simpa using (List.mem_filter.mp hw).2
      rw [collapse_blank_false hb, trimEnd_cons, ih.1, List.nil_append]
      unfold words at hspaced
      rw [hspaced]
      simp only [true_and]
      rfl
    · have hletter : 32 < b := UInt8.not_le.mp hb
      have hne : b ≠ 32 := fun h => hb (h ▸ UInt8.le_refl _)
      obtain ⟨first, later, hrest⟩ :=
        List.exists_cons_of_ne_nil (List.splitOnP_ne_nil (· ≤ (32 : UInt8)) rest)
      have hsplit : (b :: rest).splitOnP (· ≤ 32) = (b :: first) :: later := by
        rw [List.splitOnP_cons_eq_if_modifyHead, if_neg (by simpa using hb), hrest,
          List.modifyHead_cons]
      have htrim : ∀ x, trimEnd (b :: x) = b :: trimEnd x := by
        intro x
        rw [trimEnd_cons, if_neg fun h => hne h.1]
      refine ⟨?_, ?_⟩
      · rw [collapse_letter hletter, htrim, ih.2 first later hrest, normal_eq hsplit,
          if_neg (List.cons_ne_nil _ _), List.cons_append]
      · intro head tail hcut
        rw [hsplit] at hcut
        obtain ⟨rfl, rfl⟩ := List.cons.inj hcut
        rw [collapse_letter hletter, htrim, ih.2 first later hrest, List.cons_append]

/-- A pass that writes nothing saw no word. -/
theorem collapse_nil_iff (s : Bytes) : collapse true s = [] ↔ normal s = [] := by
  constructor
  · intro h
    rw [← (trimEnd_collapse s).1, h]
    rfl
  · induction s with
    | nil => exact fun _ => rfl
    | cons b rest ih =>
      intro h
      by_cases hb : b ≤ 32
      · rw [collapse_blank_true hb]
        exact ih (normal_blank hb rest ▸ h)
      · have hletter : 32 < b := UInt8.not_le.mp hb
        have hne : b ≠ 32 := (UInt8.ne_of_lt hletter).symm
        rw [← (trimEnd_collapse _).1, collapse_letter hletter, trimEnd_cons] at h
        simp only [hne, false_and, if_false, reduceCtorEq] at h

/-! ## One space at a time -/

/-- The pass writes no two spaces in a row, none in front when it stands behind one, and
only bytes that show. -/
theorem collapse_single (sp : Bool) (s : Bytes) :
    Single (collapse sp s) ∧ (sp = true → (collapse sp s).head? ≠ some 32) ∧
      ∀ x ∈ collapse sp s, 32 ≤ x := by
  induction s generalizing sp with
  | nil => exact ⟨List.IsChain.nil, by simp [collapse], by simp [collapse]⟩
  | cons b rest ih =>
    by_cases hb : b ≤ 32
    · cases sp with
      | true =>
        rw [collapse_blank_true hb]
        exact ih true
      | false =>
        obtain ⟨hsingle, hhead, hprint⟩ := ih true
        rw [collapse_blank_false hb]
        refine ⟨?_, by simp, ?_⟩
        · refine List.isChain_cons.mpr ⟨?_, hsingle⟩
          intro y hy hboth
          exact hhead rfl (hboth.2 ▸ hy)
        · simpa using hprint
    · have hletter : 32 < b := UInt8.not_le.mp hb
      have hne : b ≠ 32 := (UInt8.ne_of_lt hletter).symm
      obtain ⟨hsingle, -, hprint⟩ := ih false
      rw [collapse_letter hletter]
      refine ⟨?_, by simp [hne], ?_⟩
      · refine List.isChain_cons.mpr ⟨?_, hsingle⟩
        intro y _ hboth
        exact hne hboth.1
      · simpa using ⟨UInt8.le_of_lt hletter, hprint⟩

/-- What such a text starts with. -/
theorem Single.starts {b p : Bytes} (h : Single b) (hp : p <+: b) : Single p := by
  obtain ⟨rest, rfl⟩ := hp
  exact List.IsChain.left_of_append h

/-- A text without its trailing spaces starts the text. -/
theorem trimEnd_starts (b : Bytes) : trimEnd b <+: b := List.rdropWhile_prefix _ _

/-- Nothing trails a trimmed text. -/
theorem trimEnd_last (b : Bytes) : (trimEnd b).getLast? ≠ some 32 := by
  intro h
  have hne : trimEnd b ≠ [] := by
    rintro hnil
    rw [hnil] at h
    cases h
  have hlast := List.rdropWhile_last_not (· == 32) b hne
  rw [List.getLast?_eq_some_getLast hne] at h
  exact hlast (beq_iff_eq.mpr (Option.some.inj h))

/-- Without two spaces in a row there is one to trim. -/
theorem trimEnd_length {b : Bytes} (h : Single b) : b.length ≤ (trimEnd b).length + 1 := by
  induction b with
  | nil => simp
  | cons c x ih =>
    obtain ⟨hnext, hx⟩ := List.isChain_cons.mp h
    rw [trimEnd_cons]
    split_ifs with hc
    · have hone : x = [] := by
        cases x with
        | nil => rfl
        | cons d y =>
          have hall := List.rdropWhile_eq_nil_iff.mp hc.2 d List.mem_cons_self
          exact absurd ⟨hc.1, by simpa using hall⟩ (hnext d rfl)
      rw [hone]
      rfl
    · simpa using ih hx

/-- Trimming keeps all but the last byte. -/
theorem trimEnd_take {b : Bytes} (h : Single b) {n : ℕ} (hn : n < b.length) :
    (trimEnd b).take n = b.take n := by
  have hlen := trimEnd_length h
  obtain ⟨rest, hrest⟩ := trimEnd_starts b
  conv_rhs => rw [← hrest]
  rw [List.take_append_of_le_length (by omega)]

/-! ## Whole characters -/

/-- Bytes of a word. -/
theorem collapse_letters {w : Bytes} (hw : ∀ x ∈ w, 32 < x) (rest : Bytes) :
    collapse false (w ++ rest) = w ++ collapse false rest := by
  induction w with
  | nil => rfl
  | cons b w ih =>
    rw [List.cons_append, collapse_letter (hw b List.mem_cons_self),
      ih fun x hx => hw x (List.mem_cons_of_mem _ hx), List.cons_append]

/-- The pass over whole characters writes whole characters. -/
theorem collapse_valid {s : Bytes} (h : Valid s) (sp : Bool) : Valid (collapse sp s) := by
  have hspace : Valid [32] := ⟨[Char.ofNat 32], rfl⟩
  obtain ⟨cs, rfl⟩ := h
  induction cs generalizing sp with
  | nil => exact Utf8.valid_nil
  | cons c cs ih =>
    have hchar : Valid (String.utf8EncodeChar c) := ⟨[c], by simp⟩
    rw [List.flatMap_cons]
    rcases Utf8.encode_cases c with ⟨b, -, -, henc⟩ | ⟨b, bs, hb, -, hbs, henc⟩
    · rw [henc] at hchar ⊢
      by_cases hblank : b ≤ 32
      · cases sp with
        | true =>
          rw [List.singleton_append, collapse_blank_true hblank]
          exact ih true
        | false =>
          rw [List.singleton_append, collapse_blank_false hblank]
          exact hspace.append (ih true)
      · rw [List.singleton_append, collapse_letter (UInt8.not_le.mp hblank)]
        exact hchar.append (ih false)
    · have hhigh : ∀ x : UInt8, 128 ≤ x → 32 < x := fun x hx =>
        UInt8.lt_of_lt_of_le (by decide) hx
      rw [henc] at hchar ⊢
      rw [List.cons_append, collapse_letter (hhigh b hb),
        collapse_letters fun x hx => hhigh x (hbs x hx).1]
      exact hchar.append (ih false)

/-- The words of a text of whole characters. -/
theorem normal_valid {s : Bytes} (h : Valid s) : Valid (normal s) := by
  rw [← (trimEnd_collapse s).1]
  exact (collapse_valid h true).trimEnd

/-- The place that is cut at starts a character. -/
theorem charStart_spec (buf : Bytes) (off : ℕ) :
    charStart buf off ≤ off ∧
      (charStart buf off = 0 ∨ continues (buf.getD (charStart buf off) 0) = false) := by
  induction off with
  | zero => exact ⟨le_rfl, Or.inl rfl⟩
  | succ off ih =>
    unfold charStart
    split_ifs with h
    · exact ⟨ih.1.trans (Nat.le_succ _), ih.2⟩
    · exact ⟨le_rfl, Or.inr (by simpa [continues, isContinuation] using h)⟩

/-- It depends on what stands up to the place it is looked for from. -/
theorem charStart_congr {a b : Bytes} {n : ℕ} (h : a.take n = b.take n) {off : ℕ}
    (hoff : off < n) : charStart a off = charStart b off := by
  induction off with
  | zero => rfl
  | succ off ih =>
    have hsame : a.getD (off + 1) 0 = b.getD (off + 1) 0 := by
      have hget : (a.take n)[off + 1]? = (b.take n)[off + 1]? := by rw [h]
      rw [List.getElem?_take_of_lt hoff, List.getElem?_take_of_lt hoff] at hget
      rw [List.getD_eq_getElem?_getD, List.getD_eq_getElem?_getD, hget]
    unfold charStart
    rw [hsame, ih (by omega)]

/-! ## The scratch buffer -/

/-- Trimming a text with more behind it. -/
theorem trimEnd_append (a x : Bytes) :
    trimEnd (a ++ x) = if trimEnd x = [] then trimEnd a else a ++ trimEnd x := by
  induction a with
  | nil =>
    split_ifs with h
    · exact h
    · rfl
  | cons c a ih =>
    rw [List.cons_append, trimEnd_cons, trimEnd_cons, ih]
    by_cases hx : trimEnd x = []
    · simp only [hx, if_true]
    · simp only [hx, if_false, List.append_eq_nil_iff, and_false, List.cons_append]

/-- A part of a text with no two spaces in a row. -/
theorem Single.take {b : Bytes} (h : Single b) (n : ℕ) : Single (b.take n) :=
  List.IsChain.take h n

/-- The first 321 bytes are the same when the text is cut at the size of the buffer. -/
theorem cut_take {b : Bytes} (h : Single b) :
    (trimEnd (b.take 647)).take 321 = (trimEnd b).take 321 := by
  by_cases hlen : b.length ≤ 647
  · rw [List.take_of_length_le hlen]
  · have hcut : 321 < (b.take 647).length := by
      rw [List.length_take]
      omega
    rw [trimEnd_take (h.take 647) hcut, trimEnd_take h (by omega), List.take_take]
    rfl

/-- A title as the buffer holds it. -/
def headText (title : Option CString) : Bytes :=
  trimEnd ((collapse true ((title.map CString.bytes).getD [])).take 647)

/-- What joins a title and the message. -/
def joint (head : Bytes) : Bytes :=
  if head ≠ [] ∧ head.length + 2 < 648 then head ++ ascii ": " else head

/-- The buffer before it is cut to the message. -/
def scratch (title : Option CString) (message : CString) : Bytes :=
  trimEnd (putText 648 (joint (headText title)) message.bytes)

/-- The text cut at a number of bytes. -/
def shorten (max : ℕ) (buf : Bytes) : Bytes :=
  trimEnd (buf.take (charStart buf (max - 3))) ++ ascii "..."

/-- `tb_message` from what the buffer holds. -/
theorem tbMessageIn_eq {cap : ℕ} (hcap : 5 ≤ cap) (title : Option CString) (message : CString) :
    tbMessageIn cap title message =
      some (if normal message.bytes = [] then CString.empty
        else (CString.ofBytes (if min (cap - 1) tbMsgMax < (scratch title message).length then
          shorten (min (cap - 1) tbMsgMax) (scratch title message)
          else scratch title message)).take (cap - 1)) := by
  have hfour : ∀ n, (min (cap - 1) tbMsgMax < n ∧ 4 ≤ min (cap - 1) tbMsgMax) ↔
      min (cap - 1) tbMsgMax < n := fun n => and_iff_left (le_min (by omega) (by decide))
  have hbody : putText 648 [] message.bytes = (collapse true message.bytes).take 647 :=
    putText_eq [] message.bytes (by norm_num)
  have hblank : (putText 648 [] message.bytes = [] ∨ putText 648 [] message.bytes = [32]) ↔
      normal message.bytes = [] := by
    rw [hbody, ← collapse_nil_iff]
    constructor
    · rintro (h | h)
      · simpa using List.take_eq_nil_iff.mp h
      · have hhead := (collapse_single true message.bytes).2.1 rfl
        cases hc : collapse true message.bytes with
        | nil => rfl
        | cons b x =>
          rw [hc] at h hhead
          rw [List.take_succ_cons] at h
          rw [(List.cons.inj h).1] at hhead
          exact absurd rfl hhead
    · intro h
      rw [h]
      exact Or.inl rfl
  have hhead : (match title with
      | some t => trimEnd (putText 648 [] t.bytes)
      | none => []) = headText title := by
    cases title with
    | none => rfl
    | some t =>
      have ht : putText 648 [] t.bytes = (collapse true t.bytes).take 647 :=
        putText_eq [] t.bytes (by norm_num)
      simp only [ht]
      rfl
  have hsize : 2 * tbMsgMax + 8 = 648 := rfl
  unfold tbMessageIn
  rw [if_neg (by omega)]
  dsimp only
  rw [hsize]
  by_cases hm : normal message.bytes = []
  · rw [if_pos hm, if_pos (hblank.mpr hm)]
  · rw [if_neg hm, if_neg fun h => hm (hblank.mp h), hhead]
    simp only [hfour]
    rfl

/-! ## The whole text in the buffer -/

/-- The text as it is written, with a space that trails it. -/
def draft (title : Option CString) (message : CString) : Bytes :=
  let head := normal ((title.map CString.bytes).getD [])
  (if head = [] then [] else head ++ ascii ": ") ++ collapse true message.bytes

/-- The text is what is written without the trailing space. -/
theorem trimEnd_draft {message : CString} (hm : normal message.bytes ≠ [])
    (title : Option CString) : trimEnd (draft title message) = whole title message := by
  unfold draft whole
  dsimp only
  rw [trimEnd_append, (trimEnd_collapse _).1, if_neg hm, if_neg hm]
  split_ifs
  · rfl
  · rw [List.append_assoc]

/-- The words of a text are tidy. -/
theorem normal_tidy (s : Bytes) : Tidy (normal s) := by
  obtain ⟨hsingle, hfirst, hprint⟩ := collapse_single true s
  have hstarts := trimEnd_starts (collapse true s)
  rw [(trimEnd_collapse s).1] at hstarts
  refine ⟨fun x hx => hprint x (hstarts.subset hx), ?_, ?_, hsingle.starts hstarts⟩
  · intro h
    have hne : normal s ≠ [] := by
      intro hnil
      rw [hnil] at h
      cases h
    obtain ⟨rest, hrest⟩ := hstarts
    rw [← hrest, List.head?_append_of_ne_nil _ hne] at hfirst
    exact hfirst rfl h
  · rw [← (trimEnd_collapse s).1]
    exact trimEnd_last _

/-- What is written has no two spaces in a row, and none in front. -/
theorem draft_single (title : Option CString) (message : CString) :
    Single (draft title message) ∧ (draft title message).head? ≠ some 32 ∧
      ∀ x ∈ draft title message, 32 ≤ x := by
  obtain ⟨hsingle, hfirst, hprint⟩ := collapse_single true message.bytes
  unfold draft
  dsimp only
  have htidy := normal_tidy ((title.map CString.bytes).getD [])
  generalize normal ((title.map CString.bytes).getD []) = head at htidy
  split_ifs with hnil
  · rw [List.nil_append]
    exact ⟨hsingle, hfirst rfl, hprint⟩
  · have hcolon : Single (ascii ": " ++ collapse true message.bytes) := by
      refine List.isChain_append.mpr ⟨by decide, hsingle, ?_⟩
      intro x _ y hy hboth
      exact hfirst rfl (hboth.2 ▸ hy)
    rw [List.append_assoc]
    refine ⟨?_, ?_, ?_⟩
    · refine List.isChain_append.mpr ⟨htidy.single, hcolon, ?_⟩
      intro x hx y _ hboth
      exact htidy.last (hboth.1 ▸ hx)
    · rw [List.head?_append_of_ne_nil _ hnil]
      exact htidy.first
    · intro x hx
      rcases List.mem_append.mp hx with hx | hx
      · exact htidy.printed x hx
      · rcases List.mem_append.mp hx with hx | hx
        · have hcolon : x = 58 ∨ x = 32 := by simpa [ascii] using hx
          rcases hcolon with rfl | rfl <;> decide
        · exact hprint x hx

/-- A title that fills the buffer is what the text starts with. -/
theorem scratch_take_long {message : CString} (hm : normal message.bytes ≠ [])
    (title : Option CString) (hlong : 646 ≤ (headText title).length) :
    (scratch title message).take 321 = (whole title message).take 321 := by
  have hcut := cut_take (collapse_single true ((title.map CString.bytes).getD [])).1
  rw [(trimEnd_collapse _).1] at hcut
  have hroom : (headText title).length < 648 := by
    unfold headText
    have hle := (trimEnd_starts
      ((collapse true ((title.map CString.bytes).getD [])).take 647)).length_le
    rw [List.length_take] at hle
    omega
  have hjoint : joint (headText title) = headText title :=
    if_neg fun h => absurd h.2 (by omega)
  have hscratch : (scratch title message).take 321 = (headText title).take 321 := by
    unfold scratch
    rw [hjoint, putText_eq _ _ hroom, trimEnd_append]
    have htrim : trimEnd (headText title) = headText title := List.rdropWhile_idempotent _ _
    split_ifs
    · rw [htrim]
    · rw [List.take_append_of_le_length (by omega)]
  have hlen : 321 ≤ (normal ((title.map CString.bytes).getD [])).length := by
    have hlens := congrArg List.length hcut
    rw [List.length_take, List.length_take] at hlens
    unfold headText at hlong
    omega
  have hne : normal ((title.map CString.bytes).getD []) ≠ [] := by
    intro hnil
    rw [hnil] at hlen
    simp at hlen
  rw [hscratch]
  unfold whole headText
  dsimp only
  rw [hcut, if_neg hm, if_neg hne, List.append_assoc, List.take_append_of_le_length hlen]

/-- The buffer holds the start of the text. -/
theorem scratch_take {message : CString} (hm : normal message.bytes ≠ [])
    (title : Option CString) :
    (scratch title message).take 321 = (whole title message).take 321 := by
  by_cases hlong : 646 ≤ (headText title).length
  · exact scratch_take_long hm title hlong
  · have hshort : headText title = normal ((title.map CString.bytes).getD []) := by
      have hlen := trimEnd_length
        ((collapse_single true ((title.map CString.bytes).getD [])).1.take 647)
      unfold headText at hlong ⊢
      rw [List.length_take] at hlen
      rw [List.take_of_length_le (by omega), (trimEnd_collapse _).1]
    have hends : ∀ h : Bytes, endsWord (joint h) = true ∨ 646 ≤ h.length := by
      intro h
      unfold joint
      split_ifs with hc
      · left
        simp [endsWord, ascii]
      · by_cases hnil : h = []
        · rw [hnil]
          exact Or.inl rfl
        · right
          have := not_and.mp hc hnil
          omega
    have hputs : scratch title message = trimEnd ((draft title message).take 647) := by
      have hjoint : (joint (headText title)).length < 648 := by
        unfold joint
        split_ifs with hc
        · simpa [ascii] using hc.2
        · omega
      unfold scratch
      rw [putText_eq _ _ hjoint, (hends _).resolve_right hlong]
      congr 1
      have hhead : (if normal ((title.map CString.bytes).getD []) = [] then []
          else normal ((title.map CString.bytes).getD []) ++ ascii ": ") =
            joint (headText title) := by
        unfold joint
        rw [hshort] at hlong ⊢
        by_cases hnil : normal ((title.map CString.bytes).getD []) = []
        · rw [if_pos hnil, if_neg fun h => h.1 hnil, hnil]
        · rw [if_neg hnil, if_pos ⟨hnil, by omega⟩]
      unfold draft
      dsimp only
      have hall : (joint (headText title)).take 647 = joint (headText title) :=
        List.take_of_length_le (by omega)
      rw [hhead, List.take_append, hall]
    rw [hputs, cut_take (draft_single title message).1, trimEnd_draft hm]

/-! ## The cut -/

/-- The whole text is made of whole characters. -/
theorem whole_valid {title : Option CString} {message : CString}
    (ht : ∀ t, title = some t → Valid t.bytes) (hm : Valid message.bytes) :
    Valid (whole title message) := by
  have hhead : Valid (normal ((title.map CString.bytes).getD [])) := by
    cases title with
    | none => exact Utf8.valid_nil
    | some t => exact normal_valid (ht t rfl)
  have hcolon : Valid (ascii ": ") := ⟨[Char.ofNat 58, Char.ofNat 32], rfl⟩
  have hbody := normal_valid hm
  unfold whole
  dsimp only
  split_ifs
  · exact Utf8.valid_nil
  · exact hbody
  · exact (hhead.append hcolon).append hbody

/-- The whole text is tidy. -/
theorem whole_tidy (title : Option CString) (message : CString) :
    Tidy (whole title message) := by
  by_cases hm : normal message.bytes = []
  · have hnil : whole title message = [] := if_pos hm
    rw [hnil]
    exact ⟨by simp, by simp, by simp, List.IsChain.nil⟩
  · obtain ⟨hsingle, hfirst, hprint⟩ := draft_single title message
    have hstarts := trimEnd_starts (draft title message)
    have hlast := trimEnd_last (draft title message)
    rw [trimEnd_draft hm] at hstarts hlast
    refine ⟨fun x hx => hprint x (hstarts.subset hx), ?_, hlast, hsingle.starts hstarts⟩
    intro h
    have hne : whole title message ≠ [] := by
      intro hnil
      rw [hnil] at h
      cases h
    obtain ⟨rest, hrest⟩ := hstarts
    rw [← hrest, List.head?_append_of_ne_nil _ hne] at hfirst
    exact hfirst h

/-- The text up to a character, without a space at the end of it. -/
theorem shorten_spec {buf : Bytes} (hvalid : Valid buf) (htidy : Tidy buf) {max : ℕ}
    (hmax : 4 ≤ max) :
    ∃ p, shorten max buf = p ++ ascii "..." ∧ p <+: buf ∧ Valid p ∧
      (shorten max buf).length ≤ max ∧ Tidy (shorten max buf) ∧ Valid (shorten max buf) := by
  obtain ⟨hle, hstart⟩ := charStart_spec buf (max - 3)
  have hstarts : trimEnd (buf.take (charStart buf (max - 3))) <+: buf :=
    (trimEnd_starts _).trans (List.take_prefix _ _)
  have hlast := trimEnd_last (buf.take (charStart buf (max - 3)))
  have hp : Valid (trimEnd (buf.take (charStart buf (max - 3)))) := (hvalid.take hstart).trimEnd
  have hlen : (trimEnd (buf.take (charStart buf (max - 3)))).length ≤ max - 3 := by
    have hshort := (trimEnd_starts (buf.take (charStart buf (max - 3)))).length_le
    rw [List.length_take] at hshort
    omega
  have hdots : Valid (ascii "...") := ⟨[Char.ofNat 46, Char.ofNat 46, Char.ofNat 46], rfl⟩
  have hthree : ascii "..." = [46, 46, 46] := rfl
  unfold shorten
  generalize trimEnd (buf.take (charStart buf (max - 3))) = p at *
  refine ⟨p, rfl, hstarts, hp, ?_, ?_, hp.append hdots⟩
  · rw [List.length_append, hthree]
    simp only [List.length_cons, List.length_nil]
    omega
  · rw [hthree]
    refine ⟨?_, ?_, by simp, ?_⟩
    · intro x hx
      rcases List.mem_append.mp hx with hx | hx
      · exact htidy.printed x (hstarts.subset hx)
      · have hdot : x = 46 := by simpa using hx
        rw [hdot]
        decide
    · intro h
      cases p with
      | nil => simp at h
      | cons b x =>
        obtain ⟨rest, hrest⟩ := hstarts
        refine htidy.first ?_
        rw [← hrest]
        exact h
    · refine List.isChain_append.mpr ⟨htidy.single.starts hstarts, by decide, ?_⟩
      intro x hx y _ hboth
      exact hlast (hboth.1 ▸ hx)

/-- A tidy text holds no NUL. -/
theorem Tidy.ofBytes {b : Bytes} (h : Tidy b) : (CString.ofBytes b).bytes = b := by
  refine CString.bytes_ofBytes ?_
  intro hzero
  have hprint := h.printed 0 hzero
  exact absurd hprint (by decide)

/-- What `tb_message` writes for a valid title and message is valid, tidy and not too
long: the whole text if there is room, else the text up to the end of a character and three
dots. -/
theorem tbMessageIn_cuts (cap : ℕ) (hcap : 5 ≤ cap) (title : Option CString)
    (message : CString) (ht : ∀ t, title = some t → Valid t.bytes)
    (hm : Valid message.bytes) :
    ∃ out, tbMessageIn cap title message = some out ∧ Valid out.bytes ∧ Tidy out.bytes ∧
      out.length ≤ min (cap - 1) tbMsgMax ∧
      ((whole title message).length ≤ min (cap - 1) tbMsgMax →
        out.bytes = whole title message) ∧
      (min (cap - 1) tbMsgMax < (whole title message).length →
        ∃ p, p <+: whole title message ∧ Valid p ∧ out.bytes = p ++ ascii "...") := by
  have hvalid := whole_valid ht hm
  have htidy := whole_tidy title message
  have hmax : min (cap - 1) tbMsgMax ≤ 320 := min_le_right _ _
  have hfour : 4 ≤ min (cap - 1) tbMsgMax := le_min (by omega) (by decide)
  have hroom : min (cap - 1) tbMsgMax ≤ cap - 1 := min_le_left _ _
  rw [tbMessageIn_eq hcap]
  generalize min (cap - 1) tbMsgMax = max at *
  by_cases hblank : normal message.bytes = []
  · have hnil : whole title message = [] := if_pos hblank
    rw [if_pos hblank]
    refine ⟨_, rfl, Utf8.valid_nil, ⟨by simp, by simp, by simp, List.IsChain.nil⟩, by simp,
      fun _ => hnil.symm, ?_⟩
    intro h
    rw [hnil] at h
    simp at h
  · rw [if_neg hblank]
    have htake := scratch_take hblank title
    generalize scratch title message = buf at htake
    generalize whole title message = text at *
    have hlens : min 321 buf.length = min 321 text.length := by
      have hlen := congrArg List.length htake
      rwa [List.length_take, List.length_take] at hlen
    by_cases hlong : max < buf.length
    · have hshort : shorten max buf = shorten max text := by
        have hstart := charStart_congr htake (show max - 3 < 321 by omega)
        have hcut : buf.take (charStart text (max - 3)) = text.take (charStart text (max - 3)) := by
          have hle := (charStart_spec text (max - 3)).1
          have hboth := congrArg (List.take (charStart text (max - 3))) htake
          rwa [List.take_take, List.take_take, min_eq_left (by omega)] at hboth
        unfold shorten
        rw [hstart, hcut]
      obtain ⟨p, hp, hstarts, hpvalid, hlen, htidy', hvalid'⟩ := shorten_spec hvalid htidy hfour
      have hbytes : ((CString.ofBytes (shorten max text)).take (cap - 1)).bytes =
          shorten max text := by
        rw [CString.bytes_take, htidy'.ofBytes, List.take_of_length_le (by omega)]
      rw [if_pos hlong, hshort]
      refine ⟨_, rfl, ?_⟩
      unfold CString.length
      rw [hbytes]
      exact ⟨hvalid', htidy', hlen, fun h => by omega, fun _ => ⟨p, hstarts, hpvalid, hp⟩⟩
    · have hsame : buf = text := by
        rwa [List.take_of_length_le (by omega), List.take_of_length_le (by omega)] at htake
      have hbytes : ((CString.ofBytes text).take (cap - 1)).bytes = text := by
        rw [CString.bytes_take, htidy.ofBytes, List.take_of_length_le (by omega)]
      rw [if_neg hlong, hsame]
      refine ⟨_, rfl, ?_⟩
      unfold CString.length
      rw [hbytes]
      exact ⟨hvalid, htidy, by omega, fun _ => rfl, fun h => by omega⟩

/-- A cut that falls into a character is made in front of it. -/
theorem tbMessageIn_cuts_umlauts :
    ∃ out, tbMessageIn 8 none (CString.ofBytes [97, 195, 164, 195, 164, 195, 164, 195, 164]) =
        some out ∧ Valid out.bytes ∧ out.bytes = [97, 195, 164, 46, 46, 46] := by
  have hmessage : Valid
      (CString.ofBytes [97, 195, 164, 195, 164, 195, 164, 195, 164]).bytes :=
    ⟨[Char.ofNat 97, Char.ofNat 228, Char.ofNat 228, Char.ofNat 228, Char.ofNat 228],
      by decide +kernel⟩
  obtain ⟨out, hout, hvalid, -⟩ := tbMessageIn_cuts 8 (by norm_num) none _
    (fun t ht => by cases ht) hmessage
  have heval : tbMessageIn 8 none
      (CString.ofBytes [97, 195, 164, 195, 164, 195, 164, 195, 164]) =
      some (CString.ofBytes [97, 195, 164, 46, 46, 46]) := by decide +kernel
  refine ⟨out, hout, hvalid, ?_⟩
  rw [← Option.some.inj (heval.symm.trans hout)]
  rfl

end MoonFlare.Textbelt
