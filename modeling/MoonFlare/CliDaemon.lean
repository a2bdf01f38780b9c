import MoonFlare.CliHttpReplies
import MoonFlare.HttpOneShot

/-!
# The command line's client and the daemon

A request of the client is one that the daemon's parser takes as it is meant, and
the head of a reply is read back with its status. So what the client reports is
what the daemon answered to this request, or an error: however the two sides'
bytes are cut into pieces, and wherever the connection breaks, only a part of the
body can be missing.
-/

namespace MoonFlare.Cli

open Http Pico Incremental Runs

/-! ## The request -/

/-- A host as it can stand in a header. -/
structure IsHost (host : CString) : Prop where
  value : IsValue host.bytes
  plain : StartsPlain host.bytes

/-- The text of a request for a path. -/
def getText (path host : CString) : Bytes :=
  ascii "GET " ++ path.bytes ++ ascii " HTTP/1.1\r\nHost: " ++ host.bytes ++
    ascii "\r\nConnection: close\r\n\r\n"

/-- What it stands for. -/
def getParsed (path host : CString) : PhrRequest :=
  ⟨ascii "GET", path.bytes, 1,
    [⟨some (ascii "Host"), host.bytes⟩, ⟨some (ascii "Connection"), ascii "close"⟩]⟩

variable {path host : CString}

theorem requestText_get (hlen : (getText path host).length < 1024) :
    requestText (CString.lit "GET") path host CString.empty = getText path host := by
  have htext : requestText (CString.lit "GET") path host CString.empty =
      (getText path host).take 1023 := by
    have hget : (CString.lit "GET").bytes = ascii "GET" := by decide
    simp [requestText, getText, hget, ascii]
  rw [htext, List.take_of_length_le (by omega)]

theorem isToken_ascii {word : String} (hne : ascii word ≠ [])
    (h : (ascii word).all isTokenChar = true) : IsToken (ascii word) :=
  ⟨hne, List.all_eq_true.mp h⟩

theorem getText_grammar (hpath : IsPath path.bytes) (hhost : IsHost host) :
    RequestHead httpMaxHeaders (getText path host) (getParsed path host) := by
  have hblank : AllBlank [32] := by simp [AllBlank, isBlank]
  have hnone : AllBlank [] := by simp [AllBlank]
  have hhostLine : HeaderLine true (ascii "Host" ++ 58 :: ([32] ++ (host.bytes ++ [] ++ [13, 10])))
      ⟨some (ascii "Host"), host.bytes⟩ :=
    .field (isToken_ascii (by decide) (by decide)) hblank hhost.value
      (by rw [List.append_nil]; exact hhost.plain) hnone .crlf
  have hclose : IsValue (ascii "close") ∧ StartsPlain (ascii "close" ++ []) := by
    have hplain : (ascii "close").all (fun c => !isControl c) = true := by decide
    refine ⟨⟨fun c hc => ?_, by decide⟩, ?_⟩
    · simpa using List.all_eq_true.mp hplain c hc
    intro c cs h
    obtain ⟨rfl, -⟩ := List.cons.inj (show (99 : UInt8) :: ascii "lose" ++ [] = c :: cs from h)
    decide
  have hcloseLine : HeaderLine false
      (ascii "Connection" ++ 58 :: ([32] ++ (ascii "close" ++ [] ++ [13, 10])))
      ⟨some (ascii "Connection"), ascii "close"⟩ :=
    .field (isToken_ascii (by decide) (by decide)) hblank hclose.1 hclose.2 hnone .crlf
  have hlines : HeaderLines true httpMaxHeaders _ _ :=
    .cons hhostLine (.cons hcloseLine (.empty .crlf))
  have hhead := @RequestHead.head httpMaxHeaders [] (ascii "GET") [] path.bytes [] [13, 10] _ 49 _
    (Or.inl rfl) (isToken_ascii (by decide) (by decide)) (by simp) hpath (by simp) (by decide) .crlf
    hlines
  have htext : getText path host = [] ++ (ascii "GET" ++ 32 :: ([] ++ (path.bytes ++ 32 :: ([] ++
      (ascii "HTTP/1." ++ 49 :: ([13, 10] ++
        (ascii "Host" ++ 58 :: ([32] ++ (host.bytes ++ [] ++ [13, 10])) ++
          (ascii "Connection" ++ 58 :: ([32] ++ (ascii "close" ++ [] ++ [13, 10])) ++
            [13, 10])))))))) := by
    simp [getText, ascii]
  rw [htext]
  exact hhead

theorem getParsed_fields (path host : CString) :
    headerLoop (headerStart (getParsed path host)) (getParsed path host).headers =
      (⟨0, true, CString.empty⟩, none) := by
  have hhost : ∀ f : HeaderFields, headerStep f ⟨some (ascii "Host"), host.bytes⟩ = (f, none) := by
    intro f
    have h₁ : hdrNameEq ⟨some (ascii "Host"), host.bytes⟩ "transfer-encoding" = false := by
      change ((ascii "Host").map CString.tolower == ascii "transfer-encoding") = false
      decide
    have h₂ : hdrNameEq ⟨some (ascii "Host"), host.bytes⟩ "content-length" = false := by
      change ((ascii "Host").map CString.tolower == ascii "content-length") = false
      decide
    have h₃ : hdrNameEq ⟨some (ascii "Host"), host.bytes⟩ "connection" = false := by
      change ((ascii "Host").map CString.tolower == ascii "connection") = false
      decide
    have h₄ : hdrNameEq ⟨some (ascii "Host"), host.bytes⟩ "if-match" = false := by
      change ((ascii "Host").map CString.tolower == ascii "if-match") = false
      decide
    simp only [headerStep, h₁, h₂, h₃, h₄, Bool.false_eq_true, if_false]
  have hclose : ∀ f : HeaderFields, headerStep f ⟨some (ascii "Connection"), ascii "close"⟩ =
      ({ f with reqClose := true }, none) := by
    intro f
    have h₁ : hdrNameEq ⟨some (ascii "Connection"), ascii "close"⟩ "transfer-encoding" = false := by
      decide
    have h₂ : hdrNameEq ⟨some (ascii "Connection"), ascii "close"⟩ "content-length" = false := by
      decide
    have h₃ : hdrNameEq ⟨some (ascii "Connection"), ascii "close"⟩ "connection" = true := by decide
    have h₄ : hdrHasToken ⟨some (ascii "Connection"), ascii "close"⟩ "close" = true := by decide
    simp only [headerStep, h₁, h₂, h₃, h₄, Bool.false_eq_true, if_false, if_true]
  simp only [getParsed, headerStart, headerLoop, hhost, hclose]

/-- The request as the daemon takes it. -/
def getRequest (path host : CString) (hpath : IsPath path.bytes) (hhost : IsHost host)
    (hlen : (getText path host).length < 1024) : CloseRequest where
  head := getText path host
  parsed := getParsed path host
  fields := ⟨0, true, CString.empty⟩
  grammar := getText_grammar hpath hhost
  fits := hlen.le.trans (by decide)
  accepted := getParsed_fields path host
  bodyless := rfl
  closes := rfl

/-! ## The head of a reply -/

/-- A line of a head: it is not empty and has neither a CR nor a zero in it. -/
def IsLine (l : Bytes) : Prop := l ≠ [] ∧ ∀ c ∈ l, c ≠ 13 ∧ c ≠ 0

/-- The text of a head with these lines. -/
def headText (ls : List Bytes) : Bytes := ls.flatMap (· ++ [13, 10]) ++ [13, 10]

theorem headText_cons (l : Bytes) (ls : List Bytes) :
    headText (l :: ls) = l ++ 13 :: 10 :: headText ls := by
  simp [headText]

/-- Bytes that are no CR are not where a head ends. -/
theorem headEnd_skip {l t : Bytes} {j : ℕ} (hl : ∀ c ∈ l, c ≠ 13)
    (h : headEnd.bytes <+: (l ++ t).drop j) : l.length ≤ j := by
  by_contra hlt
  rw [not_le] at hlt
  rw [List.drop_append_of_le_length hlt.le, List.drop_eq_getElem_cons hlt, headEnd_bytes,
    List.cons_append] at h
  exact hl _ (List.getElem_mem hlt) (List.cons_prefix_cons.mp h).1.symm

/-- In a head nothing that ends it stands in front of its end. -/
theorem headEnd_last {ls : List Bytes} (hls : ∀ l ∈ ls, IsLine l) {t : Bytes} {j : ℕ}
    (h : headEnd.bytes <+: (headText ls ++ t).drop j) : (headText ls).length ≤ j + 4 := by
  induction ls generalizing j with
  | nil => exact le_add_left (by decide)
  | cons l ls ih =>
    have hl : ∀ c ∈ l, c ≠ 13 := fun c hc => ((hls l List.mem_cons_self).2 c hc).1
    rw [headText_cons] at h ⊢
    rw [List.append_assoc] at h
    have hskip := headEnd_skip hl h
    obtain ⟨k, rfl⟩ := Nat.exists_eq_add_of_le hskip
    rw [List.drop_append, List.drop_of_length_le hskip, Nat.add_sub_cancel_left,
      List.nil_append] at h
    cases ls with
    | nil =>
      simp only [headText, List.flatMap_nil, List.nil_append, List.length_append, List.length_cons,
        List.length_nil]
      omega
    | cons l' ls =>
      obtain ⟨c, cs, rfl⟩ := List.exists_cons_of_ne_nil (hls l' (by simp)).1
      have hc : c ≠ 13 := ((hls (c :: cs) (by simp)).2 c List.mem_cons_self).1
      rw [headText_cons] at h
      -- the line end in the middle is followed by a byte of the next line
      rcases k with _ | _ | k
      · rw [headEnd_bytes] at h
        exact absurd (List.cons_prefix_cons.mp (List.cons_prefix_cons.mp
          (List.cons_prefix_cons.mp h).2).2).1.symm hc
      · rw [headEnd_bytes] at h
        exact absurd (List.cons_prefix_cons.mp h).1 (by decide)
      · rw [← headText_cons] at h
        have hrest := ih (fun l hl => hls l (List.mem_cons_of_mem _ hl)) h
        simp only [List.length_append, List.length_cons] at hrest ⊢
        omega

theorem headText_noNul {ls : List Bytes} (hls : ∀ l ∈ ls, IsLine l) :
    ∀ c ∈ headText ls, c ≠ 0 := by
  intro c hc
  rcases List.mem_append.mp hc with hc | hc
  · obtain ⟨l, hl, hc⟩ := List.mem_flatMap.mp hc
    rcases List.mem_append.mp hc with hc | hc
    · exact ((hls l hl).2 c hc).2
    · rcases List.mem_pair.mp hc with rfl | rfl <;> decide
  · rcases List.mem_pair.mp hc with rfl | rfl <;> decide

/-- A head ends with its last four bytes. -/
theorem headAt_headText {ls : List Bytes} (hls : ∀ l ∈ ls, IsLine l) (hne : ls ≠ []) :
    HeadAt (headText ls) ((headText ls).length - 4) := by
  have hread : (CString.ofBytes (headText ls)).bytes = headText ls :=
    List.takeWhile_eq_self_iff.mpr fun c hc => by simpa using headText_noNul hls c hc
  have hend : headEnd.bytes <:+ headText ls := by
    obtain ⟨init, l, rfl⟩ := (List.eq_nil_or_concat' ls).resolve_left hne
    refine ⟨init.flatMap (· ++ [13, 10]) ++ l, ?_⟩
    simp [headText, headEnd_bytes]
  refine ⟨?_, fun j hj hat => ?_⟩
  · have hdrop := List.suffix_iff_eq_drop.mp hend
    rw [show headEnd.bytes.length = 4 by decide] at hdrop
    rw [hread, ← hdrop]
  · rw [hread] at hat
    have hlast := headEnd_last hls (by rwa [List.append_nil])
    omega

/-! ## The status -/

theorem decimal_eq (n : ℕ) :
    decimal n = (Decimal.digits (Decimal.width n) n).map Decimal.digitByte := by
  simp [decimal, Decimal.text, Decimal.ofNat, Decimal.fracText, Decimal.expText]

/-- A number is written with digits. -/
theorem decimal_plain {n : ℕ} {c b : UInt8} (hc : c ∈ decimal n) (hb : Decimal.digitOf b = none) :
    c ≠ b := by
  rw [decimal_eq] at hc
  obtain ⟨d, -, rfl⟩ := List.mem_map.mp hc
  exact Decimal.digitByte_ne d hb

theorem decimal_length_le {n : ℕ} (hn : n < 2 ^ 31) : (decimal n).length ≤ 10 := by
  have hlog : Nat.log 10 n < 10 := Nat.log_lt_of_lt_pow' (by decide) (hn.trans (by decide))
  rw [decimal_eq, List.length_map, Decimal.length_digits]
  exact hlog

/-- A number that is written is read back, whatever stands behind it. -/
theorem atoi_decimal {n : ℕ} (hn : n < 2 ^ 31) {rest : Bytes}
    (hrest : ∀ b ∈ rest.head?, Decimal.digitOf b = none) : atoi (decimal n ++ rest) = n := by
  have hspace : ∀ d : Fin 10, Double.isSpace (Decimal.digitByte d) = false := by decide
  have hsign : ∀ (d : Fin 10) (r : Bytes), Decimal.scanSign (Decimal.digitByte d :: r) =
      (false, Decimal.digitByte d :: r) := by
    intro d r
    fin_cases d <;> rfl
  have hread := Decimal.spanDigits_map hrest (Decimal.digits (Decimal.width n) n)
  have hvalue : Decimal.ofDigits (Decimal.digits (Decimal.width n) n) = n :=
    Decimal.ofDigits_digits (Nat.lt_pow_succ_log_self (by norm_num) n)
  have hscan : Decimal.scanSign ((decimal n ++ rest).dropWhile Double.isSpace) =
      (false, decimal n ++ rest) := by
    have hdigits : Decimal.digits (Decimal.width n) n =
        ⟨n / 10 ^ Nat.log 10 n % 10, Nat.mod_lt _ (by norm_num)⟩ ::
          Decimal.digits (Nat.log 10 n) n := rfl
    rw [decimal_eq, hdigits, List.map_cons, List.cons_append,
      List.dropWhile_cons_of_neg (by rw [hspace]; decide), hsign]
  rw [← decimal_eq] at hread
  simp only [atoi, hscan, hread, hvalue, Bool.false_eq_true, if_false]
  rw [min_eq_right (by omega), max_eq_right (by omega)]
  exact Int.bmod_eq_of_le (by omega) (by omega)

theorem take_line (w d z : Bytes) (k : ℕ) :
    (w ++ 32 :: (d ++ 32 :: z)).take (w.length + (1 + (d.length + (1 + k)))) =
      w ++ 32 :: (d ++ 32 :: z.take k) := by
  rw [List.take_length_add_append, Nat.add_comm 1, List.take_succ_cons,
    List.take_length_add_append, Nat.add_comm 1, List.take_succ_cons]

/-- The status stands between the first two blanks of a head. -/
theorem statusOf_line {w rest : Bytes} {n : ℕ} (hw : ∀ c ∈ w, c ≠ 32 ∧ c ≠ 0)
    (hlen : w.length ≤ 200) (hn : n < 2 ^ 31) :
    statusOf (w ++ 32 :: (decimal n ++ 32 :: rest)) = n := by
  have hdec := decimal_length_le hn
  obtain ⟨k, hk⟩ : ∃ k, 255 = w.length + (1 + ((decimal n).length + (1 + k))) :=
    ⟨255 - w.length - 1 - (decimal n).length - 1, by omega⟩
  have htake : (w ++ 32 :: (decimal n ++ 32 :: rest)).take 255 =
      w ++ 32 :: (decimal n ++ 32 :: rest.take k) := by
    rw [hk, take_line]
  have hline : (CString.ofBytes (w ++ 32 :: (decimal n ++ 32 :: rest.take k))).bytes =
      w ++ 32 :: (decimal n ++ 32 :: (rest.take k).takeWhile (· ≠ 0)) := by
    change List.takeWhile _ _ = _
    rw [List.takeWhile_append_of_pos (by simpa using fun c hc => (hw c hc).2),
      List.takeWhile_cons_of_pos (by decide), List.takeWhile_append_of_pos,
      List.takeWhile_cons_of_pos (by decide)]
    intro c hc
    simpa using decimal_plain hc (by decide)
  have hword : (w ++ 32 :: (decimal n ++ 32 :: (rest.take k).takeWhile (· ≠ 0))).takeWhile
      (· ≠ 32) = w := by
    rw [List.takeWhile_append_of_pos (by simpa using fun c hc => (hw c hc).1),
      List.takeWhile_cons_of_neg (by decide), List.append_nil]
  have hmem : (32 : UInt8) ∈ w ++ 32 :: (decimal n ++ 32 :: (rest.take k).takeWhile (· ≠ 0)) := by
    simp
  rw [statusOf, htake]
  simp only [CString.splitAt, hline, if_pos hmem, hword, CString.bytes_drop]
  rw [← List.drop_drop, List.drop_left]
  exact atoi_decimal hn (by simp [Decimal.digitOf])

/-! ## The daemon's reply -/

/-- The lines of a reply's head. -/
def replyLines (minor status : ℕ) (reason : String) (bodyLen : ℕ) (close : Bool)
    (location etag : CString) : List Bytes :=
  [ascii "HTTP/1." ++ decimal minor ++ ascii " " ++ decimal status ++ ascii " " ++ ascii reason,
    ascii "Content-Type: application/json", ascii "Content-Length: " ++ decimal bodyLen,
    ascii "Connection: " ++ ascii (if close then "close" else "keep-alive")] ++
  (if location.nonempty then [ascii "Location: " ++ location.bytes] else []) ++
  (if etag.nonempty then [ascii "ETag: " ++ etag.bytes] else [])

variable {minor status bodyLen : ℕ} {reason : String} {close : Bool} {location etag : CString}

theorem replyHead_eq : replyHead minor status reason bodyLen close location etag =
    headText (replyLines minor status reason bodyLen close location etag) := by
  have hopt : ∀ (name : String) (v : CString), replyLine name v =
      (if v.nonempty then [ascii name ++ v.bytes] else []).flatMap (· ++ [13, 10]) := by
    intro name v
    rw [replyLine]
    split_ifs <;> simp [ascii]
  simp only [replyHead, hopt, headText, replyLines, List.flatMap_append]
  simp [ascii]

/-- A literal without a CR and a zero. -/
theorem ascii_plain {word : String} (h : (ascii word).all (fun c => c != 13 && c != 0) = true) :
    ∀ c ∈ ascii word, c ≠ 13 ∧ c ≠ 0 := by
  intro c hc
  simpa using List.all_eq_true.mp h c hc

theorem isLine_ascii {word : String} (hne : ascii word ≠ [])
    (h : (ascii word).all (fun c => c != 13 && c != 0) = true) : IsLine (ascii word) :=
  ⟨hne, ascii_plain h⟩

theorem isLine_append {b c : Bytes} (hb : IsLine b) (hc : ∀ x ∈ c, x ≠ 13 ∧ x ≠ 0) :
    IsLine (b ++ c) :=
  ⟨List.append_ne_nil_of_left_ne_nil hb.1 c, List.forall_mem_append.mpr ⟨hb.2, hc⟩⟩

theorem decimal_isPlain (n : ℕ) : ∀ c ∈ decimal n, c ≠ 13 ∧ c ≠ 0 := fun _ hc =>
  ⟨decimal_plain hc (by decide), decimal_plain hc (by decide)⟩

theorem replyLines_isLine (hreason : ∀ c ∈ ascii reason, c ≠ 13 ∧ c ≠ 0)
    (hlocation : ∀ c ∈ location.bytes, c ≠ 13) (hetag : ∀ c ∈ etag.bytes, c ≠ 13) :
    ∀ l ∈ replyLines minor status reason bodyLen close location etag, IsLine l := by
  have hblank : ∀ c ∈ ascii " ", c ≠ 13 ∧ c ≠ 0 := ascii_plain (by decide)
  have hcstring : ∀ {v : CString}, (∀ c ∈ v.bytes, c ≠ 13) → ∀ c ∈ v.bytes, c ≠ 13 ∧ c ≠ 0 :=
    fun {v} hv c hc => ⟨hv c hc, fun h0 => v.noNul (h0 ▸ hc)⟩
  intro l hl
  simp only [replyLines, List.mem_append, List.mem_cons, List.not_mem_nil, or_false] at hl
  obtain ((rfl | rfl | rfl | rfl) | hl) | hl := hl
  · have hname : IsLine (ascii "HTTP/1.") := isLine_ascii (by decide) (by decide)
    exact isLine_append (isLine_append (isLine_append (isLine_append (isLine_append hname
      (decimal_isPlain _)) hblank) (decimal_isPlain _)) hblank) hreason
  · exact isLine_ascii (by decide) (by decide)
  · have hname : IsLine (ascii "Content-Length: ") := isLine_ascii (by decide) (by decide)
    exact isLine_append hname (decimal_isPlain _)
  · have hname : IsLine (ascii "Connection: ") := isLine_ascii (by decide) (by decide)
    refine isLine_append hname ?_
    split_ifs <;> exact ascii_plain (by decide)
  · split_ifs at hl
    · obtain rfl := List.mem_singleton.mp hl
      have hname : IsLine (ascii "Location: ") := isLine_ascii (by decide) (by decide)
      exact isLine_append hname (hcstring hlocation)
    · exact absurd hl List.not_mem_nil
  · split_ifs at hl
    · obtain rfl := List.mem_singleton.mp hl
      have hname : IsLine (ascii "ETag: ") := isLine_ascii (by decide) (by decide)
      exact isLine_append hname (hcstring hetag)
    · exact absurd hl List.not_mem_nil

theorem statusOf_replyHead (hminor : minor < 10) (hstatus : status < 2 ^ 31)
    {p : ℕ} (hp : p + 4 = (replyHead minor status reason bodyLen close location etag).length) :
    statusOf ((replyHead minor status reason bodyLen close location etag).take p) = status := by
  obtain ⟨rest, htext, hrest⟩ : ∃ rest,
      replyHead minor status reason bodyLen close location etag =
        (ascii "HTTP/1." ++ decimal minor) ++ 32 :: (decimal status ++ 32 :: rest) ∧
          4 ≤ rest.length := by
    refine ⟨ascii reason ++ ascii "\r\nContent-Type: application/json\r\nContent-Length: " ++
      decimal bodyLen ++ ascii "\r\nConnection: " ++
        ascii (if close then "close" else "keep-alive") ++ ascii "\r\n" ++
          replyLine "Location: " location ++ replyLine "ETag: " etag ++ ascii "\r\n",
      by simp [replyHead, ascii], ?_⟩
    simp only [List.length_append, show (ascii "\r\n").length = 2 by decide]
    omega
  have hlen : p = (ascii "HTTP/1." ++ decimal minor).length +
      (1 + ((decimal status).length + (1 + (rest.length - 4)))) := by
    have htotal := hp.trans (congrArg List.length htext)
    simp only [List.length_append, List.length_cons] at htotal ⊢
    omega
  have hdigit := decimal_length_le (show minor < 2 ^ 31 by omega)
  rw [htext, hlen, take_line]
  refine statusOf_line (List.forall_mem_append.mpr ⟨?_, fun c hc => ?_⟩) ?_ hstatus
  · intro c hc
    have hword : (ascii "HTTP/1.").all (fun c => c != 32 && c != 0) = true := by decide
    simpa using List.all_eq_true.mp hword c hc
  · exact ⟨decimal_plain hc (by decide), decimal_plain hc (by decide)⟩
  · rw [List.length_append, show (ascii "HTTP/1.").length = 7 by decide]
    omega

variable {σ : Type*} {srv : Server σ} {s₀ : σ} {req : RestRequest}

/-- The reasons the daemon gives are plain words. -/
theorem answer_reason (srv : Server σ) (s : σ) (req : RestRequest) :
    ∀ c ∈ ascii (answer srv s req).2.1, c ≠ 13 ∧ c ≠ 0 := by
  have hreason : ∀ n, ∀ c ∈ ascii (httpReason n), c ≠ 13 ∧ c ≠ 0 := by
    intro n
    unfold httpReason
    split <;> exact ascii_plain (by decide)
  have hmethod : ∀ c ∈ ascii "Method Not Allowed", c ≠ 13 ∧ c ≠ 0 := ascii_plain (by decide)
  have hok : ∀ c ∈ ascii "OK", c ≠ 13 ∧ c ≠ 0 := ascii_plain (by decide)
  have hfound : ∀ c ∈ ascii "Not Found", c ≠ 13 ∧ c ≠ 0 := ascii_plain (by decide)
  unfold answer
  split_ifs
  · exact hmethod
  · exact hok
  · split
    · exact hreason _
    · exact hfound

/-- An answer in the fields of `mf_rest_response_t`, with no CR in those that go into the head. -/
structure Fits (resp : RestResponse) : Prop where
  location : resp.location.length < 128
  etag : resp.etag.length < 32
  status : resp.status < 2 ^ 31
  locationLine : ∀ c ∈ resp.location.bytes, c ≠ 13
  etagLine : ∀ c ∈ resp.etag.bytes, c ≠ 13

theorem replyLine_length_le (name : String) (v : CString) :
    (replyLine name v).length ≤ (ascii name).length + v.length + 2 := by
  rw [replyLine]
  split_ifs
  · simp only [List.length_append, show (ascii "\r\n").length = 2 by decide, CString.length]
    omega
  · exact Nat.zero_le _

theorem answer_reason_length (srv : Server σ) (s : σ) (req : RestRequest) :
    (ascii (answer srv s req).2.1).length ≤ 18 := by
  have hreason : ∀ n, (ascii (httpReason n)).length ≤ 18 := by
    intro n
    unfold httpReason
    split <;> decide
  have hmethod : (ascii "Method Not Allowed").length ≤ 18 := by decide
  have hok : (ascii "OK").length ≤ 18 := by decide
  have hfound : (ascii "Not Found").length ≤ 18 := by decide
  unfold answer
  split_ifs
  · exact hmethod
  · exact hok
  · split
    · exact hreason _
    · exact hfound

/-- The head of a reply fits the client's buffer. -/
theorem replyHead_fits {resp : RestResponse} (h : Fits resp) (hminor : minor < 10)
    (hreason : (ascii reason).length ≤ 18) (hbody : resp.body.length < 2 ^ 31) :
    (replyHead minor resp.status reason resp.body.length close resp.location resp.etag).length ≤
      bufRoom := by
  have hm := decimal_length_le (show minor < 2 ^ 31 by omega)
  have hs := decimal_length_le h.status
  have hb := decimal_length_le hbody
  have hloc := replyLine_length_le "Location: " resp.location
  have hetag := replyLine_length_le "ETag: " resp.etag
  have hclose : (ascii (if close then "close" else "keep-alive")).length ≤ 10 := by
    split_ifs <;> decide
  have hl := h.location
  have he := h.etag
  rw [show (ascii "Location: ").length = 10 by decide] at hloc
  rw [show (ascii "ETag: ").length = 6 by decide] at hetag
  have htype : (ascii "\r\nContent-Type: application/json\r\nContent-Length: ").length = 50 := by
    decide
  have hconn : (ascii "\r\nConnection: ").length = 14 := by decide
  have hversion : (ascii "HTTP/1.").length = 7 := by decide
  have hblank : (ascii " ").length = 1 := by decide
  have heol : (ascii "\r\n").length = 2 := by decide
  simp only [replyHead, List.length_append, htype, hconn, hversion, hblank, heol, bufRoom]
  omega

/-- What the client makes of a beginning of a reply. -/
theorem responseOf_beginning {head body got : Bytes} {resp : CliHttpResp}
    (hat : HeadAt head (head.length - 4)) (hroom : head.length ≤ bufRoom)
    (hpre : got <+: head ++ body) (h : responseOf got = .ok resp) :
    resp.status = statusOf (head.take (head.length - 4)) ∧ resp.body <+: body := by
  have hend : head.length - 4 + 4 = head.length := by
    have hle := hat.length_le
    omega
  obtain ⟨p, hp⟩ : ∃ p, findHead (got.take bufRoom) = some p := by
    rw [responseOf] at h
    split at h
    · exact absurd h (by simp)
    · next p hp => exact ⟨p, hp⟩
  have hfound := findHead_eq_some.mp hp
  have hplace : p = head.length - 4 :=
    (hfound.extend ((List.take_prefix _ _).trans hpre)).unique (hat.extend (List.prefix_append _ _))
  have hlong : head.length ≤ got.length := by
    have hle := hfound.length_le
    rw [List.length_take] at hle
    omega
  obtain ⟨t, rfl⟩ := List.prefix_of_prefix_length_le (List.prefix_append head body) hpre hlong
  rw [responseOf_of_head hat hroom (List.prefix_append _ _), hend, List.drop_left] at h
  split_ifs at h
  obtain rfl := Except.ok.inj h
  exact ⟨rfl, (List.prefix_append_right_inj head).mp hpre⟩

variable {r : CloseRequest}

/-- The head of the reply to a request. -/
def replyHeadOf (srv : Server σ) (s₀ : σ) (r : CloseRequest) : Bytes :=
  replyHead r.parsed.minor (answer srv s₀ r.request).1.status (answer srv s₀ r.request).2.1
    (answer srv s₀ r.request).1.body.length true (answer srv s₀ r.request).1.location
    (answer srv s₀ r.request).1.etag

theorem reply_eq (srv : Server σ) (s₀ : σ) (r : CloseRequest) : r.reply srv s₀ =
    if outCap ≤ (replyHeadOf srv s₀ r).length + (answer srv s₀ r.request).1.body.length then []
    else replyHeadOf srv s₀ r ++ (answer srv s₀ r.request).1.body.bytes := rfl

/-- The head of a reply that was sent is read back with its status. -/
theorem replyHeadOf_read (hminor : r.parsed.minor < 10)
    (hfits : Fits (answer srv s₀ r.request).1)
    (hbody : (answer srv s₀ r.request).1.body.length < outCap) :
    HeadAt (replyHeadOf srv s₀ r) ((replyHeadOf srv s₀ r).length - 4) ∧
      (replyHeadOf srv s₀ r).length ≤ bufRoom ∧
      statusOf ((replyHeadOf srv s₀ r).take ((replyHeadOf srv s₀ r).length - 4)) =
        (answer srv s₀ r.request).1.status := by
  have hat : HeadAt (replyHeadOf srv s₀ r) ((replyHeadOf srv s₀ r).length - 4) := by
    rw [replyHeadOf, replyHead_eq]
    exact headAt_headText
      (replyLines_isLine (answer_reason _ _ _) hfits.locationLine hfits.etagLine)
      (by simp [replyLines])
  refine ⟨hat, replyHead_fits hfits hminor (answer_reason_length _ _ _) (hbody.trans (by decide)),
    statusOf_replyHead hminor hfits.status (Nat.sub_add_cancel ?_)⟩
  exact (Nat.le_add_left 4 _).trans hat.length_le

theorem responseOf_reply {got : Bytes} {resp : CliHttpResp} (hminor : r.parsed.minor < 10)
    (hfits : Fits (answer srv s₀ r.request).1) (hpre : got <+: r.reply srv s₀)
    (h : responseOf got = .ok resp) :
    resp.status = (answer srv s₀ r.request).1.status ∧
      resp.body <+: (answer srv s₀ r.request).1.body.bytes := by
  rw [reply_eq] at hpre
  split_ifs at hpre with hlarge
  · rw [List.prefix_nil.mp hpre] at h
    exact absurd h (by simp [responseOf, findHead])
  · obtain ⟨hat, hroom, hstatus⟩ := replyHeadOf_read hminor hfits (by omega)
    rw [← hstatus]
    exact responseOf_beginning hat hroom hpre h

theorem responseOf_whole (hminor : r.parsed.minor < 10)
    (hfits : Fits (answer srv s₀ r.request).1) (hsent : r.reply srv s₀ ≠ []) :
    responseOf (r.reply srv s₀) =
      .ok ⟨(answer srv s₀ r.request).1.status, (answer srv s₀ r.request).1.body.bytes⟩ := by
  rw [reply_eq] at hsent ⊢
  split_ifs at hsent ⊢ with hlarge
  · exact absurd rfl hsent
  · have hcap : outCap < maxBody := by decide
    have hbody : (answer srv s₀ r.request).1.body.length < outCap := by omega
    obtain ⟨hat, hroom, hstatus⟩ := replyHeadOf_read hminor hfits hbody
    have hend : (replyHeadOf srv s₀ r).length - 4 + 4 = (replyHeadOf srv s₀ r).length := by
      have hle := hat.length_le
      omega
    have hsmall : ¬maxBody ≤ (answer srv s₀ r.request).1.body.bytes.length := by
      change ¬maxBody ≤ (answer srv s₀ r.request).1.body.length
      omega
    rw [responseOf_of_head hat hroom (List.prefix_append _ _), hend, List.drop_left,
      if_neg hsmall, hstatus]

/-! ## One request of the client -/

@[simp] theorem sendLoop_nil (cs : List Call) : sendLoop cs [] = ([], none) := by
  cases cs with
  | nil => rfl
  | cons c cs => cases c <;> rfl

theorem sendLoop_ok {cs : List Call} {text sent : Bytes} (h : sendLoop cs text = (sent, none)) :
    sent = text := by
  induction cs generalizing text sent with
  | nil =>
    by_cases hempty : text = []
    · simpa [sendLoop, hempty, eq_comm] using h
    · simp [sendLoop, hempty] at h
  | cons c cs ih =>
    by_cases hempty : text = []
    · rw [hempty, sendLoop_nil] at h
      rw [hempty]
      exact (Prod.mk.inj h).1.symm
    · cases c with
      | moved more =>
        rw [sendLoop, if_neg hempty] at h
        rcases hloop : sendLoop cs (text.drop (more + 1)) with ⟨rest, err⟩
        rw [hloop] at h
        obtain ⟨rfl, rfl⟩ := Prod.mk.inj h
        rw [ih hloop, List.take_append_drop]
      | interrupted =>
        rw [sendLoop, if_neg hempty] at h
        exact ih h
      | timedOut =>
        rw [sendLoop, if_neg hempty] at h
        exact absurd (Prod.mk.inj h).2 (by simp)
      | broken e =>
        rw [sendLoop, if_neg hempty] at h
        exact absurd (Prod.mk.inj h).2 (by simp)

theorem sendLoop_whole {cs : List Call} {text : Bytes} (hworks : ∀ c ∈ cs, c.works = true)
    (hmoves : text.length ≤ cs.countP Call.moves) : sendLoop cs text = (text, none) := by
  induction cs generalizing text with
  | nil =>
    obtain rfl := List.length_eq_zero_iff.mp (Nat.le_zero.mp hmoves)
    rfl
  | cons c cs ih =>
    have hworks' : ∀ c ∈ cs, c.works = true := fun c hc => hworks c (List.mem_cons_of_mem _ hc)
    by_cases hempty : text = []
    · rw [hempty, sendLoop_nil]
    · cases c with
      | moved more =>
        rw [List.countP_cons_of_pos rfl] at hmoves
        rw [sendLoop, if_neg hempty, ih hworks' (by rw [List.length_drop]; omega)]
        simp only [List.take_append_drop]
      | interrupted =>
        rw [List.countP_cons_of_neg (by decide)] at hmoves
        rw [sendLoop, if_neg hempty, ih hworks' hmoves]
      | timedOut => exact absurd (hworks _ List.mem_cons_self) (by decide)
      | broken e => exact absurd (hworks _ List.mem_cons_self) (by simp [Call.works])

theorem cliHttpRequest_ok {method json : CString} {e : Exchange} {sent : Bytes}
    {resp : CliHttpResp} (h : cliHttpRequest host method path json e = (sent, .ok resp)) :
    sent = requestText method path host json ∧ receive e.recvs e.line = .ok resp := by
  rw [cliHttpRequest] at h
  split at h
  · exact absurd (Prod.mk.inj h).2 (by simp)
  split at h
  · exact absurd (Prod.mk.inj h).2 (by simp)
  split at h
  · exact absurd (Prod.mk.inj h).2 (by simp)
  · next hsend =>
    obtain ⟨rfl, hresp⟩ := Prod.mk.inj h
    refine ⟨sendLoop_ok hsend, ?_⟩
    rcases hread : receive e.recvs e.line with err | resp'
    · rw [hread] at hresp
      exact absurd hresp (by simp [Except.mapError])
    · rw [hread] at hresp
      exact congrArg Except.ok (Except.ok.inj hresp)

/-- The exchange of a client whose calls work and are enough. -/
structure Works (e : Exchange) (text : Bytes) : Prop where
  lookup : e.lookupError = none
  connect : e.connectError = none
  sends : ∀ c ∈ e.sends, c.works = true
  recvs : ∀ c ∈ e.recvs, c.works = true
  sendsEnough : text.length ≤ e.sends.countP Call.moves
  recvsEnough : e.line.length < e.recvs.countP Call.moves

theorem cliHttpRequest_works {method json : CString} {e : Exchange}
    (h : Works e (requestText method path host json)) :
    cliHttpRequest host method path json e = (requestText method path host json,
      (responseOf e.line).mapError (CBuf.copy 256)) := by
  simp only [cliHttpRequest, h.lookup, h.connect, sendLoop_whole h.sends h.sendsEnough,
    receive_whole h.recvs h.recvsEnough]

/-- The daemon's connection of a GET, after the events. -/
def getConn (path host : CString) (e : Exchange) (srv : Server σ) (s₀ : σ) (es : List Event) :
    Conn σ :=
  run (step daemonParse srv)
    (accepted s₀ (cliHttpRequest host (CString.lit "GET") path CString.empty e).1) es

section

variable {hpath : IsPath path.bytes} {hhost : IsHost host}
  {hlen : (getText path host).length < 1024} {e : Exchange} {es : List Event}

/-- The daemon's side of a request that went out whole. -/
theorem get_oneShot (hsent : (cliHttpRequest host (CString.lit "GET") path CString.empty e).1 =
    getText path host) :
    OneShot srv s₀ (getRequest path host hpath hhost hlen)
      (True ∧ ∀ ev ∈ es, ev.healthy = true) (getConn path host e srv s₀ es) := by
  rw [getConn, hsent]
  exact run_oneShot (accepted_oneShot srv s₀ (getRequest path host hpath hhost hlen)) es

/-- A reply that the client reports is the daemon's answer to its request. -/
theorem get_sound {got : CliHttpResp}
    (hfits : Fits (answer srv s₀ (getRequest path host hpath hhost hlen).request).1)
    (hline : e.line <+: (getConn path host e srv s₀ es).sent)
    (hgot : (cliHttpRequest host (CString.lit "GET") path CString.empty e).2 = .ok got) :
    (getConn path host e srv s₀ es).dispatched =
        [(getRequest path host hpath hhost hlen).request] ∧
      got.status = (answer srv s₀ (getRequest path host hpath hhost hlen).request).1.status ∧
      got.body <+:
        (answer srv s₀ (getRequest path host hpath hhost hlen).request).1.body.bytes := by
  have hminor : (getRequest path host hpath hhost hlen).parsed.minor < 10 := by
    change 1 < 10
    decide
  obtain ⟨hsent, hread⟩ := cliHttpRequest_ok (Prod.ext rfl hgot)
  rw [requestText_get hlen] at hsent
  have hone : OneShot srv s₀ (getRequest path host hpath hhost hlen)
      (True ∧ ∀ ev ∈ es, ev.healthy = true) (getConn path host e srv s₀ es) := get_oneShot hsent
  obtain ⟨piece, hpiece, hsays⟩ := receive_sound hread
  obtain ⟨hstatus, hbody⟩ :=
    responseOf_reply hminor hfits ((hpiece.trans hline).trans hone.sent) hsays
  refine ⟨hone.answered fun hnone => ?_, hstatus, hbody⟩
  -- without a byte of the daemon the client reports no reply
  have hempty : piece <+: [] := hnone ▸ hpiece.trans hline
  rw [List.prefix_nil.mp hempty] at hsays
  exact absurd hsays (by simp [responseOf, findHead])

end

/-- One request of the client over one connection of a daemon whose answer has the fields of a
response (`Fits`). When the client reports a reply, the daemon has taken up this request and no
other, and the reply is the daemon's answer to it, the body perhaps cut short; when nothing fails,
it is the answer. -/
theorem get_answered (path host : CString) (hpath : IsPath path.bytes) (hhost : IsHost host)
    (hlen : (getText path host).length < 1024) (srv : Server σ) (s₀ : σ) (es : List Event)
    (e : Exchange) :
    let r := getRequest path host hpath hhost hlen
    let request := cliHttpRequest host (CString.lit "GET") path CString.empty e
    let c := getConn path host e srv s₀ es
    let resp := (answer srv s₀ r.request).1
    Fits resp → e.line <+: c.sent →
      (∀ got, request.2 = .ok got → c.dispatched = [r.request] ∧ got.status = resp.status ∧
        got.body <+: resp.body.bytes) ∧
      (Works e (getText path host) → e.line = c.sent → c.point = .done →
        (∀ ev ∈ es, ev.healthy = true) → r.reply srv s₀ ≠ [] →
        request.2 = .ok ⟨resp.status, resp.body.bytes⟩) := by
  intro r request c resp hfits hline
  refine ⟨fun got hgot => get_sound hfits hline hgot, ?_⟩
  intro hworks hall hdone hhealthy hreply
  have hminor : r.parsed.minor < 10 := by
    change 1 < 10
    decide
  have htext : requestText (CString.lit "GET") path host CString.empty = getText path host :=
    requestText_get hlen
  rw [← htext] at hworks
  have hrequest := cliHttpRequest_works hworks
  have hone : OneShot srv s₀ r (True ∧ ∀ ev ∈ es, ev.healthy = true) c :=
    get_oneShot ((congrArg Prod.fst hrequest).trans htext)
  have hwhole := (hone.whole hdone ⟨trivial, hhealthy⟩).2
  change (cliHttpRequest host (CString.lit "GET") path CString.empty e).2 = _
  rw [hrequest, hall, hwhole, responseOf_whole hminor hfits hreply]
  rfl

/-- A server that answers every request with one text. -/
def plainServer (body : CString) : Server Unit where
  dispatch s _ := (some ⟨200, body, CString.empty, CString.empty⟩, s)
  health _ := CBuf.copy 160 CString.empty

/-- A server that answers every request with an empty object. -/
def emptyServer : Server Unit := plainServer (CString.lit "\x7b\x7d")

/-- A host as the command line has it by default. -/
def localHost : CString := CString.lit "127.0.0.1"

/-- The path of the status. -/
def statusPath : CString := CString.lit "/api/v1/status"

theorem isHost_localHost : IsHost localHost := by
  have hbytes : localHost.bytes = ascii "127.0.0.1" := by decide
  have hplain : (ascii "127.0.0.1").all (fun c => !isControl c) = true := by decide
  refine ⟨⟨fun c hc => ?_, by decide⟩, fun c cs h => ?_⟩
  · rw [hbytes] at hc
    simpa using List.all_eq_true.mp hplain c hc
  · have hfirst : localHost.bytes.head? = some c := by rw [h, List.head?_cons]
    obtain rfl := Option.some.inj (show some (49 : UInt8) = some c from hfirst)
    decide

theorem isPath_statusPath : IsPath statusPath.bytes := by
  have hbytes : statusPath.bytes = ascii "/api/v1/status" := by decide
  have hlegal : (ascii "/api/v1/status").all (fun c => c != 32 && !isUnprintable c) = true := by
    decide
  refine ⟨by decide, fun c hc => ?_⟩
  rw [hbytes] at hc
  simpa using List.all_eq_true.mp hlegal c hc

theorem getText_status_length : (getText statusPath localHost).length < 1024 := by decide

/-- The events of a connection that reads and writes at once. -/
def statusEvents : List Event := [.tick false, .ready 1000, .took 1000]

/-- What the daemon sends over it. -/
def statusLine : Bytes :=
  (run (step daemonParse emptyServer) (accepted () (getText statusPath localHost))
    statusEvents).sent

/-- The exchange of a client that sends and reads byte by byte. -/
def statusExchange : Exchange :=
  ⟨none, none, List.replicate 1023 (.moved 0), List.replicate 5000 (.moved 0), statusLine⟩

/-- The request of the status. -/
def statusRequest : CloseRequest :=
  getRequest statusPath localHost isPath_statusPath isHost_localHost getText_status_length

theorem fits_plainServer (text : CString) (req : RestRequest) :
    Fits (answer (plainServer text) () req).1 := by
  have hplain : ∀ {status : ℕ} {body : CString}, status < 2 ^ 31 →
      Fits ⟨status, body, CString.empty, CString.empty⟩ := fun hstatus =>
    ⟨Nat.succ_pos _, Nat.succ_pos _, hstatus, fun c hc => absurd hc List.not_mem_nil,
      fun c hc => absurd hc List.not_mem_nil⟩
  unfold answer
  split_ifs <;> exact hplain (by decide)

theorem statusExchange_sent : (cliHttpRequest localHost (CString.lit "GET") statusPath
    CString.empty statusExchange).1 = getText statusPath localHost := by
  have hsend : sendLoop statusExchange.sends (getText statusPath localHost) =
      (getText statusPath localHost, none) := by
    refine sendLoop_whole (fun c hc => ?_) ?_
    · rw [List.eq_of_mem_replicate hc]
      rfl
    · rw [statusExchange, List.countP_replicate]
      exact Nat.le_of_lt_succ getText_status_length
  simp only [cliHttpRequest, show statusExchange.lookupError = none from rfl,
    show statusExchange.connectError = none from rfl, requestText_get getText_status_length, hsend]

theorem statusExchange_line : statusExchange.line <+:
    (getConn statusPath localHost statusExchange emptyServer () statusEvents).sent := by
  rw [getConn, statusExchange_sent]
  simp only [statusExchange, statusLine]
  exact List.prefix_rfl

theorem get_answered_status :
    let request := cliHttpRequest localHost (CString.lit "GET") statusPath CString.empty
      statusExchange
    let c := getConn statusPath localHost statusExchange emptyServer () statusEvents
    let resp := (answer emptyServer () statusRequest.request).1
    (∀ got, request.2 = .ok got → c.dispatched = [statusRequest.request] ∧
        got.status = resp.status ∧ got.body <+: resp.body.bytes) ∧
      (Works statusExchange (getText statusPath localHost) → statusExchange.line = c.sent →
        c.point = .done → (∀ ev ∈ statusEvents, ev.healthy = true) →
        statusRequest.reply emptyServer () ≠ [] →
        request.2 = .ok ⟨resp.status, resp.body.bytes⟩) :=
  get_answered statusPath localHost isPath_statusPath isHost_localHost getText_status_length
    emptyServer () statusEvents statusExchange (fits_plainServer _ _)
    statusExchange_line

end MoonFlare.Cli
