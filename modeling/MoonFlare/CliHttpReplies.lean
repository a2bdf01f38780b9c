import MoonFlare.CliHttp

/-!
# Replies in pieces

What the client makes of a reply is a function of the bytes it gets: the system
may hand them out in any pieces. A connection that fails within the body counts
as one that ends there.
-/

namespace MoonFlare.Cli

/-- What a stream says when it is read as a whole. -/
def responseOf (line : Bytes) : Except CString CliHttpResp :=
  match findHead (line.take bufRoom) with
  | none => .error (CString.lit "no header terminator")
  | some p =>
    if maxBody ≤ (line.drop (p + 4)).length then .error (CString.lit "response too large")
    else .ok ⟨statusOf (line.take p), line.drop (p + 4)⟩

/-- A call after which the loop goes on. -/
def Call.works : Call → Bool
  | .moved _ => true
  | .interrupted => true
  | _ => false

/-- A call that moves bytes. -/
def Call.moves : Call → Bool
  | .moved _ => true
  | _ => false

/-! ## The head's end -/

theorem headEnd_bytes : headEnd.bytes = [13, 10, 13, 10] := by decide

/-- Where a head ends in a buffer. -/
def HeadAt (buf : Bytes) (p : ℕ) : Prop :=
  headEnd.bytes <+: (CString.ofBytes buf).bytes.drop p ∧
    ∀ j < p, ¬headEnd.bytes <+: (CString.ofBytes buf).bytes.drop j

variable {buf line got : Bytes} {p : ℕ}

theorem HeadAt.length_le (h : HeadAt buf p) : p + 4 ≤ buf.length := by
  have hlen := h.1.length_le
  have hread : (CString.ofBytes buf).bytes.length ≤ buf.length :=
    (List.takeWhile_prefix _).length_le
  rw [headEnd_bytes, List.length_drop] at hlen
  simp only [List.length_cons, List.length_nil] at hlen
  omega

theorem findHead_eq_some : findHead buf = some p ↔ HeadAt buf p := by
  rw [findHead]
  split_ifs with hlen
  · exact CString.strstr_eq_some (by rw [headEnd_bytes]; decide)
  · refine ⟨fun h => absurd h (by simp), fun h => ?_⟩
    have hle := h.length_le
    omega

theorem ofBytes_prefix (h : buf <+: got) :
    (CString.ofBytes buf).bytes <+: (CString.ofBytes got).bytes := by
  obtain ⟨t, rfl⟩ := h
  change buf.takeWhile (· ≠ 0) <+: (buf ++ t).takeWhile (· ≠ 0)
  rw [List.takeWhile_append]
  split
  · exact (List.takeWhile_prefix _).trans (List.prefix_append _ _)
  · exact List.prefix_refl _

/-- A head's end stays where it was found when more comes. -/
theorem HeadAt.extend (h : HeadAt buf p) (hpre : buf <+: got) : HeadAt got p := by
  have hlen := h.1.length_le
  rw [headEnd_bytes, List.length_drop] at hlen
  simp only [List.length_cons, List.length_nil] at hlen
  have hbytes := ofBytes_prefix hpre
  refine ⟨h.1.trans (hbytes.drop p), fun j hj hat => h.2 j hj ?_⟩
  -- in front of the place found, the buffer reaches as far as the text searched for
  refine List.prefix_of_prefix_length_le hat (hbytes.drop j) ?_
  rw [headEnd_bytes, List.length_drop]
  simp only [List.length_cons, List.length_nil]
  omega

/-! ## The loops -/

/-- The loop of the head reads a beginning of the stream, up to the first piece that completes the
head. -/
theorem headLoop_ok {cs cs' : List Call} {rest : Bytes} (hroom : buf.length ≤ bufRoom)
    (h : headLoop cs buf line = .ok (got, p, rest, cs')) :
    got ++ rest = buf ++ line ∧ got.length ≤ bufRoom ∧ HeadAt got p ∧ cs' <:+ cs := by
  induction cs generalizing buf line with
  | nil => exact absurd h (by simp [headLoop])
  | cons c cs ih =>
    cases c with
    | moved more =>
      have hpiece : (line.take (min (more + 1) (bufRoom - buf.length))).length ≤
          bufRoom - buf.length := by
        rw [List.length_take]
        omega
      have hsplit : line.take (min (more + 1) (bufRoom - buf.length)) ++ line.drop
          (line.take (min (more + 1) (bufRoom - buf.length))).length = line :=
        List.prefix_iff_eq_append.mp (List.take_prefix _ _)
      rw [headLoop] at h
      generalize line.take (min (more + 1) (bufRoom - buf.length)) = piece at h hpiece hsplit
      have hroom' : (buf ++ piece).length ≤ bufRoom := by
        rw [List.length_append]
        omega
      split at h
      · exact absurd h (by simp)
      split at h
      · next q hq =>
        obtain ⟨rfl, rfl, rfl, rfl⟩ : buf ++ piece = got ∧ q = p ∧ line.drop piece.length = rest ∧
            cs = cs' := by simpa using h
        refine ⟨?_, hroom', findHead_eq_some.mp hq, List.suffix_cons _ _⟩
        rw [List.append_assoc, hsplit]
      · split at h
        · exact absurd h (by simp)
        · obtain ⟨hkept, hle, hat, hleft⟩ := ih hroom' h
          refine ⟨?_, hle, hat, hleft.trans (List.suffix_cons _ _)⟩
          rw [hkept, List.append_assoc, hsplit]
    | interrupted =>
      obtain ⟨hkept, hle, hat, hleft⟩ := ih hroom h
      exact ⟨hkept, hle, hat, hleft.trans (List.suffix_cons _ _)⟩
    | timedOut =>
      rw [headLoop] at h
      exact absurd h (by simp)
    | broken e =>
      rw [headLoop] at h
      exact absurd h (by simp)

theorem bodyLoop_ok {cs : List Call} {body got : Bytes} (hbody : body.length < maxBody)
    (h : bodyLoop cs body line = .ok got) :
    ∃ piece, piece <+: line ∧ got = body ++ piece ∧ got.length < maxBody := by
  induction cs generalizing body line with
  | nil =>
    obtain rfl := Except.ok.inj h
    exact ⟨[], List.nil_prefix, (List.append_nil _).symm, hbody⟩
  | cons c cs ih =>
    have hstop : Except.ok body = (.ok got : Except CString Bytes) →
        ∃ piece, piece <+: line ∧ got = body ++ piece ∧ got.length < maxBody := by
      intro h
      obtain rfl := Except.ok.inj h
      exact ⟨[], List.nil_prefix, (List.append_nil _).symm, hbody⟩
    cases c with
    | moved more =>
      rw [bodyLoop] at h
      have hsplit : line.take (min (more + 1) (bufRoom + 1)) ++ line.drop
          (line.take (min (more + 1) (bufRoom + 1))).length = line :=
        List.prefix_iff_eq_append.mp (List.take_prefix _ _)
      generalize line.take (min (more + 1) (bufRoom + 1)) = piece at h hsplit
      split_ifs at h with hend hlarge
      · exact hstop h
      · obtain ⟨more', hpre, rfl, hlen⟩ := ih (by omega) h
        refine ⟨piece ++ more', ?_, List.append_assoc _ _ _, hlen⟩
        rw [← hsplit]
        exact (List.prefix_append_right_inj piece).mpr hpre
    | interrupted => exact ih hbody h
    | timedOut => exact hstop h
    | broken e => exact hstop h

theorem receive_eq_ok {cs : List Call} {resp : CliHttpResp} :
    receive cs line = .ok resp ↔ ∃ buf p rest cs' body,
      headLoop cs [] line = .ok (buf, p, rest, cs') ∧
      bodyLoop cs' (buf.drop (p + 4)) rest = .ok body ∧ resp = ⟨statusOf (buf.take p), body⟩ := by
  rw [receive]
  rcases hhead : headLoop cs [] line with e | ⟨buf, p, rest, cs'⟩
  · simp [bind, Except.bind]
  · rcases hbody : bodyLoop cs' (buf.drop (p + 4)) rest with e | body
    · simp [bind, Except.bind, hbody]
    · simp [bind, Except.bind, hbody, pure, Except.pure, eq_comm]

/-- What a whole stream says, by the place where its head ends. -/
theorem responseOf_of_head (hat : HeadAt buf p) (hroom : buf.length ≤ bufRoom)
    (hpre : buf <+: line) :
    responseOf line =
      if maxBody ≤ (line.drop (p + 4)).length then .error (CString.lit "response too large")
      else .ok ⟨statusOf (buf.take p), line.drop (p + 4)⟩ := by
  have hlen := hat.length_le
  have hbuf : buf <+: line.take bufRoom := List.prefix_take_iff.mpr ⟨hpre, hroom⟩
  have htake : line.take p = buf.take p := by
    obtain ⟨t, rfl⟩ := hpre
    exact List.take_append_of_le_length (by omega)
  rw [responseOf, findHead_eq_some.mpr (hat.extend hbuf)]
  simp only [htake]

/-- A reply is what a beginning of the stream says. -/
theorem receive_sound {cs : List Call} {resp : CliHttpResp} (h : receive cs line = .ok resp) :
    ∃ got, got <+: line ∧ responseOf got = .ok resp := by
  obtain ⟨buf, p, rest, cs', body, hhead, hbody, rfl⟩ := receive_eq_ok.mp h
  obtain ⟨hkept, hroom, hat, -⟩ := headLoop_ok (Nat.zero_le _) hhead
  rw [List.nil_append] at hkept
  have hlen := hat.length_le
  have hsmall : (buf.drop (p + 4)).length < maxBody := by
    rw [List.length_drop]
    exact (Nat.sub_le _ _).trans_lt (hroom.trans_lt (by decide))
  obtain ⟨piece, hpiece, rfl, hbound⟩ := bodyLoop_ok hsmall hbody
  have hdrop : (buf ++ piece).drop (p + 4) = buf.drop (p + 4) ++ piece :=
    List.drop_append_of_le_length hlen
  refine ⟨buf ++ piece, ?_, ?_⟩
  · rw [← hkept]
    exact (List.prefix_append_right_inj buf).mpr hpiece
  · rw [responseOf_of_head hat hroom (List.prefix_append _ _), hdrop, if_neg (not_le.mpr hbound)]

/-! ## Whole replies -/

theorem HeadAt.unique {q : ℕ} (h : HeadAt buf p) (h' : HeadAt buf q) : p = q := by
  rcases Nat.lt_trichotomy p q with hlt | heq | hgt
  · exact absurd h.1 (h'.2 p hlt)
  · exact heq
  · exact absurd h'.1 (h.2 q hgt)

theorem findHead_eq_none : findHead buf = none ↔ ∀ p, ¬HeadAt buf p := by
  rw [Option.eq_none_iff_forall_ne_some]
  exact forall_congr' fun p => not_congr findHead_eq_some

/-- A call that moves bytes leaves fewer of them than calls. -/
theorem moves_left {piece : Bytes} {more : ℕ} {cs : List Call}
    (hmoves : line.length < (Call.moved more :: cs).countP Call.moves) (hpre : piece <+: line)
    (hne : piece ≠ []) : (line.drop piece.length).length < cs.countP Call.moves := by
  have hpos := List.length_pos_iff.mpr hne
  have hle := hpre.length_le
  rw [List.countP_cons_of_pos rfl] at hmoves
  rw [List.length_drop]
  omega

/-- With calls enough, the loop of the head finds an end exactly when there is one within the
buffer's size. -/
theorem headLoop_whole {cs : List Call} (hworks : ∀ c ∈ cs, c.works = true)
    (hmoves : line.length < cs.countP Call.moves) (hroom : buf.length ≤ bufRoom)
    (hnone : ∀ p, ¬HeadAt buf p) :
    (∀ p, HeadAt ((buf ++ line).take bufRoom) p → ∃ got rest cs',
        headLoop cs buf line = .ok (got, p, rest, cs') ∧ rest.length < cs'.countP Call.moves) ∧
      ((∀ p, ¬HeadAt ((buf ++ line).take bufRoom) p) →
        headLoop cs buf line = .error (CString.lit "no header terminator")) := by
  induction cs generalizing buf line with
  | nil => exact absurd hmoves (by simp)
  | cons c cs ih =>
    have hworks' : ∀ c ∈ cs, c.works = true := fun c hc => hworks c (List.mem_cons_of_mem _ hc)
    cases c with
    | moved more =>
      have hpre : line.take (min (more + 1) (bufRoom - buf.length)) <+: line := List.take_prefix _ _
      have hlen : (line.take (min (more + 1) (bufRoom - buf.length))).length =
          min (min (more + 1) (bufRoom - buf.length)) line.length := List.length_take
      rw [headLoop]
      generalize line.take (min (more + 1) (bufRoom - buf.length)) = piece at hpre hlen ⊢
      obtain ⟨rest, rfl⟩ := hpre
      have hroom' : (buf ++ piece).length ≤ bufRoom := by
        rw [List.length_append]
        omega
      by_cases hempty : piece = []
      · rw [if_pos hempty]
        have hwhole : (buf ++ (piece ++ rest)).take bufRoom = buf := by
          rw [hempty, List.length_nil, List.nil_append] at hlen
          rw [hempty, List.nil_append]
          rcases Nat.eq_zero_or_pos rest.length with hrest | hrest
          · rw [List.length_eq_zero_iff.mp hrest, List.append_nil, List.take_of_length_le hroom]
          · have hfull : bufRoom = buf.length := by omega
            rw [hfull, List.take_left]
        rw [hwhole]
        exact ⟨fun p hp => absurd hp (hnone p), fun _ => rfl⟩
      · have hleft := moves_left hmoves (List.prefix_append _ _) hempty
        rw [List.drop_left] at hleft
        have hbuf : buf ++ piece <+: (buf ++ (piece ++ rest)).take bufRoom :=
          List.prefix_take_iff.mpr ⟨⟨rest, List.append_assoc _ _ _⟩, hroom'⟩
        rw [if_neg hempty, List.drop_left]
        cases hfind : findHead (buf ++ piece) with
        | some q =>
          have hat := (findHead_eq_some.mp hfind).extend hbuf
          refine ⟨fun p hp => ?_, fun hno => absurd hat (hno q)⟩
          obtain rfl := hp.unique hat
          exact ⟨_, _, _, rfl, hleft⟩
        | none =>
          have hsmall : ¬maxBody ≤ (buf ++ piece).length :=
            not_le.mpr (hroom'.trans_lt (by decide))
          simp only [if_neg hsmall]
          have hrest := ih hworks' hleft hroom' (findHead_eq_none.mp hfind)
          rwa [List.append_assoc] at hrest
    | interrupted =>
      rw [headLoop]
      exact ih hworks' (by rwa [List.countP_cons_of_neg (by decide)] at hmoves) hroom hnone
    | timedOut => exact absurd (hworks _ List.mem_cons_self) (by decide)
    | broken e => exact absurd (hworks _ List.mem_cons_self) (by simp [Call.works])

theorem bodyLoop_whole {cs : List Call} {body : Bytes} (hworks : ∀ c ∈ cs, c.works = true)
    (hmoves : line.length < cs.countP Call.moves) (hbody : body.length < maxBody) :
    bodyLoop cs body line =
      if maxBody ≤ (body ++ line).length then .error (CString.lit "response too large")
      else .ok (body ++ line) := by
  induction cs generalizing body line with
  | nil => exact absurd hmoves (by simp)
  | cons c cs ih =>
    have hworks' : ∀ c ∈ cs, c.works = true := fun c hc => hworks c (List.mem_cons_of_mem _ hc)
    cases c with
    | moved more =>
      have hpre : line.take (min (more + 1) (bufRoom + 1)) <+: line := List.take_prefix _ _
      have hlen : (line.take (min (more + 1) (bufRoom + 1))).length =
          min (min (more + 1) (bufRoom + 1)) line.length := List.length_take
      rw [bodyLoop]
      generalize line.take (min (more + 1) (bufRoom + 1)) = piece at hpre hlen ⊢
      obtain ⟨rest, rfl⟩ := hpre
      by_cases hempty : piece = []
      · have hrest : rest = [] := by
          rw [hempty, List.length_nil, List.nil_append] at hlen
          exact List.length_eq_zero_iff.mp (by omega)
        rw [if_pos hempty, hempty, hrest, List.append_nil, List.append_nil,
          if_neg (not_le.mpr hbody)]
      · have hleft := moves_left hmoves (List.prefix_append _ _) hempty
        rw [List.drop_left] at hleft
        rw [if_neg hempty, List.drop_left, ← List.append_assoc]
        split_ifs with hlarge hwhole hwhole
        · rfl
        · rw [List.length_append] at hwhole
          omega
        · rw [ih hworks' hleft (by omega), if_pos hwhole]
        · rw [ih hworks' hleft (by omega), if_neg hwhole]
    | interrupted =>
      rw [bodyLoop]
      exact ih hworks' (by rwa [List.countP_cons_of_neg (by decide)] at hmoves) hbody
    | timedOut => exact absurd (hworks _ List.mem_cons_self) (by decide)
    | broken e => exact absurd (hworks _ List.mem_cons_self) (by simp [Call.works])

/-- The calls that are left work too. -/
theorem works_left {cs cs' : List Call} (hworks : ∀ c ∈ cs, c.works = true) (h : cs' <:+ cs) :
    ∀ c ∈ cs', c.works = true := fun c hc => hworks c (h.mem hc)

/-- With calls enough, a reply is read as what its stream says as a whole. -/
theorem receive_whole {cs : List Call} (hworks : ∀ c ∈ cs, c.works = true)
    (hmoves : line.length < cs.countP Call.moves) : receive cs line = responseOf line := by
  have hempty : ∀ p, ¬HeadAt [] p := fun p h => absurd h.length_le (by simp)
  obtain ⟨hsome, hnone⟩ := headLoop_whole hworks hmoves (Nat.zero_le _) hempty
  rw [List.nil_append] at hsome hnone
  cases hfind : findHead (line.take bufRoom) with
  | none =>
    rw [responseOf, hfind, receive, hnone (findHead_eq_none.mp hfind)]
    rfl
  | some p =>
    obtain ⟨buf, rest, cs', hhead, hleft⟩ := hsome p (findHead_eq_some.mp hfind)
    obtain ⟨hkept, hroom, hat, hsuffix⟩ := headLoop_ok (Nat.zero_le _) hhead
    rw [List.nil_append] at hkept
    have hlen := hat.length_le
    have hsmall : (buf.drop (p + 4)).length < maxBody := by
      rw [List.length_drop]
      exact (Nat.sub_le _ _).trans_lt (hroom.trans_lt (by decide))
    have hdrop : line.drop (p + 4) = buf.drop (p + 4) ++ rest := by
      rw [← hkept]
      exact List.drop_append_of_le_length hlen
    have hbody := bodyLoop_whole (works_left hworks hsuffix) hleft hsmall
    rw [responseOf_of_head hat hroom ⟨rest, hkept⟩, receive, hhead, hdrop]
    simp only [bind, Except.bind, hbody]
    split_ifs <;> rfl

/-- The client's reading is a function of the bytes it gets: with calls enough it says what the
whole stream says, in whichever pieces that comes, and what it says at all is what some beginning
of the stream says. -/
theorem reply_any_pieces (cs : List Call) (line : Bytes) :
    ((∀ c ∈ cs, c.works = true) → line.length < cs.countP Call.moves →
        receive cs line = responseOf line) ∧
      (∀ resp, receive cs line = .ok resp → ∃ got, got <+: line ∧ responseOf got = .ok resp) :=
  ⟨receive_whole, fun _ => receive_sound⟩

end MoonFlare.Cli
