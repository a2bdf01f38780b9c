import MoonFlare.Runs
import MoonFlare.XdTransport

/-!
# What the XD transactions accept

A line carries a reply exactly when it begins with a frame that the transport
itself could have built with the address and the command. Both transactions
accept those lines and no others, whichever way the system hands out the bytes,
and read nothing behind the frame. What is read is always a beginning of the
line, so the state of the stepped transaction between two calls is determined
by how many bytes it has got.
-/

namespace MoonFlare.Xd

/-! ## Frames -/

theorem bmsBuildFrame_eq (addr cmd : UInt8) (body : Bytes) : bmsBuildFrame addr cmd body =
    [soi, addr, cmd, UInt8.ofNat body.length] ++ (body ++
      [bmsCheck ([soi, addr, cmd, UInt8.ofNat body.length] ++ body), eoi]) := by
  rw [bmsBuildFrame, List.append_assoc]

/-- The reply at the beginning of a line, and what comes behind it. -/
def replyOf (addr cmd : UInt8) : Bytes → Option (Bytes × Bytes)
  | s :: a :: c :: len :: t =>
    if s = soi ∧ a = addr ∧ c = cmd ∧ len.toNat + 2 ≤ t.length ∧
        t.getD len.toNat 0 = bmsCheck ([s, a, c, len] ++ t.take len.toNat) ∧
        t.getD (len.toNat + 1) 0 = eoi then
      some (t.take len.toNat, t.drop (len.toNat + 2))
    else none
  | _ => none

variable {addr cmd : UInt8} {line body rest : Bytes}

/-- The two bytes at the end of a tail. -/
theorem tail_eq {t : Bytes} {n : ℕ} (h : n + 2 ≤ t.length) :
    t = t.take n ++ ([t.getD n 0, t.getD (n + 1) 0] ++ t.drop (n + 2)) := by
  have hn : n < t.length := by omega
  have hn' : n + 1 < t.length := by omega
  rw [List.getD_eq_getElem t 0 hn, List.getD_eq_getElem t 0 hn', List.cons_append,
    List.cons_append, List.nil_append, List.getElem_cons_drop, List.getElem_cons_drop,
    List.take_append_drop]

/-- A line carries a reply exactly when it begins with the frame of the body. -/
theorem replyOf_iff : replyOf addr cmd line = some (body, rest) ↔
    body.length ≤ 255 ∧ line = bmsBuildFrame addr cmd body ++ rest := by
  constructor
  · intro h
    unfold replyOf at h
    split at h
    · next s a c len t =>
      split_ifs at h with hok
      obtain ⟨rfl, rfl, rfl, hlen, hchk, hend⟩ := hok
      obtain ⟨rfl, rfl⟩ := Prod.mk.inj (Option.some.inj h)
      have hn : (t.take len.toNat).length = len.toNat := by
        rw [List.length_take]
        omega
      refine ⟨hn.trans_le (by have := len.toNat_lt; omega), ?_⟩
      have hbyte : UInt8.ofNat (t.take len.toNat).length = len := by
        rw [hn]
        exact UInt8.ofNat_toNat
      rw [bmsBuildFrame_eq, hbyte, ← hchk, ← hend]
      simpa using tail_eq hlen
    · exact absurd h (by simp)
  · rintro ⟨hlen, rfl⟩
    have hn : (UInt8.ofNat body.length).toNat = body.length := by
      rw [UInt8.toNat_ofNat']
      omega
    rw [bmsBuildFrame_eq]
    simp [replyOf, hn]

/-- What a line carries, by its header and a whole tail. -/
theorem replyOf_parts {s a c len : UInt8} {t wire : Bytes} (ht : t.length = len.toNat + 2) :
    replyOf addr cmd ([s, a, c, len] ++ (t ++ wire)) =
      if s = soi ∧ a = addr ∧ c = cmd ∧
          t.getD len.toNat 0 = bmsCheck ([s, a, c, len] ++ t.take len.toNat) ∧
          t.getD (len.toNat + 1) 0 = eoi then
        some (t.take len.toNat, wire)
      else none := by
  have hchk : (t ++ wire).getD len.toNat 0 = t.getD len.toNat 0 :=
    List.getD_append _ _ _ _ (by omega)
  have hend : (t ++ wire).getD (len.toNat + 1) 0 = t.getD (len.toNat + 1) 0 :=
    List.getD_append _ _ _ _ (by omega)
  have htake : (t ++ wire).take len.toNat = t.take len.toNat :=
    List.take_append_of_le_length (by omega)
  have hdrop : (t ++ wire).drop (len.toNat + 2) = wire := by
    rw [← ht, List.drop_left]
  have hlen : len.toNat + 2 ≤ (t ++ wire).length := by
    rw [List.length_append]
    omega
  simp only [List.cons_append, List.nil_append, replyOf, hchk, hend, htake, hdrop, hlen, true_and]

/-- A line that ends within the header carries nothing. -/
theorem replyOf_short (h : line.length < 4) : replyOf addr cmd line = none := by
  match line, h with
  | [], _ => rfl
  | [_], _ => rfl
  | [_, _], _ => rfl
  | [_, _, _], _ => rfl
  | _ :: _ :: _ :: _ :: _, h => simp at h; omega

/-- A line that ends within the tail carries nothing. -/
theorem replyOf_short_tail {s a c len : UInt8} {t : Bytes} (h : t.length < len.toNat + 2) :
    replyOf addr cmd ([s, a, c, len] ++ t) = none := by
  have hlen : ¬len.toNat + 2 ≤ t.length := by omega
  simp only [List.cons_append, List.nil_append, replyOf, hlen, false_and, and_false, if_false]

/-! ## Loops of reads -/

/-- What a loop of reads makes of the line: some of it goes over from the wire to what was got. -/
structure Received (n : ℕ) (rs rs' : List Sys) (got wire got' wire' : Bytes) (r : Recv) : Prop where
  kept : got' ++ wire' = got ++ wire
  le : got'.length ≤ n
  full : r = .full → got'.length = n
  waits : r = .wait → got'.length < n
  left : rs' <:+ rs
  failed : ∀ e, r = .broken e → .broken e ∈ rs
  grows : got.length ≤ got'.length

/-- The loop ends at once. -/
theorem Received.stop {n : ℕ} {rs rs' : List Sys} {got wire : Bytes} {r : Recv}
    (hle : got.length ≤ n) (hfull : r = .full → got.length = n)
    (hwait : r = .wait → got.length < n) (hleft : rs' <:+ rs)
    (hfail : ∀ e, r = .broken e → .broken e ∈ rs) : Received n rs rs' got wire got wire r :=
  ⟨rfl, hle, hfull, hwait, hleft, hfail, Nat.le_refl _⟩

/-- One more call in front of a loop. -/
theorem Received.cons {n : ℕ} {rs rs' : List Sys} {got wire got₁ wire₁ got' wire' : Bytes}
    {r : Recv} (h : Received n rs rs' got₁ wire₁ got' wire' r) (w : Sys)
    (hkept : got₁ ++ wire₁ = got ++ wire) (hgrows : got.length ≤ got₁.length) :
    Received n (w :: rs) rs' got wire got' wire' r :=
  ⟨h.kept.trans hkept, h.le, h.full, h.waits, h.left.trans (List.suffix_cons _ _),
    fun e he => List.mem_cons_of_mem w (h.failed e he), hgrows.trans h.grows⟩

theorem recvLoop_spec {n : ℕ} {rs rs' : List Sys} {got wire got' wire' : Bytes} {r : Recv}
    (h : recvLoop n rs got wire = (got', wire', rs', r)) (hgot : got.length ≤ n) :
    Received n rs rs' got wire got' wire' r := by
  induction rs generalizing got wire with
  | nil =>
    rw [recvLoop] at h
    obtain ⟨rfl, rfl, rfl, rfl⟩ : got = got' ∧ wire = wire' ∧ [] = rs' ∧ _ = r := by
      simpa using h
    refine Received.stop hgot ?_ ?_ (List.suffix_refl _) ?_ <;> split_ifs <;> simp <;> omega
  | cons w rs ih =>
    unfold recvLoop at h
    by_cases hfull : n ≤ got.length
    · rw [if_pos hfull] at h
      obtain ⟨rfl, rfl, rfl, rfl⟩ : got = got' ∧ wire = wire' ∧ w :: rs = rs' ∧ Recv.full = r := by
        simpa using h
      exact Received.stop hgot (fun _ => by omega) (by simp) (List.suffix_refl _) (by simp)
    · rw [if_neg hfull] at h
      cases w with
      | moved more =>
        simp only at h
        by_cases hwire : wire = []
        · rw [if_pos hwire] at h
          obtain ⟨rfl, rfl, rfl, rfl⟩ : got = got' ∧ wire = wire' ∧ rs = rs' ∧ Recv.wait = r := by
            simpa using h
          exact Received.stop hgot (by simp) (fun _ => by omega) (List.suffix_cons _ _) (by simp)
        · rw [if_neg hwire] at h
          have hlen : (got ++ wire.take (min (more + 1) (n - got.length))).length ≤ n := by
            rw [List.length_append, List.length_take]
            omega
          refine (ih h hlen).cons _ ?_ (by simp)
          rw [List.append_assoc, List.take_append_drop]
      | interrupted => exact (ih h hgot).cons _ rfl (Nat.le_refl _)
      | again =>
        obtain ⟨rfl, rfl, rfl, rfl⟩ : got = got' ∧ wire = wire' ∧ rs = rs' ∧ Recv.wait = r := by
          simpa using h
        exact Received.stop hgot (by simp) (fun _ => by omega) (List.suffix_cons _ _) (by simp)
      | broken e =>
        obtain ⟨rfl, rfl, rfl, rfl⟩ : got = got' ∧ wire = wire' ∧ rs = rs' ∧ Recv.broken e = r := by
          simpa using h
        refine Received.stop hgot (by simp) (by simp) (List.suffix_cons _ _) fun e' he => ?_
        rw [Recv.broken.inj he]
        exact List.mem_cons_self

/-- The same of the blocking loop, which ends early only without a byte that is ready. -/
theorem serialReadExact_spec {n : ℕ} {ws ws' : List Wait} {got wire wire' : Bytes}
    {r : Option Bytes} (h : serialReadExact n ws got wire = (r, wire', ws'))
    (hgot : got.length ≤ n) :
    (∀ got', r = some got' → got' ++ wire' = got ++ wire ∧ got'.length ≤ n) ∧
      (r = none → .broken ∈ ws) := by
  induction ws generalizing got wire with
  | nil =>
    rw [serialReadExact] at h
    obtain ⟨rfl, rfl, rfl⟩ : some got = r ∧ wire = wire' ∧ [] = ws' := by simpa using h
    exact ⟨fun got' he => Option.some.inj he ▸ ⟨rfl, hgot⟩, by simp⟩
  | cons w ws ih =>
    unfold serialReadExact at h
    by_cases hfull : n ≤ got.length
    · rw [if_pos hfull] at h
      obtain ⟨rfl, rfl, rfl⟩ : some got = r ∧ wire = wire' ∧ w :: ws = ws' := by simpa using h
      exact ⟨fun got' he => Option.some.inj he ▸ ⟨rfl, hgot⟩, by simp⟩
    · rw [if_neg hfull] at h
      cases w with
      | moved more =>
        obtain ⟨hsome, hnone⟩ := ih h (by
          rw [List.length_append, List.length_take]
          omega)
        refine ⟨fun got' he => ?_, fun he => List.mem_cons_of_mem _ (hnone he)⟩
        obtain ⟨hline, hlen⟩ := hsome got' he
        exact ⟨by rw [hline, List.append_assoc, List.take_append_drop], hlen⟩
      | interrupted =>
        obtain ⟨hsome, hnone⟩ := ih h hgot
        exact ⟨hsome, fun he => List.mem_cons_of_mem _ (hnone he)⟩
      | expired =>
        obtain ⟨rfl, rfl, rfl⟩ : some got = r ∧ wire = wire' ∧ ws = ws' := by simpa using h
        exact ⟨fun got' he => Option.some.inj he ▸ ⟨rfl, hgot⟩, by simp⟩
      | broken =>
        obtain ⟨rfl, rfl, rfl⟩ : none = r ∧ wire = wire' ∧ ws = ws' := by simpa using h
        exact ⟨by simp, fun _ => List.mem_cons_self⟩

/-! ## The stepped transaction -/

/-- What holds in each phase. -/
def PhaseFits (addr cmd : UInt8) (tx line : Bytes) (st : TxRx) (p : Port) : Phase → Prop
  | .refused => False
  | .write => st.tx = tx ∧ st.txSent ≤ tx.length ∧ p.sent = tx.take st.txSent ∧
      st.rxHead = [] ∧ st.rxTail = []
  | .settle => p.sent = tx ∧ st.rxHead = [] ∧ st.rxTail = []
  | .head => p.sent = tx ∧ st.rxHead.length < 4 ∧ st.rxTail = []
  | .tail => p.sent = tx ∧ st.rxTail.length < st.rxTailNeed ∧
      ∃ len, st.rxHead = [soi, addr, cmd, len] ∧ st.rxTailNeed = len.toNat + 2
  | .done => p.sent = tx ∧ replyOf addr cmd line = some (st.body, p.wire)

/-- Between two calls: what was got is the beginning of the line, and what was sent that of the
frame. -/
structure Meets (addr cmd : UInt8) (tx line : Bytes) (st : TxRx) (p : Port) : Prop where
  hasAddr : st.addr = addr
  hasCmd : st.cmd = cmd
  hasLine : line = st.rxHead ++ (st.rxTail ++ p.wire)
  fits : PhaseFits addr cmd tx line st p st.phase

/-- What a call leaves: the transaction goes on, the line carries the body, or it carries no reply
unless a call of the system failed. -/
structure Sound (addr cmd : UInt8) (tx line : Bytes) (broken late : Prop)
    (x : TxRx × Port × StepResult) : Prop where
  meets : x.2.2 ≠ .error → Meets addr cmd tx line x.1 x.2.1
  done : ∀ body, x.2.2 = .done body → x.1.phase = .done ∧ x.1.body = body
  undone : x.2.2 ≠ .error → (∀ body, x.2.2 ≠ .done body) → x.1.phase ≠ .done
  error : x.2.2 = .error → broken ∨ replyOf addr cmd line = none
  timely : x.2.2 = .timeout → late

variable {tx : Bytes} {st : TxRx} {p : Port} {broken late : Prop} {rs : List Sys}

theorem Sound.pending {r : StepResult} (h : Meets addr cmd tx line st p) (hr : r.ended = false)
    (hopen : st.phase ≠ .done) : Sound addr cmd tx line broken late (st, p, r) := by
  refine ⟨fun _ => h, fun body he => ?_, fun _ _ => hopen, fun he => ?_, fun he => ?_⟩
  · have he' : r = .done body := he
    rw [he'] at hr
    exact absurd hr (by simp [StepResult.ended])
  · have he' : r = .error := he
    rw [he'] at hr
    exact absurd hr (by simp [StepResult.ended])
  · have he' : r = .timeout := he
    rw [he'] at hr
    exact absurd hr (by simp [StepResult.ended])

theorem Sound.refused (h : broken ∨ replyOf addr cmd line = none) :
    Sound addr cmd tx line broken late (st, p, .error) :=
  ⟨fun hne => absurd rfl hne, fun _ he => (nomatch he), fun hne => absurd rfl hne, fun _ => h,
    fun he => (nomatch he)⟩

theorem tailPhase_sound {len : UInt8} (haddr : st.addr = addr) (hcmd : st.cmd = cmd)
    (hline : line = st.rxHead ++ (st.rxTail ++ p.wire)) (hphase : st.phase = .tail)
    (hsent : p.sent = tx) (hlen : st.rxTail.length ≤ st.rxTailNeed)
    (hhead : st.rxHead = [soi, addr, cmd, len]) (hneed : st.rxTailNeed = len.toNat + 2)
    (hbroken : ∀ e, .broken e ∈ rs → broken) :
    Sound addr cmd tx line broken late (st.tailPhase p rs) := by
  unfold TxRx.tailPhase
  rcases hloop : recvLoop st.rxTailNeed rs st.rxTail p.wire with ⟨got, wire, rs', r⟩
  have hrecv := recvLoop_spec hloop hlen
  have hline' : line = st.rxHead ++ (got ++ wire) := hline.trans (by rw [hrecv.kept])
  cases r with
  | wait =>
    refine Sound.pending ⟨haddr, hcmd, hline', ?_⟩ rfl (by simp [hphase])
    change PhaseFits addr cmd tx line _ _ st.phase
    rw [hphase]
    exact ⟨hsent, hrecv.waits rfl, len, hhead, hneed⟩
  | broken e => exact Sound.refused (Or.inl (hbroken e (hrecv.failed e rfl)))
  | full =>
    have hlen' : got.length = len.toNat + 2 := (hrecv.full rfl).trans hneed
    have hwhole : line = [soi, addr, cmd, len] ++ (got ++ wire) := hhead ▸ hline'
    have hreply := @replyOf_parts addr cmd soi addr cmd len got wire hlen'
    rw [← hwhole] at hreply
    simp only [TxRx.checkTail, hneed, Nat.add_sub_cancel, hhead]
    by_cases hchk : got.getD len.toNat 0 = bmsCheck ([soi, addr, cmd, len] ++ got.take len.toNat)
    · rw [if_neg (not_not.mpr hchk)]
      by_cases hend : got.getD (len.toNat + 1) 0 = eoi
      · rw [if_neg (not_not.mpr hend)]
        rw [if_pos ⟨rfl, rfl, rfl, hchk, hend⟩] at hreply
        exact ⟨fun _ => ⟨haddr, hcmd, hhead ▸ hline', hsent, hreply⟩,
          fun body he => ⟨rfl, StepResult.done.inj he⟩, fun _ hno => absurd rfl (hno _),
          fun he => (nomatch he), fun he => (nomatch he)⟩
      · rw [if_pos hend]
        rw [if_neg fun hall => hend hall.2.2.2.2] at hreply
        exact Sound.refused (Or.inr hreply)
    · rw [if_pos hchk]
      rw [if_neg fun hall => hchk hall.2.2.2.1] at hreply
      exact Sound.refused (Or.inr hreply)

theorem headPhase_sound (haddr : st.addr = addr) (hcmd : st.cmd = cmd)
    (hline : line = st.rxHead ++ (st.rxTail ++ p.wire)) (hphase : st.phase = .head)
    (hsent : p.sent = tx) (hlen : st.rxHead.length < 4) (htail : st.rxTail = [])
    (hbroken : ∀ e, .broken e ∈ rs → broken) :
    Sound addr cmd tx line broken late (st.headPhase p rs) := by
  unfold TxRx.headPhase
  rcases hloop : recvLoop 4 rs st.rxHead p.wire with ⟨got, wire, rs', r⟩
  have hrecv := recvLoop_spec hloop hlen.le
  have hline' : line = got ++ (st.rxTail ++ wire) := by
    rw [htail, List.nil_append, hrecv.kept, hline, htail, List.nil_append]
  cases r with
  | wait =>
    refine Sound.pending ⟨haddr, hcmd, hline', ?_⟩ rfl (by simp [hphase])
    change PhaseFits addr cmd tx line _ _ st.phase
    rw [hphase]
    exact ⟨hsent, hrecv.waits rfl, htail⟩
  | broken e => exact Sound.refused (Or.inl (hbroken e (hrecv.failed e rfl)))
  | full =>
    obtain ⟨a, b, c, len, rfl⟩ : ∃ a b c len, got = [a, b, c, len] := by
      match got, hrecv.full rfl with
      | [a, b, c, len], _ => exact ⟨a, b, c, len, rfl⟩
    -- a header that is refused is that of no frame
    have hnone (h : ¬(a = soi ∧ b = addr ∧ c = cmd)) : replyOf addr cmd line = none := by
      have hne : ¬(a = soi ∧ b = addr ∧ c = cmd ∧ len.toNat + 2 ≤ (st.rxTail ++ wire).length ∧
          (st.rxTail ++ wire).getD len.toNat 0 =
            bmsCheck ([a, b, c, len] ++ (st.rxTail ++ wire).take len.toNat) ∧
          (st.rxTail ++ wire).getD (len.toNat + 1) 0 = eoi) := fun hall =>
        h ⟨hall.1, hall.2.1, hall.2.2.1⟩
      rw [hline']
      exact if_neg hne
    simp only [TxRx.checkHead, haddr, hcmd]
    by_cases ha : a = soi
    · rw [if_neg (not_not.mpr ha)]
      by_cases hb : b = addr
      · rw [if_neg (not_not.mpr hb)]
        by_cases hc : c = cmd
        · have hfits : ¬bmsMaxFrame < len.toNat + 6 := by
            have := len.toNat_lt
            rw [bmsMaxFrame]
            omega
          rw [if_neg (not_not.mpr hc), if_neg hfits]
          subst ha hb hc
          refine tailPhase_sound rfl rfl ?_ rfl hsent ?_ rfl rfl fun e he =>
            hbroken e (hrecv.left.subset he)
          · simpa [htail] using hline'
          · simp [htail]
        · rw [if_pos hc]
          exact Sound.refused (Or.inr (hnone fun hall => hc hall.2.2))
      · rw [if_pos hb]
        exact Sound.refused (Or.inr (hnone fun hall => hb hall.2.1))
    · rw [if_pos ha]
      exact Sound.refused (Or.inr (hnone fun hall => ha hall.1))

/-- Some more of the frame was sent. -/
theorem Meets.moved (hm : Meets addr cmd tx line st p) (hphase : st.phase = .write) {k : ℕ}
    (hk : k ≤ st.tx.length - st.txSent) :
    Meets addr cmd tx line { st with txSent := st.txSent + k }
      { p with sent := p.sent ++ (st.tx.drop st.txSent).take k } := by
  have hfits : PhaseFits addr cmd tx line st p .write := hphase ▸ hm.fits
  obtain ⟨htx, hle, hsent, hhead, htail⟩ := hfits
  refine ⟨hm.hasAddr, hm.hasCmd, hm.hasLine, ?_⟩
  change PhaseFits addr cmd tx line _ _ st.phase
  rw [hphase]
  refine ⟨htx, ?_, ?_, hhead, htail⟩
  · rw [htx] at hk
    change st.txSent + k ≤ tx.length
    omega
  · change p.sent ++ (st.tx.drop st.txSent).take k = tx.take (st.txSent + k)
    rw [hsent, htx, List.take_add]

/-- The whole frame was sent. -/
theorem Meets.sentAll (hm : Meets addr cmd tx line st p) (hphase : st.phase = .write)
    (hfull : st.tx.length ≤ st.txSent) :
    Meets addr cmd tx line { st with phase := .settle } p := by
  have hfits : PhaseFits addr cmd tx line st p .write := hphase ▸ hm.fits
  obtain ⟨htx, hle, hsent, hhead, htail⟩ := hfits
  refine ⟨hm.hasAddr, hm.hasCmd, hm.hasLine, ?_, hhead, htail⟩
  rw [hsent, List.take_of_length_le (htx ▸ hfull)]

/-- The writes send the rest of the frame, or as much of it as the system takes. -/
theorem sendLoop_spec {ws : List Sys} {st' : TxRx} {p' : Port} {r : Option StepResult}
    (h : TxRx.sendLoop ws st p = (st', p', r)) (hm : Meets addr cmd tx line st p)
    (hphase : st.phase = .write) :
    (r = none ∧ Meets addr cmd tx line st' p' ∧ st'.phase = .settle) ∨
      (r = some .needWrite ∧ Meets addr cmd tx line st' p' ∧ st'.phase = .write) ∨
      (r = some .error ∧ ∃ e, .broken e ∈ ws) := by
  induction ws generalizing st p with
  | nil =>
    unfold TxRx.sendLoop at h
    by_cases hfull : st.tx.length ≤ st.txSent
    · rw [if_pos hfull] at h
      obtain ⟨rfl, rfl, rfl⟩ : _ = st' ∧ p = p' ∧ none = r := by simpa using h
      exact Or.inl ⟨rfl, hm.sentAll hphase hfull, rfl⟩
    · rw [if_neg hfull] at h
      obtain ⟨rfl, rfl, rfl⟩ : st = st' ∧ p = p' ∧ some .needWrite = r := by simpa using h
      exact Or.inr (Or.inl ⟨rfl, hm, hphase⟩)
  | cons w ws ih =>
    unfold TxRx.sendLoop at h
    by_cases hfull : st.tx.length ≤ st.txSent
    · rw [if_pos hfull] at h
      obtain ⟨rfl, rfl, rfl⟩ : _ = st' ∧ p = p' ∧ none = r := by simpa using h
      exact Or.inl ⟨rfl, hm.sentAll hphase hfull, rfl⟩
    · rw [if_neg hfull] at h
      have hmore : (∃ e, Sys.broken e ∈ ws) → ∃ e, Sys.broken e ∈ w :: ws := fun ⟨e, he⟩ =>
        ⟨e, List.mem_cons_of_mem w he⟩
      cases w with
      | moved more =>
        have hrest := ih h (hm.moved hphase (Nat.min_le_right _ _)) hphase
        exact hrest.imp_right fun hrest => hrest.imp_right fun hrest => hrest.imp_right hmore
      | interrupted =>
        have hrest := ih h hm hphase
        exact hrest.imp_right fun hrest => hrest.imp_right fun hrest => hrest.imp_right hmore
      | again =>
        obtain ⟨rfl, rfl, rfl⟩ : st = st' ∧ p = p' ∧ some .needWrite = r := by simpa using h
        exact Or.inr (Or.inl ⟨rfl, hm, hphase⟩)
      | broken e =>
        obtain ⟨rfl, rfl, rfl⟩ : _ = st' ∧ p = p' ∧ some .error = r := by simpa using h
        exact Or.inr (Or.inr ⟨rfl, e, List.mem_cons_self⟩)

/-- A call of the system in a step fails. -/
def Poll.Fails (e : Poll) : Prop := ∃ x, Sys.broken x ∈ e.writes ∨ Sys.broken x ∈ e.reads

theorem settlePhase_sound {e : Poll} (hm : Meets addr cmd tx line st p)
    (hphase : st.phase = .settle) :
    Sound addr cmd tx line e.Fails (e.late = true) (st.settlePhase p e) := by
  have hfits : PhaseFits addr cmd tx line st p .settle := hphase ▸ hm.fits
  obtain ⟨hsent, hhead, htail⟩ := hfits
  unfold TxRx.settlePhase
  split_ifs
  · have hlen : st.rxHead.length < 4 := by simp [hhead]
    exact headPhase_sound hm.hasAddr hm.hasCmd hm.hasLine rfl hsent hlen htail fun x hx =>
      ⟨x, Or.inr hx⟩
  · exact Sound.pending hm rfl (by simp [hphase])

theorem Sound.timedOut (hm : Meets addr cmd tx line st p) (hopen : st.phase ≠ .done) (hlate : late)
    (msg : Bytes) : Sound addr cmd tx line broken late (st.setErr msg, p, .timeout) := by
  refine ⟨fun _ => ⟨hm.hasAddr, hm.hasCmd, hm.hasLine, ?_⟩, fun _ he => (nomatch he),
    fun _ _ => hopen, fun he => (nomatch he), fun _ => hlate⟩
  have hfits := hm.fits
  rw [TxRx.setErr]
  cases hphase : st.phase <;> rw [hphase] at hfits <;> exact hfits

/-- One call of `bms_txrx_step` on a transaction that has not ended. -/
theorem step_sound (hm : Meets addr cmd tx line st p) (hopen : st.phase ≠ .done) (e : Poll) :
    Sound addr cmd tx line e.Fails (e.late = true) (st.step p e) := by
  have hread : ∀ x, Sys.broken x ∈ e.reads → e.Fails := fun x hx => ⟨x, Or.inr hx⟩
  have hfits := hm.fits
  unfold TxRx.step
  cases hphase : st.phase with
  | refused =>
    rw [hphase] at hfits
    exact hfits.elim
  | write =>
    simp only
    split_ifs with hlate
    · exact Sound.timedOut hm hopen hlate _
    · rcases hloop : TxRx.sendLoop e.writes st p with ⟨st', p', r⟩
      rcases sendLoop_spec hloop hm hphase with
        ⟨rfl, hm', hphase'⟩ | ⟨rfl, hm', hphase'⟩ | ⟨rfl, x, hx⟩
      · exact settlePhase_sound hm' hphase'
      · exact Sound.pending hm' rfl (by simp [hphase'])
      · exact Sound.refused (Or.inl ⟨x, Or.inl hx⟩)
  | settle =>
    simp only
    split_ifs with hlate
    · exact Sound.timedOut hm hopen hlate _
    · exact settlePhase_sound hm hphase
  | head =>
    rw [hphase] at hfits
    obtain ⟨hsent, hlen, htail⟩ := hfits
    simp only
    split_ifs with hlate
    · exact Sound.timedOut hm hopen hlate _
    · exact headPhase_sound hm.hasAddr hm.hasCmd hm.hasLine hphase hsent hlen htail hread
  | tail =>
    rw [hphase] at hfits
    obtain ⟨hsent, hlen, len, hhead, hneed⟩ := hfits
    simp only
    split_ifs with hlate
    · exact Sound.timedOut hm hopen hlate _
    · exact tailPhase_sound hm.hasAddr hm.hasCmd hm.hasLine hphase hsent hlen.le hhead hneed hread
  | done => exact absurd hphase hopen

/-- `bms_txrx_init`, with what the line carries from then on. -/
theorem init_meets (addr cmd : UInt8) {data : Bytes} (hdata : data.length ≤ 255) (line : Bytes) :
    Meets addr cmd (bmsBuildFrame addr cmd data) line (TxRx.init addr cmd data) ⟨line, []⟩ := by
  rw [TxRx.init, if_neg (by omega)]
  exact ⟨rfl, rfl, rfl, rfl, Nat.zero_le _, rfl, rfl, rfl⟩

/-- A transaction that has read all of its line without an end has no reply on it. -/
theorem Meets.starved (hm : Meets addr cmd tx line st p) (hphase : st.phase ≠ .done)
    (hwire : p.wire = []) : replyOf addr cmd line = none := by
  have hfits := hm.fits
  rw [hm.hasLine, hwire, List.append_nil]
  cases hp : st.phase with
  | refused =>
    rw [hp] at hfits
    exact hfits.elim
  | write =>
    rw [hp] at hfits
    rw [hfits.2.2.2.1, hfits.2.2.2.2]
    rfl
  | settle =>
    rw [hp] at hfits
    rw [hfits.2.1, hfits.2.2]
    rfl
  | head =>
    rw [hp] at hfits
    rw [hfits.2.2, List.append_nil]
    exact replyOf_short hfits.2.1
  | tail =>
    rw [hp] at hfits
    obtain ⟨hsent, hlen, len, hhead, hneed⟩ := hfits
    rw [hhead]
    exact replyOf_short_tail (hneed ▸ hlen)
  | done => exact absurd hp hphase

/-- The stepped transaction over a line, driven until it ends. -/
theorem drive_sound {es : List Poll} (hm : Meets addr cmd tx line st p) (hopen : st.phase ≠ .done)
    {st' : TxRx} {p' : Port} {r : StepResult} (h : drive es st p = (st', p', some r)) :
    Sound addr cmd tx line (∃ e ∈ es, e.Fails) (∃ e ∈ es, e.late = true) (st', p', r) ∧
      r.ended = true := by
  induction es generalizing st p with
  | nil => exact absurd h (by simp [drive])
  | cons e es ih =>
    have hone := step_sound hm hopen e
    rw [drive] at h
    rcases hstep : st.step p e with ⟨st₁, p₁, r₁⟩
    rw [hstep] at hone h
    by_cases hend : r₁.ended = true
    · simp only [hend, if_true] at h
      obtain ⟨rfl, rfl, rfl⟩ : st₁ = st' ∧ p₁ = p' ∧ r₁ = r := by simpa using h
      exact ⟨⟨hone.meets, hone.done, hone.undone, fun he =>
        (hone.error he).imp_left fun hf => ⟨e, List.mem_cons_self, hf⟩,
        fun he => ⟨e, List.mem_cons_self, hone.timely he⟩⟩, hend⟩
    · simp only [hend] at h
      have hne : r₁ ≠ .error := by
        rintro rfl
        exact hend rfl
      have hnd : ∀ body, r₁ ≠ .done body := by
        rintro body rfl
        exact hend rfl
      obtain ⟨hrest, hended⟩ := ih (hone.meets hne) (hone.undone hne hnd) h
      exact ⟨⟨hrest.meets, hrest.done, hrest.undone, fun he =>
        (hrest.error he).imp_left fun ⟨x, hx, hf⟩ => ⟨x, List.mem_cons_of_mem e hx, hf⟩,
        fun he => (hrest.timely he).imp fun x hx => ⟨List.mem_cons_of_mem e hx.1, hx.2⟩⟩, hended⟩

/-! ## The blocking transaction -/

/-- The checks of `bms_txrx` accept what the line carries. -/
theorem checkReply_eq {a c len : UInt8} {t wire : Bytes} (ht : t.length = len.toNat + 2) :
    checkReply addr cmd [soi, a, c, len] t =
      match replyOf addr cmd ([soi, a, c, len] ++ (t ++ wire)) with
      | some (body, _) => .payload body
      | none => .refused := by
  rw [replyOf_parts ht, checkReply]
  split_ifs <;> simp_all

/-- `bms_txrx` over a line. -/
theorem bmsTxrx_sound {data : Bytes} {ws vs : List Wait} {p' : Port} {r : TxRxResult}
    (hdata : data.length ≤ 255) (h : bmsTxrx addr cmd data true ws vs ⟨line, []⟩ = (p', r)) :
    (∀ body, r = .payload body → replyOf addr cmd line = some (body, p'.wire)) ∧
      (r = .refused → replyOf addr cmd line = none) ∧
      (r = .timeout → p'.wire = [] → replyOf addr cmd line = none) ∧
      (r = .broken → .broken ∈ ws ++ vs) := by
  rw [bmsTxrx, if_neg (by omega)] at h
  simp only [Bool.not_true, Bool.false_eq_true, if_false] at h
  rcases hread : serialReadExact 4 ws [] line with ⟨head, wire, ws'⟩
  obtain ⟨hsome, hnone⟩ := serialReadExact_spec hread (Nat.zero_le 4)
  rw [hread] at h
  cases head with
  | none =>
    obtain ⟨rfl, rfl⟩ : _ = p' ∧ TxRxResult.broken = r := by simpa using h
    exact ⟨by simp, by simp, by simp, fun _ => List.mem_append_left vs (hnone rfl)⟩
  | some head =>
    obtain ⟨hline, hle⟩ := hsome head rfl
    rw [List.nil_append] at hline
    by_cases hlt : head.length < 4
    · have hshort : (p', r) = (⟨wire, bmsBuildFrame addr cmd data⟩, .timeout) := by
        match head, hlt with
        | [], _ => exact h.symm
        | [_], _ => exact h.symm
        | [_, _], _ => exact h.symm
        | [_, _, _], _ => exact h.symm
      obtain ⟨rfl, rfl⟩ := Prod.mk.inj hshort
      refine ⟨by simp, by simp, fun _ hwire => ?_, by simp⟩
      have hwire' : wire = [] := hwire
      rw [← hline, hwire', List.append_nil]
      exact replyOf_short hlt
    obtain ⟨s, a, c, len, rfl⟩ : ∃ s a c len, head = [s, a, c, len] := by
      have hfour : head.length = 4 := by omega
      match head, hfour with
      | [s, a, c, len], _ => exact ⟨s, a, c, len, rfl⟩
    simp only at h
    rw [← hline]
    by_cases hs : s = soi
    · subst hs
      have hfits : ¬bmsMaxFrame < len.toNat + 6 := by
        have := len.toNat_lt
        rw [bmsMaxFrame]
        omega
      rw [if_neg (by simp), if_neg hfits] at h
      rcases hread' : serialReadExact (len.toNat + 2) vs [] wire with ⟨tail, wire', vs'⟩
      obtain ⟨hsome', hnone'⟩ := serialReadExact_spec hread' (Nat.zero_le _)
      rw [hread'] at h
      cases tail with
      | none =>
        obtain ⟨rfl, rfl⟩ : _ = p' ∧ TxRxResult.broken = r := by simpa using h
        exact ⟨by simp, by simp, by simp, fun _ => List.mem_append_right ws (hnone' rfl)⟩
      | some tail =>
        obtain ⟨hline', hle'⟩ := hsome' tail rfl
        rw [List.nil_append] at hline'
        rw [← hline']
        by_cases hlen : tail.length = len.toNat + 2
        · simp only [hlen, ne_eq, not_true_eq_false, if_false] at h
          obtain ⟨rfl, rfl⟩ : _ = p' ∧ _ = r := by simpa using h
          rw [@checkReply_eq addr cmd a c len tail wire' hlen]
          cases hreply : replyOf addr cmd ([soi, a, c, len] ++ (tail ++ wire')) with
          | none => simp
          | some y =>
            have hrest : y.2 = wire' := by
              rw [replyOf_parts hlen] at hreply
              split_ifs at hreply
              exact congrArg Prod.snd (Option.some.inj hreply).symm
            refine ⟨fun body he => ?_, by simp, by simp, by simp⟩
            rw [← TxRxResult.payload.inj he, ← hrest]
        · simp only [ne_eq, hlen, not_false_eq_true, if_true] at h
          obtain ⟨rfl, rfl⟩ : _ = p' ∧ TxRxResult.timeout = r := by simpa using h
          refine ⟨by simp, by simp, fun _ hwire => ?_, by simp⟩
          have hwire' : wire' = [] := hwire
          rw [hwire', List.append_nil]
          exact replyOf_short_tail (by omega)
    · rw [if_pos hs] at h
      obtain ⟨rfl, rfl⟩ : _ = p' ∧ TxRxResult.refused = r := by simpa using h
      exact ⟨by simp, fun _ => if_neg fun hall => hs hall.1, by simp, by simp⟩

/-! ## What both accept -/

/-- A reply is on the line exactly when the line begins with its frame. -/
theorem replyOf_prefix : (∃ rest, replyOf addr cmd line = some (body, rest)) ↔
    body.length ≤ 255 ∧ bmsBuildFrame addr cmd body <+: line := by
  constructor
  · rintro ⟨rest, hreply⟩
    obtain ⟨hlen, rfl⟩ := replyOf_iff.mp hreply
    exact ⟨hlen, List.prefix_append _ _⟩
  · rintro ⟨hlen, rest, rfl⟩
    exact ⟨rest, replyOf_iff.mpr ⟨hlen, rfl⟩⟩

theorem init_open (addr cmd : UInt8) {data : Bytes} (hdata : data.length ≤ 255) :
    (TxRx.init addr cmd data).phase ≠ .done := by
  rw [TxRx.init, if_neg (by omega)]
  exact nofun

/-- What the stepped transaction ends with, against the line. -/
theorem drive_reply {data : Bytes} {es : List Poll} {st : TxRx} {p : Port} {r : StepResult}
    (hdata : data.length ≤ 255)
    (hend : drive es (TxRx.init addr cmd data) ⟨line, []⟩ = (st, p, some r))
    (hcalls : ∀ e ∈ es, ¬e.Fails) (htime : r = .timeout → p.wire = []) :
    (∀ body, r = .done body →
      p.sent = bmsBuildFrame addr cmd data ∧ replyOf addr cmd line = some (body, p.wire)) ∧
      ((∀ body, r ≠ .done body) → replyOf addr cmd line = none) := by
  obtain ⟨hsound, hended⟩ :=
    drive_sound (init_meets addr cmd hdata line) (init_open addr cmd hdata) hend
  constructor
  · intro body he
    have hfits := (hsound.meets (by simp [he])).fits
    obtain ⟨hphase, hbody⟩ := hsound.done body he
    rw [hphase] at hfits
    rw [← hbody]
    exact hfits
  · intro hno
    cases r with
    | done body => exact absurd rfl (hno body)
    | timeout =>
      exact (hsound.meets (by simp)).starved (hsound.undone (by simp) (by simp)) (htime rfl)
    | error =>
      rcases hsound.error rfl with ⟨e, he, hf⟩ | hnone
      · exact absurd hf (hcalls e he)
      · exact hnone
    | needRead => exact absurd hended (by simp [StepResult.ended])
    | needWrite => exact absurd hended (by simp [StepResult.ended])
    | needTime => exact absurd hended (by simp [StepResult.ended])

theorem drive_accepted {data : Bytes} {es : List Poll} {st : TxRx} {p : Port} {r : StepResult}
    (hdata : data.length ≤ 255)
    (hend : drive es (TxRx.init addr cmd data) ⟨line, []⟩ = (st, p, some r))
    (hcalls : ∀ e ∈ es, ¬e.Fails) (htime : r = .timeout → p.wire = []) :
    r.accepted = (replyOf addr cmd line).map Prod.fst := by
  obtain ⟨hdone, hno⟩ := drive_reply hdata hend hcalls htime
  cases r with
  | done body => rw [(hdone body rfl).2, StepResult.accepted, Option.map_some]
  | timeout =>
    rw [hno nofun]
    rfl
  | error =>
    rw [hno nofun]
    rfl
  | needRead =>
    rw [hno nofun]
    rfl
  | needWrite =>
    rw [hno nofun]
    rfl
  | needTime =>
    rw [hno nofun]
    rfl

theorem bmsTxrx_accepted {data : Bytes} {ws vs : List Wait} {p : Port} {r : TxRxResult}
    (hdata : data.length ≤ 255) (h : bmsTxrx addr cmd data true ws vs ⟨line, []⟩ = (p, r))
    (hcalls : .broken ∉ ws ++ vs) (htime : r = .timeout → p.wire = []) :
    r.accepted = (replyOf addr cmd line).map Prod.fst := by
  obtain ⟨hpayload, hrefused, htimeout, hbroken⟩ := bmsTxrx_sound hdata h
  cases r with
  | payload body => rw [hpayload body rfl, TxRxResult.accepted, Option.map_some]
  | refused =>
    rw [hrefused rfl]
    rfl
  | timeout =>
    rw [htimeout rfl (htime rfl)]
    rfl
  | broken => exact absurd (hbroken rfl) hcalls

/-- The stepped transaction ends with a body exactly when the line begins with the frame of that
body, if no call of the system fails and only what is not on the line is late. It has then sent
its own frame once, and read nothing behind the reply. -/
theorem txrxStep_accepts {data : Bytes} {es : List Poll} {st : TxRx} {p : Port} {r : StepResult}
    (hdata : data.length ≤ 255)
    (hend : drive es (TxRx.init addr cmd data) ⟨line, []⟩ = (st, p, some r))
    (hcalls : ∀ e ∈ es, ¬e.Fails) (htime : r = .timeout → p.wire = []) (body : Bytes) :
    (r = .done body ↔ body.length ≤ 255 ∧ bmsBuildFrame addr cmd body <+: line) ∧
      (r = .done body →
        p.sent = bmsBuildFrame addr cmd data ∧ line = bmsBuildFrame addr cmd body ++ p.wire) := by
  have hdone := (drive_reply hdata hend hcalls htime).1
  have hbody := drive_accepted hdata hend hcalls htime
  refine ⟨?_, fun he => ⟨(hdone body he).1, (replyOf_iff.mp (hdone body he).2).2⟩⟩
  rw [← replyOf_prefix]
  constructor
  · exact fun he => ⟨p.wire, (hdone body he).2⟩
  · rintro ⟨rest, hreply⟩
    rw [hreply, Option.map_some] at hbody
    cases r with
    | done body' => rw [Option.some.inj hbody]
    | timeout => exact absurd hbody nofun
    | error => exact absurd hbody nofun
    | needRead => exact absurd hbody nofun
    | needWrite => exact absurd hbody nofun
    | needTime => exact absurd hbody nofun

/-- The frame is sent in two pieces, and the reply read in three. -/
def inPieces : List Poll :=
  [⟨false, false, [.moved 1, .again], []⟩, ⟨false, true, [.moved 9], [.moved 2, .again]⟩,
    ⟨false, true, [], [.moved 0, .interrupted, .moved 9]⟩]

theorem txrxStep_accepts_pieces : ∃ st p,
    drive inPieces (TxRx.init 1 0x33 []) ⟨bmsBuildFrame 1 0x33 [0x41] ++ [0x7E], []⟩ =
      (st, p, some (.done [0x41])) ∧
    (StepResult.done [0x41] = .done [0x41] ↔ [(0x41 : UInt8)].length ≤ 255 ∧
      bmsBuildFrame 1 0x33 [0x41] <+: bmsBuildFrame 1 0x33 [0x41] ++ [0x7E]) ∧
    (StepResult.done [0x41] = .done [0x41] → p.sent = bmsBuildFrame 1 0x33 [] ∧
      bmsBuildFrame 1 0x33 [0x41] ++ [0x7E] = bmsBuildFrame 1 0x33 [0x41] ++ p.wire) := by
  have hcalls : ∀ e ∈ inPieces, ¬e.Fails := by simp [inPieces, Poll.Fails]
  obtain ⟨st, p, hdrive⟩ : ∃ st p, drive inPieces (TxRx.init 1 0x33 [])
      ⟨bmsBuildFrame 1 0x33 [0x41] ++ [0x7E], []⟩ = (st, p, some (.done [0x41])) := ⟨_, _, rfl⟩
  have htime : StepResult.done [0x41] = .timeout → p.wire = [] := nofun
  exact ⟨st, p, hdrive, txrxStep_accepts (Nat.zero_le _) hdrive hcalls htime [0x41]⟩

/-- The blocking transaction, when its one `write` takes the whole frame, and the stepped one end
with the same body, or both without one, however the system hands out the line to each of them. -/
theorem txrx_agree {data : Bytes} {es : List Poll} {st : TxRx} {p p' : Port} {r : StepResult}
    {ws vs : List Wait} {r' : TxRxResult} (hdata : data.length ≤ 255)
    (hend : drive es (TxRx.init addr cmd data) ⟨line, []⟩ = (st, p, some r))
    (hcalls : ∀ e ∈ es, ¬e.Fails) (htime : r = .timeout → p.wire = [])
    (hblock : bmsTxrx addr cmd data true ws vs ⟨line, []⟩ = (p', r'))
    (hcalls' : .broken ∉ ws ++ vs) (htime' : r' = .timeout → p'.wire = []) :
    r.accepted = r'.accepted :=
  (drive_accepted hdata hend hcalls htime).trans (bmsTxrx_accepted hdata hblock hcalls' htime').symm

/-- Both take the reply in pieces. -/
theorem txrx_agree_pieces : ∃ st p p' r',
    drive inPieces (TxRx.init 1 0x33 []) ⟨bmsBuildFrame 1 0x33 [0x41], []⟩ =
      (st, p, some (.done [0x41])) ∧
    bmsTxrx 1 0x33 [] true [.moved 1, .interrupted, .moved 9] [.moved 0, .moved 9]
      ⟨bmsBuildFrame 1 0x33 [0x41], []⟩ = (p', r') ∧
    (StepResult.done [0x41]).accepted = r'.accepted := by
  have hcalls : ∀ e ∈ inPieces, ¬e.Fails := by simp [inPieces, Poll.Fails]
  obtain ⟨st, p, hdrive⟩ : ∃ st p, drive inPieces (TxRx.init 1 0x33 [])
      ⟨bmsBuildFrame 1 0x33 [0x41], []⟩ = (st, p, some (.done [0x41])) := ⟨_, _, rfl⟩
  obtain ⟨p', hblock⟩ : ∃ p', bmsTxrx 1 0x33 [] true [.moved 1, .interrupted, .moved 9]
      [.moved 0, .moved 9] ⟨bmsBuildFrame 1 0x33 [0x41], []⟩ = (p', .payload [0x41]) := ⟨_, rfl⟩
  have htime : StepResult.done [0x41] = .timeout → p.wire = [] := nofun
  have htime' : TxRxResult.payload [0x41] = .timeout → p'.wire = [] := nofun
  exact ⟨st, p, p', _, hdrive, hblock,
    txrx_agree (Nat.zero_le _) hdrive hcalls htime hblock (by simp) htime'⟩

end MoonFlare.Xd
