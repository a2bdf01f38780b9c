import MoonFlare.XdTransactions

/-!
# A reply that arrives is returned

Each call of the stepped transaction that the system helps sends a byte, gets
one or ends the transaction, and there are no more bytes than those of the
request and the reply. So a frame that arrives in time is returned after so
many calls, by the blocking transaction too, and every frame that the transport
builds is returned with the data it was built from.
-/

namespace MoonFlare.Xd

variable {addr cmd : UInt8} {tx line body rest data : Bytes} {st st' : TxRx} {p p' : Port}
  {rs : List Sys} {e : Poll}

/-- In a call that helps, the time is right, and the system takes and gives at least one byte. -/
structure Poll.Helps (e : Poll) : Prop where
  early : e.late = false
  settles : e.settled = true
  writes : ∃ k ws, e.writes = .moved k :: ws
  reads : ∃ k rs, e.reads = .moved k :: rs
  works : ¬e.Fails

/-- How many bytes a transaction has sent and got. -/
def count (st : TxRx) (p : Port) : ℕ := p.sent.length + st.rxHead.length + st.rxTail.length

theorem recvLoop_moved {n k : ℕ} {rs' : List Sys} {got wire got' wire' : Bytes} {r : Recv}
    (h : recvLoop n (.moved k :: rs) got wire = (got', wire', rs', r)) (hgot : got.length < n)
    (hwire : wire ≠ []) : got.length < got'.length := by
  rw [recvLoop, if_neg (by omega), if_neg hwire] at h
  have hpos : 0 < wire.length := List.length_pos_iff.mpr hwire
  have hlen : (got ++ wire.take (min (k + 1) (n - got.length))).length ≤ n := by
    rw [List.length_append, List.length_take]
    omega
  have hgrows := (recvLoop_spec h hlen).grows
  rw [List.length_append, List.length_take] at hgrows
  omega

theorem checkTail_parts (st : TxRx) :
    st.checkTail.1.rxHead = st.rxHead ∧ st.checkTail.1.rxTail = st.rxTail := by
  unfold TxRx.checkTail
  simp only
  split_ifs <;> exact ⟨rfl, rfl⟩

/-- What the tail phase got. -/
theorem tailPhase_parts (st : TxRx) (p : Port) (rs : List Sys) :
    (st.tailPhase p rs).2.1.sent = p.sent ∧ (st.tailPhase p rs).1.rxHead = st.rxHead ∧
      (st.tailPhase p rs).1.rxTail = (recvLoop st.rxTailNeed rs st.rxTail p.wire).1 := by
  unfold TxRx.tailPhase
  rcases recvLoop st.rxTailNeed rs st.rxTail p.wire with ⟨got, wire, rs', r⟩
  cases r with
  | full =>
    have hparts := checkTail_parts { st with rxTail := got }
    exact ⟨rfl, hparts.1, hparts.2⟩
  | wait => exact ⟨rfl, rfl, rfl⟩
  | broken x => exact ⟨rfl, rfl, rfl⟩

theorem tailPhase_count (hlen : st.rxTail.length ≤ st.rxTailNeed) :
    count st p ≤ count (st.tailPhase p rs).1 (st.tailPhase p rs).2.1 := by
  obtain ⟨hsent, hhead, htail⟩ := tailPhase_parts st p rs
  rcases hloop : recvLoop st.rxTailNeed rs st.rxTail p.wire with ⟨got, wire, rs', r⟩
  have hgrows := (recvLoop_spec hloop hlen).grows
  have hgot : (st.tailPhase p rs).1.rxTail = got := htail.trans (by rw [hloop])
  rw [count, count, hsent, hhead, hgot]
  omega

theorem tailPhase_grows {k : ℕ} (hlen : st.rxTail.length < st.rxTailNeed) (hwire : p.wire ≠ []) :
    count st p <
      count (st.tailPhase p (.moved k :: rs)).1 (st.tailPhase p (.moved k :: rs)).2.1 := by
  obtain ⟨hsent, hhead, htail⟩ := tailPhase_parts st p (.moved k :: rs)
  rcases hloop : recvLoop st.rxTailNeed (.moved k :: rs) st.rxTail p.wire with ⟨got, wire, rs', r⟩
  have hgrows := recvLoop_moved hloop hlen hwire
  have hgot : (st.tailPhase p (.moved k :: rs)).1.rxTail = got := htail.trans (by rw [hloop])
  rw [count, count, hsent, hhead, hgot]
  omega

/-- A header that is accepted. -/
theorem checkHead_parts {r : Option StepResult} (h : st.checkHead = (st', r)) :
    st'.rxHead = st.rxHead ∧ st'.rxTail = st.rxTail ∧ (r = none → 2 ≤ st'.rxTailNeed) ∧
      (∀ x, r = some x → x.ended = true) := by
  unfold TxRx.checkHead at h
  split at h
  · split_ifs at h <;> obtain ⟨rfl, rfl⟩ := Prod.mk.inj h <;>
      simp [StepResult.ended, TxRx.setErr]
  · obtain ⟨rfl, rfl⟩ := Prod.mk.inj h
    simp [StepResult.ended]

theorem headPhase_grows {k : ℕ} (hlen : st.rxHead.length < 4) (htail : st.rxTail = [])
    (hwire : p.wire ≠ []) :
    (st.headPhase p (.moved k :: rs)).2.2.ended = true ∨
      count st p <
        count (st.headPhase p (.moved k :: rs)).1 (st.headPhase p (.moved k :: rs)).2.1 := by
  unfold TxRx.headPhase
  rcases hloop : recvLoop 4 (.moved k :: rs) st.rxHead p.wire with ⟨got, wire, rs', r⟩
  have hgrows := recvLoop_moved hloop hlen hwire
  cases r with
  | wait =>
    refine Or.inr ?_
    simp only [count]
    omega
  | broken x => exact Or.inl rfl
  | full =>
    simp only
    rcases hcheck : TxRx.checkHead { st with rxHead := got } with ⟨st', r⟩
    obtain ⟨hhead', htail', hneed, hended⟩ := checkHead_parts hcheck
    cases r with
    | some x => exact Or.inl (hended x rfl)
    | none =>
      refine Or.inr ?_
      simp only
      have hempty : st'.rxTail.length ≤ st'.rxTailNeed := by simp [htail', htail]
      refine Nat.lt_of_lt_of_le ?_ (tailPhase_count hempty)
      simp only [count, hhead', htail']
      omega

/-- The writes of a call that helps. -/
theorem sendLoop_count {ws : List Sys} {r : Option StepResult}
    (h : TxRx.sendLoop ws st p = (st', p', r)) : p'.wire = p.wire ∧ st'.rxHead = st.rxHead ∧
      st'.rxTail = st.rxTail ∧ p.sent.length ≤ p'.sent.length := by
  induction ws generalizing st p with
  | nil =>
    rw [TxRx.sendLoop] at h
    split_ifs at h <;> obtain ⟨rfl, rfl, rfl⟩ : _ = st' ∧ p = p' ∧ _ = r := by simpa using h
    · exact ⟨rfl, rfl, rfl, Nat.le_refl _⟩
    · exact ⟨rfl, rfl, rfl, Nat.le_refl _⟩
  | cons w ws ih =>
    unfold TxRx.sendLoop at h
    by_cases hfull : st.tx.length ≤ st.txSent
    · rw [if_pos hfull] at h
      obtain ⟨rfl, rfl, rfl⟩ : _ = st' ∧ p = p' ∧ none = r := by simpa using h
      exact ⟨rfl, rfl, rfl, Nat.le_refl _⟩
    · rw [if_neg hfull] at h
      cases w with
      | moved more =>
        obtain ⟨hwire, hhead, htail, hsent⟩ := ih h
        refine ⟨hwire, hhead, htail, Nat.le_trans ?_ hsent⟩
        rw [List.length_append]
        exact Nat.le_add_right _ _
      | interrupted => exact ih h
      | again =>
        obtain ⟨rfl, rfl, rfl⟩ : st = st' ∧ p = p' ∧ some .needWrite = r := by simpa using h
        exact ⟨rfl, rfl, rfl, Nat.le_refl _⟩
      | broken x =>
        obtain ⟨rfl, rfl, rfl⟩ : _ = st' ∧ p = p' ∧ some .error = r := by simpa using h
        exact ⟨rfl, rfl, rfl, Nat.le_refl _⟩

theorem sendLoop_moved {k : ℕ} {ws : List Sys} {r : StepResult}
    (h : TxRx.sendLoop (.moved k :: ws) st p = (st', p', some r)) : count st p < count st' p' := by
  unfold TxRx.sendLoop at h
  by_cases hfull : st.tx.length ≤ st.txSent
  · rw [if_pos hfull] at h
    exact absurd h (by simp)
  · rw [if_neg hfull] at h
    obtain ⟨-, hhead, htail, hsent⟩ := sendLoop_count h
    simp only [List.length_append, List.length_take, List.length_drop] at hsent
    simp only [count, hhead, htail]
    omega

/-- A call that helps ends the transaction, sends or gets a byte, as long as the reply is not
read to its end. -/
theorem step_grows (hm : Meets addr cmd tx line st p) (hopen : st.phase ≠ .done) (he : e.Helps)
    (hreply : replyOf addr cmd line ≠ none) : (st.step p e).2.2.ended = true ∨
      count st p < count (st.step p e).1 (st.step p e).2.1 := by
  obtain ⟨k, rs, hreads⟩ := he.reads
  obtain ⟨l, ws, hwrites⟩ := he.writes
  have hwire {st : TxRx} {p : Port} (hm : Meets addr cmd tx line st p) (hopen : st.phase ≠ .done) :
      p.wire ≠ [] := fun h => hreply (hm.starved hopen h)
  have hsettled {st : TxRx} {p : Port} (hm : Meets addr cmd tx line st p)
      (hphase : st.phase = .settle) : (st.settlePhase p e).2.2.ended = true ∨
        count st p < count (st.settlePhase p e).1 (st.settlePhase p e).2.1 := by
    have hfits : PhaseFits addr cmd tx line st p .settle := hphase ▸ hm.fits
    rw [TxRx.settlePhase, if_pos he.settles, hreads]
    have hlen : st.rxHead.length < 4 := by simp [hfits.2.1]
    exact @headPhase_grows { st with phase := .head } p rs k hlen hfits.2.2
      (hwire hm (by simp [hphase]))
  have hfits := hm.fits
  unfold TxRx.step
  cases hphase : st.phase with
  | refused =>
    rw [hphase] at hfits
    exact hfits.elim
  | write =>
    simp only [he.early]
    rcases hloop : TxRx.sendLoop e.writes st p with ⟨st', p', r⟩
    cases r with
    | some r =>
      rw [hwrites] at hloop
      exact Or.inr (sendLoop_moved hloop)
    | none =>
      obtain ⟨-, hhead, htail, hsent⟩ := sendLoop_count hloop
      rcases sendLoop_spec hloop hm hphase with ⟨-, hm', hphase'⟩ | ⟨hr, -⟩ | ⟨hr, -⟩
      · refine (hsettled hm' hphase').imp_right fun hlt => Nat.lt_of_le_of_lt ?_ hlt
        simp only [count, hhead, htail]
        omega
      · exact absurd hr (by simp)
      · exact absurd hr (by simp)
  | settle =>
    simp only [he.early]
    exact hsettled hm hphase
  | head =>
    rw [hphase] at hfits
    simp only [he.early, hreads]
    exact headPhase_grows hfits.2.1 hfits.2.2 (hwire hm hopen)
  | tail =>
    rw [hphase] at hfits
    simp only [he.early, hreads]
    exact Or.inr (tailPhase_grows hfits.2.1 (hwire hm hopen))
  | done => exact absurd hphase hopen

/-- A transaction that has not ended has not sent and got all that there is. -/
theorem Meets.count_lt (hm : Meets addr cmd tx line st p) (hopen : st.phase ≠ .done)
    (hreply : replyOf addr cmd line = some (body, rest)) :
    count st p < tx.length + body.length + 6 := by
  have hfits := hm.fits
  obtain ⟨hbody, hframe⟩ := replyOf_iff.mp hreply
  rw [count]
  cases hphase : st.phase with
  | refused =>
    rw [hphase] at hfits
    exact hfits.elim
  | write =>
    rw [hphase] at hfits
    obtain ⟨-, -, hsent, hhead, htail⟩ := hfits
    rw [hsent, hhead, htail, List.length_take, List.length_nil]
    omega
  | settle =>
    rw [hphase] at hfits
    obtain ⟨hsent, hhead, htail⟩ := hfits
    rw [hsent, hhead, htail, List.length_nil]
    omega
  | head =>
    rw [hphase] at hfits
    obtain ⟨hsent, hhead, htail⟩ := hfits
    rw [hsent, htail, List.length_nil]
    omega
  | tail =>
    rw [hphase] at hfits
    obtain ⟨hsent, htail, len, hhead, hneed⟩ := hfits
    have hlen : len.toNat = body.length := by
      have hline := hframe.symm.trans hm.hasLine
      rw [hhead, bmsBuildFrame_eq] at hline
      simp only [List.cons_append, List.nil_append, List.cons.injEq] at hline
      rw [← hline.2.2.2.1, UInt8.toNat_ofNat']
      omega
    simp only [hsent, hhead, List.length_cons, List.length_nil]
    omega
  | done => exact absurd hphase hopen

/-- As many calls that help as there are bytes to send and to get end the transaction. -/
theorem drive_ends {es : List Poll} (hm : Meets addr cmd tx line st p) (hopen : st.phase ≠ .done)
    (hhelp : ∀ e ∈ es, e.Helps) (hreply : replyOf addr cmd line = some (body, rest))
    (hmany : tx.length + body.length + 6 ≤ count st p + es.length) :
    ∃ st' p' r, drive es st p = (st', p', some r) := by
  induction es generalizing st p with
  | nil =>
    have hlt := hm.count_lt hopen hreply
    rw [List.length_nil] at hmany
    omega
  | cons e es ih =>
    have hsound := step_sound hm hopen e
    have hgrows := step_grows hm hopen (hhelp e List.mem_cons_self) (by simp [hreply])
    rw [drive]
    rcases hstep : st.step p e with ⟨st₁, p₁, r₁⟩
    rw [hstep] at hsound hgrows
    by_cases hend : r₁.ended = true
    · exact ⟨st₁, p₁, r₁, by simp [hend]⟩
    · simp only [hend]
      have hne : r₁ ≠ .error := by
        rintro rfl
        exact hend rfl
      have hnd : ∀ body, r₁ ≠ .done body := by
        rintro body rfl
        exact hend rfl
      have hlt := hgrows.resolve_left hend
      refine ih (hsound.meets hne) (hsound.undone hne hnd)
        (fun x hx => hhelp x (List.mem_cons_of_mem e hx)) ?_
      rw [List.length_cons] at hmany
      simp only at hlt
      omega

/-! ## The blocking reads -/

/-- The round moves bytes. -/
def Wait.moves : Wait → Bool
  | .moved _ => true
  | _ => false

/-- The time is not over, and nothing fails. -/
def Wait.works : Wait → Bool
  | .moved _ | .interrupted => true
  | _ => false

/-- With enough rounds that move bytes the whole length is read. -/
theorem serialReadExact_full {n : ℕ} {ws : List Wait} {got wire : Bytes} (hgot : got.length ≤ n)
    (hworks : ∀ w ∈ ws, w.works = true) (hmany : n ≤ got.length + ws.countP Wait.moves)
    (hwire : n ≤ got.length + wire.length) :
    ∃ got' wire' ws', serialReadExact n ws got wire = (some got', wire', ws') ∧
      got'.length = n ∧ got' ++ wire' = got ++ wire := by
  induction ws generalizing got wire with
  | nil =>
    rw [List.countP_nil] at hmany
    exact ⟨got, wire, [], rfl, by omega, rfl⟩
  | cons w ws ih =>
    unfold serialReadExact
    by_cases hfull : n ≤ got.length
    · rw [if_pos hfull]
      exact ⟨got, wire, _, rfl, by omega, rfl⟩
    · rw [if_neg hfull]
      have hrest : ∀ w ∈ ws, w.works = true := fun x hx => hworks x (List.mem_cons_of_mem w hx)
      cases w with
      | moved more =>
        rw [List.countP_cons_of_pos rfl] at hmany
        have htaken : (wire.take (min (more + 1) (n - got.length))).length =
            min (min (more + 1) (n - got.length)) wire.length := List.length_take
        have hone : 1 ≤ (wire.take (min (more + 1) (n - got.length))).length := by omega
        have hle : (got ++ wire.take (min (more + 1) (n - got.length))).length ≤ n := by
          rw [List.length_append]
          omega
        have hmany' : n ≤ (got ++ wire.take (min (more + 1) (n - got.length))).length +
            ws.countP Wait.moves := by
          rw [List.length_append]
          omega
        have hwire' : n ≤ (got ++ wire.take (min (more + 1) (n - got.length))).length +
            (wire.drop (min (more + 1) (n - got.length))).length := by
          rw [List.length_append, List.length_drop]
          omega
        obtain ⟨got', wire', ws', hloop, hlen, hkept⟩ := ih hle hrest hmany' hwire'
        exact ⟨got', wire', ws', hloop, hlen, by
          rw [hkept, List.append_assoc, List.take_append_drop]⟩
      | interrupted =>
        rw [List.countP_cons_of_neg (by simp [Wait.moves])] at hmany
        exact ih hgot hrest hmany hwire
      | expired => exact absurd (hworks .expired List.mem_cons_self) (by simp [Wait.works])
      | broken => exact absurd (hworks .broken List.mem_cons_self) (by simp [Wait.works])

/-- `bms_txrx` when the reply arrives in time. -/
theorem bmsTxrx_delivers {ws vs : List Wait} (hdata : data.length ≤ 255) (hbody : body.length ≤ 255)
    (hws : ∀ w ∈ ws, w.works = true) (hvs : ∀ w ∈ vs, w.works = true)
    (hmany : 4 ≤ ws.countP Wait.moves) (hmany' : body.length + 2 ≤ vs.countP Wait.moves) :
    bmsTxrx addr cmd data true ws vs ⟨bmsBuildFrame addr cmd body ++ rest, []⟩ =
      (⟨rest, bmsBuildFrame addr cmd data⟩, .payload body) := by
  have hn : (UInt8.ofNat body.length).toNat = body.length := by
    rw [UInt8.toNat_ofNat']
    omega
  obtain ⟨head, wire, ws', hread, hlen, hkept⟩ := @serialReadExact_full 4 ws []
    (bmsBuildFrame addr cmd body ++ rest) (Nat.zero_le 4) hws (by simpa using hmany)
    (by simp [bmsBuildFrame_eq])
  have hsplit : head ++ wire = [soi, addr, cmd, UInt8.ofNat body.length] ++ ((body ++
      [bmsCheck ([soi, addr, cmd, UInt8.ofNat body.length] ++ body), eoi]) ++ rest) := by
    rw [hkept, bmsBuildFrame_eq, List.nil_append, List.append_assoc]
  obtain ⟨rfl, rfl⟩ := List.append_inj hsplit hlen
  obtain ⟨tail, wire, vs', hread', hlen', hkept'⟩ := @serialReadExact_full (body.length + 2) vs []
    ((body ++ [bmsCheck ([soi, addr, cmd, UInt8.ofNat body.length] ++ body), eoi]) ++ rest)
    (Nat.zero_le _) hvs (by simpa using hmany') (by simp)
  obtain ⟨rfl, rfl⟩ := List.append_inj (hkept'.trans (List.nil_append _)) (by simp [hlen'])
  have hfits : ¬bmsMaxFrame < body.length + 6 := by
    rw [bmsMaxFrame]
    omega
  have hreply : replyOf addr cmd (bmsBuildFrame addr cmd body ++ wire) = some (body, wire) :=
    replyOf_iff.mpr ⟨hbody, rfl⟩
  rw [bmsBuildFrame_eq, List.append_assoc] at hreply
  simp only [bmsTxrx, if_neg (show ¬0xFF < data.length by omega), Bool.not_true,
    Bool.false_eq_true, if_false, hread, hn, if_neg hfits, hread', hlen', ne_eq, not_true_eq_false,
    List.nil_append]
  rw [checkReply_eq (hlen'.trans (by rw [hn])), hreply]

/-- Every frame with the address and the command of a request is returned by both transactions,
with the data it was built from, when it arrives in time: by the stepped one after at most so many
calls as there are bytes to send and to get (the header, check and end of a reply are six), and
nothing behind the frame is read. -/
theorem reply_delivered {es : List Poll} {ws vs : List Wait} (hdata : data.length ≤ 255)
    (hbody : body.length ≤ 255) (hhelp : ∀ e ∈ es, e.Helps)
    (hcalls : (bmsBuildFrame addr cmd data).length + body.length + 6 ≤ es.length)
    (hws : ∀ w ∈ ws, w.works = true) (hvs : ∀ w ∈ vs, w.works = true)
    (hmany : 4 ≤ ws.countP Wait.moves) (hmany' : body.length + 2 ≤ vs.countP Wait.moves) :
    (∃ st, drive es (TxRx.init addr cmd data) ⟨bmsBuildFrame addr cmd body ++ rest, []⟩ =
        (st, ⟨rest, bmsBuildFrame addr cmd data⟩, some (.done body))) ∧
      bmsTxrx addr cmd data true ws vs ⟨bmsBuildFrame addr cmd body ++ rest, []⟩ =
        (⟨rest, bmsBuildFrame addr cmd data⟩, .payload body) := by
  refine ⟨?_, bmsTxrx_delivers hdata hbody hws hvs hmany hmany'⟩
  have hreply : replyOf addr cmd (bmsBuildFrame addr cmd body ++ rest) = some (body, rest) :=
    replyOf_iff.mpr ⟨hbody, rfl⟩
  have hm := init_meets addr cmd hdata (bmsBuildFrame addr cmd body ++ rest)
  obtain ⟨st, p, r, hdrive⟩ := drive_ends hm (init_open addr cmd hdata) hhelp hreply (by omega)
  have hworks : ∀ e ∈ es, ¬e.Fails := fun e he => (hhelp e he).works
  have htime : r = .timeout → p.wire = [] := fun hr => by
    obtain ⟨e, he, hlate⟩ := (drive_sound hm (init_open addr cmd hdata) hdrive).1.timely hr
    rw [(hhelp e he).early] at hlate
    exact absurd hlate Bool.false_ne_true
  have haccepted := drive_accepted hdata hdrive hworks htime
  rw [hreply, Option.map_some] at haccepted
  cases r with
  | done body' =>
    obtain rfl : body' = body := Option.some.inj haccepted
    obtain ⟨hsent, hrest⟩ := (drive_reply hdata hdrive hworks htime).1 body' rfl
    rw [hreply] at hrest
    refine ⟨st, ?_⟩
    rw [hdrive, (Prod.mk.inj (Option.some.inj hrest)).2, ← hsent]
  | timeout => exact absurd haccepted nofun
  | error => exact absurd haccepted nofun
  | needRead => exact absurd haccepted nofun
  | needWrite => exact absurd haccepted nofun
  | needTime => exact absurd haccepted nofun

/-- One byte a call. -/
theorem reply_delivered_bytewise :
    (∃ st, drive (List.replicate 13 ⟨false, true, [.moved 0], [.moved 0]⟩) (TxRx.init 1 0x33 [])
        ⟨bmsBuildFrame 1 0x33 [0x41] ++ [], []⟩ =
        (st, ⟨[], bmsBuildFrame 1 0x33 []⟩, some (.done [0x41]))) ∧
      bmsTxrx 1 0x33 [] true (List.replicate 4 (.moved 0)) (List.replicate 3 (.moved 0))
        ⟨bmsBuildFrame 1 0x33 [0x41] ++ [], []⟩ =
        (⟨[], bmsBuildFrame 1 0x33 []⟩, .payload [0x41]) := by
  refine reply_delivered (Nat.zero_le _) (by simp) (fun e he => ?_) ?_ ?_ ?_ ?_ ?_
  · rw [List.eq_of_mem_replicate he]
    exact ⟨rfl, rfl, ⟨0, [], rfl⟩, ⟨0, [], rfl⟩, by simp [Poll.Fails]⟩
  · rw [List.length_replicate, bmsBuildFrame_eq]
    simp
  · exact fun w hw => List.eq_of_mem_replicate hw ▸ rfl
  · exact fun w hw => List.eq_of_mem_replicate hw ▸ rfl
  · rw [List.countP_replicate]
    exact Nat.le_refl 4
  · rw [List.countP_replicate]
    exact Nat.le_refl 3

end MoonFlare.Xd
