import MoonFlare.JkFrames

/-!
# Frame assembly is a scan of the stream

As long as each notification fits the buffer, the frames handed out are those of a
scan of the whole stream, and every byte is in a frame, dropped or still in the
buffer. A notification that does not fit leaves the buffer full.
-/

namespace MoonFlare.Jk

open FrameScan Runs

/-! ## Looking for a header -/

theorem jkFormat_starts (buf : Bytes) (i : ℕ) : jkFormat.starts (buf.drop i) = headerAt buf i := rfl

/-- The header found is in the buffer, and none is before it. -/
theorem findHeader_some {buf : Bytes} {start pos : ℕ} (h : findHeader buf start = some pos) :
    start ≤ pos ∧ pos + 4 ≤ buf.length ∧ headerAt buf pos = true ∧
      ∀ i < pos, start ≤ i → headerAt buf i = false := by
  obtain ⟨hpos, hrange, hbefore⟩ := List.find?_range_eq_some.mp h
  rw [Bool.and_eq_true, decide_eq_true_iff] at hpos
  refine ⟨hpos.1, ?_, hpos.2, fun i hi hstart => ?_⟩
  · have hlt := List.mem_range.mp hrange
    omega
  · have hnot := hbefore i hi
    simpa [hstart] using hnot

/-- No header is found where none is. -/
theorem findHeader_none {buf : Bytes} {start : ℕ} (h : findHeader buf start = none) {i : ℕ}
    (hstart : start ≤ i) (hi : i + 4 ≤ buf.length) : headerAt buf i = false := by
  have hnot := List.find?_range_eq_none.mp h i (by omega)
  simpa [hstart] using hnot

/-! ## A round, the loop, a notification -/

/-- How an assembler gets from one buffer to another: these frames are scanned of
it, and the bytes that are not in them are dropped. -/
structure Drained (a a' : JkFrameAssembler) (fs : List Bytes) : Prop where
  scanned : jkFormat.Scanned a.buf fs a'.buf
  counted : ∃ n, a'.dropped = a.dropped + UInt32.ofNat n ∧
    a.buf.length = jkFrameSize * fs.length + n + a'.buf.length

theorem Drained.refl (a : JkFrameAssembler) : Drained a a [] :=
  ⟨Format.Scanned.refl a.buf, 0, by simp, by simp⟩

theorem Drained.trans {a b c : JkFrameAssembler} {fs gs : List Bytes} (hab : Drained a b fs)
    (hbc : Drained b c gs) : Drained a c (fs ++ gs) := by
  obtain ⟨n, hn, hlen⟩ := hab.counted
  obtain ⟨m, hm, hlen'⟩ := hbc.counted
  refine ⟨hab.scanned.trans hbc.scanned, n + m, ?_, ?_⟩
  · rw [hm, hn, UInt32.ofNat_add, UInt32.add_assoc]
  · rw [List.length_append, Nat.mul_add]
    omega

/-- The count of corrupt frames is no part of it. -/
theorem Drained.of_corrupt {a a' : JkFrameAssembler} {fs : List Bytes} (corrupt : UInt32)
    (h : Drained { a with corrupt := corrupt } a' fs) : Drained a a' fs := ⟨h.scanned, h.counted⟩

/-- Bytes dropped where no header is. -/
theorem drained_dropBytes {a : JkFrameAssembler} {n : ℕ} (hn : n ≤ a.buf.length)
    (hscan : jkFormat.Scanned a.buf [] (a.buf.drop n)) : Drained a (dropBytes a n) [] := by
  refine ⟨hscan, n, rfl, ?_⟩
  simp only [dropBytes, List.length_drop, List.length_nil]
  omega

/-- What a round of the loop does. -/
def RoundDrained (a : JkFrameAssembler) : Round → Prop
  | .stop a' => Drained a a' [] ∧ a'.buf.length < jkFrameSize
  | .again a' => Drained a a' [] ∧ a'.buf.length < a.buf.length
  | .frame a' f => Drained a a' [f] ∧ a'.buf.length + jkFrameSize = a.buf.length

/-- The bytes after a frame whose check failed, up to the next header. -/
theorem scanned_corrupt {buf : Bytes} (hhead : headerAt buf 0 = true)
    (hlen : jkFrameSize ≤ buf.length) (hbad : frameOk (buf.take jkFrameSize) = false) {n : ℕ}
    (hn : 0 < n) (hnext : ∀ i < n, 1 ≤ i → headerAt buf i = false)
    (hroom : ∀ i < n, i + 4 ≤ buf.length) : jkFormat.Scanned buf [] (buf.drop n) :=
  Format.scanned_invalid (F := jkFormat) (s := buf) hhead hlen hbad hn
    (fun i hi hpos => hnext i hi hpos) hroom

/-- Each round of the loop scans what it takes from the buffer. -/
theorem drainRound_drained (a : JkFrameAssembler) : RoundDrained a (drainRound a) := by
  have hsize : jkFrameSize = 300 := rfl
  rw [drainRound]
  cases hfind : findHeader a.buf 0 with
  | none =>
    dsimp only
    by_cases hlong : 4 < a.buf.length
    · rw [if_pos hlong]
      refine ⟨drained_dropBytes (by omega) (Format.scanned_drop (fun i hi => ?_) fun i hi => ?_), ?_⟩
      · exact findHeader_none hfind (Nat.zero_le i) (by omega)
      · show i + 4 ≤ a.buf.length
        omega
      · simp only [dropBytes, List.length_drop]
        omega
    · rw [if_neg hlong]
      exact ⟨Drained.refl a, by omega⟩
  | some hpos =>
    obtain ⟨-, hroom, hhead, hbefore⟩ := findHeader_some hfind
    dsimp only
    by_cases hskip : 0 < hpos
    · rw [if_pos hskip]
      refine ⟨drained_dropBytes (by omega) (Format.scanned_drop (fun i hi => ?_) fun i hi => ?_), ?_⟩
      · exact hbefore i hi (Nat.zero_le i)
      · show i + 4 ≤ a.buf.length
        omega
      · simp only [dropBytes, List.length_drop]
        omega
    · obtain rfl : hpos = 0 := by omega
      rw [if_neg hskip]
      by_cases hshort : a.buf.length < jkFrameSize
      · rw [if_pos hshort]
        exact ⟨Drained.refl a, hshort⟩
      rw [if_neg hshort]
      have hlen : jkFrameSize ≤ a.buf.length := by omega
      cases hok : frameOk (a.buf.take jkFrameSize) with
      | true =>
        rw [if_pos rfl]
        refine ⟨⟨Format.scanned_valid hhead hlen hok, 0, by simp, ?_⟩, ?_⟩
        · simp only [List.length_drop, List.length_cons, List.length_nil]
          omega
        · simp only [List.length_drop]
          omega
      | false =>
        rw [if_neg Bool.false_ne_true]
        cases hresync : findHeader a.buf 1 with
        | some next =>
          obtain ⟨hnext, hnextRoom, -, hbetween⟩ := findHeader_some hresync
          refine ⟨(drained_dropBytes (by dsimp only; omega) ?_).of_corrupt (a.corrupt + 1), ?_⟩
          · exact scanned_corrupt hhead hlen hok (by omega) hbetween fun i hi => by omega
          · simp only [dropBytes, List.length_drop]
            omega
        | none =>
          dsimp only
          rw [if_pos (by omega)]
          refine ⟨(drained_dropBytes (by dsimp only; omega) ?_).of_corrupt (a.corrupt + 1), ?_⟩
          · exact scanned_corrupt hhead hlen hok (by omega)
              (fun i hi hone => findHeader_none hresync hone (by omega)) fun i hi => by omega
          · simp only [dropBytes, List.length_drop]
            omega

/-- The loop hands out at most as many frames as it may, and ends below a frame
when it had less. -/
theorem drainLoop_drained {fuel : ℕ} {a : JkFrameAssembler} (hfuel : a.buf.length < fuel)
    (maxFrames : ℕ) :
    Drained a (drainLoop fuel a maxFrames).1 (drainLoop fuel a maxFrames).2 ∧
      ((drainLoop fuel a maxFrames).2.length < maxFrames →
        (drainLoop fuel a maxFrames).1.buf.length < jkFrameSize) := by
  have hsize : jkFrameSize = 300 := rfl
  induction fuel generalizing a maxFrames with
  | zero => omega
  | succ fuel ih =>
    rw [drainLoop]
    by_cases hgo : 0 < maxFrames ∧ 4 ≤ a.buf.length
    · rw [if_pos hgo]
      have hround := drainRound_drained a
      cases hcase : drainRound a with
      | stop a' =>
        rw [hcase] at hround
        exact ⟨hround.1, fun _ => hround.2⟩
      | again a' =>
        rw [hcase] at hround
        have hrest := ih (a := a') (by have := hround.2; omega) maxFrames
        exact ⟨hround.1.trans hrest.1, hrest.2⟩
      | frame a' f =>
        rw [hcase] at hround
        have hrest := ih (a := a') (by have := hround.2; omega) (maxFrames - 1)
        refine ⟨hround.1.trans hrest.1, fun hless => hrest.2 ?_⟩
        simp only [List.length_cons] at hless
        omega
    · rw [if_neg hgo]
      refine ⟨Drained.refl a, fun hless => ?_⟩
      dsimp only [List.length_nil] at hless ⊢
      omega

/-- The notification's bytes, its markers apart, fit the buffer. -/
def Fits (s : Reassembly) (chunk : Bytes) : Prop :=
  s.asm.buf.length + (stripAt chunk).length ≤ jkBufSize

instance (s : Reassembly) (chunk : Bytes) : Decidable (Fits s chunk) := by
  unfold Fits
  infer_instance

/-- The assembler is asked for one frame. -/
theorem jkAssemblerFeed_drained {a : JkFrameAssembler} {chunk : Bytes}
    (hfits : a.buf.length + (stripAt chunk).length ≤ jkBufSize) :
    Drained { a with buf := a.buf ++ stripAt chunk } (jkAssemblerFeed a chunk 1).1
        (jkAssemblerFeed a chunk 1).2 ∧
      ((jkAssemblerFeed a chunk 1).2 = [] →
        (jkAssemblerFeed a chunk 1).1.buf.length < jkFrameSize) := by
  rw [jkAssemblerFeed]
  dsimp only
  by_cases hidle : stripAt chunk = [] ∧ a.buf.length < jkFrameSize
  · rw [if_pos hidle, hidle.1, List.append_nil]
    exact ⟨Drained.refl a, fun _ => hidle.2⟩
  · rw [if_neg hidle, if_neg (by omega)]
    obtain ⟨hdrained, hshort⟩ :=
      drainLoop_drained (a := { a with buf := a.buf ++ stripAt chunk }) (Nat.lt_succ_self _) 1
    exact ⟨hdrained, fun hnone => hshort (by rw [hnone]; exact one_pos)⟩

/-- Bytes that do not fit leave the buffer full. -/
theorem jkAssemblerFeed_of_not_fits {a : JkFrameAssembler} {chunk : Bytes}
    (hbuf : a.buf.length ≤ jkBufSize)
    (hfits : ¬a.buf.length + (stripAt chunk).length ≤ jkBufSize) :
    (jkAssemblerFeed a chunk 1).1.buf.length = jkBufSize ∧ (jkAssemblerFeed a chunk 1).2 = [] := by
  have hidle : ¬(stripAt chunk = [] ∧ a.buf.length < jkFrameSize) := by
    rintro ⟨hnone, -⟩
    rw [hnone] at hfits
    exact hfits (by simpa using hbuf)
  rw [jkAssemblerFeed]
  dsimp only
  rw [if_neg hidle, if_pos (by omega)]
  refine ⟨?_, rfl⟩
  simp only [List.length_append, List.length_take]
  omega

/-! ## What notifications bring -/

/-- From one state to another these bytes came: the new frames are scanned of the
old buffer and the bytes, the rest is shorter than a frame, and what is neither in
a frame nor in the rest is dropped. -/
structure Fed (s s' : Reassembly) (bytes : Bytes) : Prop where
  short : s'.asm.buf.length < jkFrameSize
  scanned : ∃ fs, s'.frames = s.frames ++ fs ∧
    jkFormat.Scanned (s.asm.buf ++ bytes) fs s'.asm.buf
  counted : ∃ n, s'.asm.dropped = s.asm.dropped + UInt32.ofNat n ∧
    jkFrameSize * s.frames.length + s.asm.buf.length + bytes.length =
      jkFrameSize * s'.frames.length + n + s'.asm.buf.length

theorem Fed.refl {s : Reassembly} (h : s.asm.buf.length < jkFrameSize) : Fed s s [] := by
  refine ⟨h, ⟨[], by simp, ?_⟩, 0, by simp, by simp⟩
  rw [List.append_nil]
  exact Format.Scanned.refl s.asm.buf

theorem Fed.trans {s t u : Reassembly} {bytes bytes' : Bytes} (hst : Fed s t bytes)
    (htu : Fed t u bytes') : Fed s u (bytes ++ bytes') := by
  obtain ⟨fs, hfs, hscan⟩ := hst.scanned
  obtain ⟨gs, hgs, hscan'⟩ := htu.scanned
  obtain ⟨n, hn, hlen⟩ := hst.counted
  obtain ⟨m, hm, hlen'⟩ := htu.counted
  refine ⟨htu.short, ⟨fs ++ gs, ?_, ?_⟩, n + m, ?_, ?_⟩
  · rw [hgs, hfs, List.append_assoc]
  · rw [← List.append_assoc]
    exact (hscan.append bytes').trans hscan'
  · rw [hm, hn, UInt32.ofNat_add, UInt32.add_assoc]
  · rw [List.length_append]
    omega

/-- Frames drained of the buffer are frames fed. -/
theorem fed_of_drained {s : Reassembly} {bytes : Bytes} {a : JkFrameAssembler} {fs : List Bytes}
    (h : Drained { s.asm with buf := s.asm.buf ++ bytes } a fs) (hshort : a.buf.length < jkFrameSize) :
    Fed s ⟨a, s.frames ++ fs⟩ bytes := by
  obtain ⟨n, hn, hlen⟩ := h.counted
  refine ⟨hshort, ⟨fs, rfl, h.scanned⟩, n, hn, ?_⟩
  rw [List.length_append] at hlen ⊢
  rw [Nat.mul_add]
  dsimp only
  omega

/-- A notification that fits is all scanned: a second frame is never in the
buffer. -/
theorem notify_fed {s : Reassembly} {chunk : Bytes} (hbuf : s.asm.buf.length < jkFrameSize)
    (hfits : Fits s chunk) : Fed s (notify s chunk) (stripAt chunk) := by
  have hsize : jkFrameSize = 300 := rfl
  have hcap : jkBufSize = 512 := rfl
  rw [notify]
  by_cases hnone : chunk = []
  · rw [if_pos hnone, hnone]
    exact Fed.refl hbuf
  rw [if_neg hnone]
  obtain ⟨hdrained, hshort⟩ := jkAssemblerFeed_drained hfits
  have hfirst : jkBufSize / jkFrameSize + 1 = 2 := rfl
  rw [hfirst, notifyLoop]
  cases hfeed : jkAssemblerFeed s.asm chunk 1 with
  | mk a fs =>
    rw [hfeed] at hdrained hshort
    cases fs with
    | nil =>
      dsimp only
      exact fed_of_drained hdrained (hshort rfl)
    | cons f fs =>
      obtain ⟨n, -, hlen⟩ := hdrained.counted
      have hleft : a.buf.length < jkFrameSize := by
        unfold Fits at hfits
        simp only [List.length_append, List.length_cons] at hlen
        rw [Nat.mul_add] at hlen
        omega
      have hagain : jkAssemblerFeed a [] 1 = (a, []) := if_pos ⟨rfl, hleft⟩
      dsimp only
      rw [notifyLoop, hagain]
      simp only [List.append_nil]
      exact fed_of_drained hdrained hleft

/-- A notification that does not fit leaves the buffer full. -/
theorem notify_of_not_fits {s : Reassembly} {chunk : Bytes} (hbuf : s.asm.buf.length ≤ jkBufSize)
    (hfits : ¬Fits s chunk) : (notify s chunk).asm.buf.length = jkBufSize := by
  have hsome : chunk ≠ [] := by
    rintro rfl
    exact hfits hbuf
  obtain ⟨hfull, hnone⟩ := jkAssemblerFeed_of_not_fits hbuf hfits
  have hfirst : jkBufSize / jkFrameSize + 1 = 2 := rfl
  rw [notify, if_neg hsome, hfirst, notifyLoop]
  cases hfeed : jkAssemblerFeed s.asm chunk 1 with
  | mk a fs =>
    rw [hfeed] at hfull hnone
    obtain rfl : fs = [] := hnone
    exact hfull

/-- The bytes of some notifications, their markers apart. -/
def streamOf (chunks : List Bytes) : Bytes := chunks.flatMap stripAt

/-- Notifications that all fit are all scanned. -/
theorem run_fed {s : Reassembly} {chunks : List Bytes} (hbuf : s.asm.buf.length < jkFrameSize)
    (hfits : Along notify Fits s chunks) : Fed s (run notify s chunks) (streamOf chunks) := by
  induction chunks generalizing s with
  | nil => exact Fed.refl hbuf
  | cons chunk chunks ih =>
    have hhead := notify_fed hbuf hfits.1
    exact hhead.trans (ih hhead.short hfits.2)

/-! ## The buffer -/

/-- The assembler does not wedge: after each notification the buffer is below a
frame, and whatever state the run is in, a valid frame behind enough bytes without
a header is handed out. -/
structure NeverWedged (chunks : List Bytes) : Prop where
  short : Always notify (fun s => s.asm.buf.length < jkFrameSize) .init chunks
  found : ∀ before after lead junk f rest, chunks = before ++ after →
    streamOf after = lead ++ (junk ++ (f ++ rest)) → jkFormat.NoHeader junk →
    jkFrameSize ≤ junk.length + 1 → jkFormat.IsFrame f →
    ∃ fs, f ∈ fs ∧ (run notify .init chunks).frames = (run notify .init before).frames ++ fs

theorem init_short : Reassembly.init.asm.buf.length < jkFrameSize := by decide

/-- From any state below a frame, a frame behind enough junk is handed out. -/
theorem run_finds {s : Reassembly} {chunks : List Bytes} (hbuf : s.asm.buf.length < jkFrameSize)
    (hfits : Along notify Fits s chunks) {lead junk f rest : Bytes}
    (hstream : streamOf chunks = lead ++ (junk ++ (f ++ rest))) (hjunk : jkFormat.NoHeader junk)
    (hlen : jkFrameSize ≤ junk.length + 1) (hf : jkFormat.IsFrame f) :
    ∃ fs, f ∈ fs ∧ (run notify s chunks).frames = s.frames ++ fs := by
  have hfed := run_fed hbuf hfits
  obtain ⟨fs, hfs, hscan⟩ := hfed.scanned
  refine ⟨fs, ?_, hfs⟩
  rw [← hscan.eq hfed.short, hstream, ← List.append_assoc]
  exact Format.mem_scan hjunk hlen hf _ rest

/-- Below a frame after every notification means that each of them fitted. -/
theorem fits_of_short {s : Reassembly} {chunks : List Bytes}
    (hbuf : s.asm.buf.length < jkFrameSize)
    (hshort : Always notify (fun s => s.asm.buf.length < jkFrameSize) s chunks) :
    Along notify Fits s chunks := by
  have hsize : jkFrameSize = 300 := rfl
  have hcap : jkBufSize = 512 := rfl
  induction chunks generalizing s with
  | nil => trivial
  | cons chunk chunks ih =>
    refine ⟨?_, ih hshort.1 hshort.2⟩
    by_contra hfits
    have hfull := notify_of_not_fits (by omega) hfits
    have hhead : (notify s chunk).asm.buf.length < jkFrameSize := hshort.1
    omega

/-- The assembler does not wedge exactly when each notification fits what is free
of the buffer as it comes. -/
theorem neverWedged_iff (chunks : List Bytes) :
    NeverWedged chunks ↔ Along notify Fits .init chunks := by
  constructor
  · intro h
    exact fits_of_short init_short h.short
  · intro hfits
    have hstep (s : Reassembly) (chunk : Bytes) (hs : s.asm.buf.length < jkFrameSize)
        (hchunk : Fits s chunk) : (notify s chunk).asm.buf.length < jkFrameSize :=
      (notify_fed hs hchunk).short
    refine ⟨always_of_along hstep (fun _ h => h) init_short hfits, ?_⟩
    rintro before after lead junk f rest rfl hstream hjunk hlen hf
    obtain ⟨hbefore, hafter⟩ := (along_append Fits _ before after).mp hfits
    rw [run_append]
    exact run_finds (invariant_run hstep init_short hbefore) hafter hstream hjunk hlen hf

/-- A header that waits for its frame, and a notification that is two bytes too
long. -/
def wedgingChunks : List Bytes :=
  [jkHeaderRsp ++ List.replicate 295 0, List.replicate 215 0]

/-- The buffer is full after them. -/
theorem wedged_by_long_notification :
    (∀ c ∈ wedgingChunks, c.length ≤ jkFrameSize) ∧ ¬NeverWedged wedgingChunks := by
  refine ⟨by decide +kernel, fun h => ?_⟩
  have hfull : ¬(notify (notify .init (jkHeaderRsp ++ List.replicate 295 0))
      (List.replicate 215 0)).asm.buf.length < jkFrameSize := by decide +kernel
  exact hfull h.short.2.1

/-! ## The scan of the stream -/

/-- A chunk at most so long that it always fits, with no marker at its ends. -/
structure Plain (chunk : Bytes) : Prop where
  length : chunk.length ≤ 213
  begins : ¬atJunk <+: chunk
  ends : ¬atJunk <:+ chunk

theorem stripAt_of_plain {chunk : Bytes} (h : Plain chunk) : stripAt chunk = chunk := by
  have hbegins : chunk.take 4 ≠ atJunk := fun heq => h.begins (heq ▸ List.take_prefix 4 chunk)
  have hends : ¬(4 ≤ chunk.length ∧ chunk.drop (chunk.length - 4) = atJunk) :=
    fun heq => h.ends (heq.2 ▸ List.drop_suffix _ chunk)
  rw [stripAt, if_neg hbegins, if_neg hends]

theorem streamOf_of_plain {chunks : List Bytes} (h : ∀ c ∈ chunks, Plain c) :
    streamOf chunks = chunks.flatten := by
  induction chunks with
  | nil => rfl
  | cons chunk chunks ih =>
    rw [streamOf, List.flatMap_cons, List.flatten_cons, stripAt_of_plain (h chunk List.mem_cons_self)]
    exact congrArg (chunk ++ ·) (ih fun c hc => h c (List.mem_cons_of_mem chunk hc))

/-- Such chunks always fit. -/
theorem fits_of_plain {s : Reassembly} {chunks : List Bytes}
    (hbuf : s.asm.buf.length < jkFrameSize) (h : ∀ c ∈ chunks, Plain c) :
    Along notify Fits s chunks := by
  have hsize : jkFrameSize = 300 := rfl
  have hcap : jkBufSize = 512 := rfl
  induction chunks generalizing s with
  | nil => trivial
  | cons chunk chunks ih =>
    have hchunk := h chunk List.mem_cons_self
    have hfits : Fits s chunk := by
      have hlen := hchunk.length
      rw [Fits, stripAt_of_plain hchunk]
      omega
    exact ⟨hfits, ih (notify_fed hbuf hfits).short fun c hc => h c (List.mem_cons_of_mem chunk hc)⟩

/-- What plain chunks bring is the stream they are cut from. -/
theorem run_fed_of_plain {chunks : List Bytes} (h : ∀ c ∈ chunks, Plain c) :
    Fed .init (run notify .init chunks) chunks.flatten :=
  streamOf_of_plain h ▸ run_fed init_short (fits_of_plain init_short h)

/-- The frames fed from the start are the scan of the bytes. -/
theorem frames_of_fed {s : Reassembly} {bytes : Bytes} (h : Fed .init s bytes) :
    s.frames = jkFormat.scan bytes := by
  obtain ⟨fs, hfs, hscan⟩ := h.scanned
  rw [hfs]
  exact (hscan.eq h.short).symm

/-- However the stream is cut, the frames are those of the scan, and the bytes in
no frame are dropped or in the buffer. The count of dropped bytes is one of 32
bits. -/
theorem assembly_is_scan {chunks : List Bytes} (hplain : ∀ c ∈ chunks, Plain c) :
    (run notify .init chunks).frames = jkFormat.scan chunks.flatten ∧
      ∃ dropped, chunks.flatten.length =
          jkFrameSize * (run notify .init chunks).frames.length + dropped +
            (run notify .init chunks).asm.buf.length ∧
        (run notify .init chunks).asm.dropped.toNat = dropped % 2 ^ 32 := by
  have hfed := run_fed_of_plain hplain
  obtain ⟨n, hn, hcount⟩ := hfed.counted
  have hinit : Reassembly.init.asm.dropped + UInt32.ofNat n = UInt32.ofNat n := UInt32.zero_add _
  refine ⟨frames_of_fed hfed, n, ?_, ?_⟩
  · have hframes : Reassembly.init.frames.length = 0 := rfl
    have hbuf : Reassembly.init.asm.buf.length = 0 := rfl
    rw [hframes, hbuf] at hcount
    omega
  · rw [hn, hinit, UInt32.toNat_ofNat']

/-- Two chunks with half of a frame each. -/
theorem assembly_is_scan_halves :
    (run notify .init [jkHeaderRsp ++ List.replicate 146 2, List.replicate 149 2 ++ [200]]).frames =
        jkFormat.scan
          [jkHeaderRsp ++ List.replicate 146 2, List.replicate 149 2 ++ [200]].flatten ∧
      ∃ dropped,
        [jkHeaderRsp ++ List.replicate 146 2, List.replicate 149 2 ++ [200]].flatten.length =
          jkFrameSize * (run notify .init
              [jkHeaderRsp ++ List.replicate 146 2, List.replicate 149 2 ++ [200]]).frames.length +
            dropped +
            (run notify .init
              [jkHeaderRsp ++ List.replicate 146 2, List.replicate 149 2 ++ [200]]).asm.buf.length ∧
        (run notify .init
            [jkHeaderRsp ++ List.replicate 146 2, List.replicate 149 2 ++ [200]]).asm.dropped.toNat =
          dropped % 2 ^ 32 := by
  refine assembly_is_scan ?_
  intro c hc
  have hdecided : c.length ≤ 213 ∧ ¬atJunk <+: c ∧ ¬atJunk <:+ c := by
    revert c
    decide +kernel
  exact ⟨hdecided.1, hdecided.2.1, hdecided.2.2⟩

/-- No header is among zeros. -/
theorem noHeader_zeros (n : ℕ) : jkFormat.NoHeader (List.replicate n 0) := by
  intro i
  rw [jkFormat_starts, headerAt, decide_eq_false_iff_not]
  intro heq
  have hmem : (0x55 : UInt8) ∈ ((List.replicate n (0 : UInt8)).drop i).take 4 := by
    rw [heq]
    exact List.mem_cons_self
  have hzero := List.eq_of_mem_replicate (List.mem_of_mem_drop (List.mem_of_mem_take hmem))
  exact absurd hzero (by decide)

theorem plain_zero : Plain [0] := ⟨by decide, by decide, by decide⟩

/-- Of more than 2^32 zeros, fed one by one, all but a few are dropped, and the
count is short of them. -/
theorem dropped_count_wraps :
    ¬∀ chunks : List Bytes, (∀ c ∈ chunks, Plain c) →
      (run notify .init chunks).frames = jkFormat.scan chunks.flatten ∧
        chunks.flatten.length = jkFrameSize * (run notify .init chunks).frames.length +
          (run notify .init chunks).asm.dropped.toNat +
            (run notify .init chunks).asm.buf.length := by
  intro hclaim
  generalize hN : 2 ^ 32 + 1000 = N at *
  have hplain : ∀ c ∈ List.replicate N [(0 : UInt8)], Plain c := fun c hc =>
    List.eq_of_mem_replicate hc ▸ plain_zero
  obtain ⟨hframes, hcount⟩ := hclaim _ hplain
  have hshort := (run_fed_of_plain hplain).short
  have hflat : (List.replicate N [(0 : UInt8)]).flatten = List.replicate N 0 :=
    List.flatten_replicate_singleton
  have hnone : (run notify .init (List.replicate N [(0 : UInt8)])).frames = [] := by
    rw [hframes, hflat]
    exact Format.scan_noHeader (noHeader_zeros N)
  have hsize : jkFrameSize = 300 := rfl
  have hdropped := UInt32.toNat_lt (run notify .init (List.replicate N [0])).asm.dropped
  rw [hnone, hflat, List.length_replicate, List.length_nil] at hcount
  omega

end MoonFlare.Jk
