import CHttp.DemoMsgParser
import CHttp.NewlineMsg

/-! How much input the two message parsers stand: each puts a message together in a buffer
of fixed capacity, and the assertion that guards it is the only one that can fail. -/
namespace CHttp

/-- What the frames of a stream put into messages, from between frames, from inside of one or
from behind a broken one: into the message that is begun, and into each later one. A frame that
is broken leaves its bytes to the next one, unless a block ends in between. -/
def demoTexts : DemoPhase → List (UInt8 × Bool) → Bytes × List Bytes
  | _, [] => ([], [])
  | .idle, (ch, _) :: xs => demoTexts (if ch = chStx then .body else .idle) xs
  | .body, (ch, _) :: xs =>
    if isprint ch then (demoTexts .body xs).map (ch :: ·) id
    else if ch = chEtx then ([], (demoTexts .idle xs).1 :: (demoTexts .idle xs).2)
    else demoTexts .recovery xs
  | .recovery, (ch, last) :: xs =>
    if ch = chStx ∧ last = false then demoTexts .body xs
    else if last then ([], (demoTexts .recovery xs).1 :: (demoTexts .recovery xs).2)
    else demoTexts .recovery xs

/-- The texts of all messages that the frames of a stream in blocks are put together to. -/
def demoMessageTexts (blocks : List Bytes) : List Bytes :=
  (demoTexts .idle (markBlocks blocks)).1 :: (demoTexts .idle (markBlocks blocks)).2

/-- Every message that is put together, with what is in the first one, fits. -/
def DemoScan.Fits (c : ℕ) (s : DemoScan) (xs : List (UInt8 × Bool)) : Prop :=
  s.text.length+(demoTexts s.phase xs).1.length ≤ c ∧
    ∀ text ∈ (demoTexts s.phase xs).2, text.length ≤ c

theorem DemoScan.fits_cons (c : ℕ) (s : DemoScan) (hs : s.text.length ≤ c) (x : UInt8 × Bool)
    (xs : List (UInt8 × Bool)) : s.Fits c (x :: xs) ↔ (demoNext s x).1.Fits c xs := by
  obtain ⟨phase, t⟩ := s
  obtain ⟨ch, last⟩ := x
  cases phase with
  | idle => exact Iff.rfl
  | body =>
    by_cases hprint : isprint ch = true
    · simp only [Fits, demoNext, demoTexts, if_pos hprint, Prod.map_fst, Prod.map_snd, id_eq,
        List.length_append, List.length_cons, List.length_nil]
      rw [Nat.add_right_comm, Nat.add_assoc]
    · by_cases hetx : ch = chEtx
      · simp only [Fits, demoNext, demoTexts, if_neg hprint, if_pos hetx, List.length_nil,
          Nat.zero_add, Nat.add_zero, List.forall_mem_cons]
        exact and_iff_right hs
      · simp only [Fits, demoNext, demoTexts, if_neg hprint, if_neg hetx]
  | recovery =>
    by_cases hstx : ch = chStx ∧ last = false
    · simp only [Fits, demoNext, demoTexts, if_pos hstx]
    · cases last with
      | false =>
        have hch : ch ≠ chStx := fun hch => hstx ⟨hch, rfl⟩
        simp only [Fits, demoNext, demoTexts, hch, false_and, Bool.false_eq_true, if_false]
      | true =>
        simp only [Fits, demoNext, demoTexts, if_neg hstx, if_true, List.length_nil, Nat.zero_add,
          Nat.add_zero, List.forall_mem_cons]
        exact and_iff_right hs

/-- The automaton gets through exactly if no message outgrows its capacity on the way. -/
theorem demoFeed_isSome_iff (c : ℕ) (s : DemoScan) (hs : s.text.length ≤ c)
    (xs : List (UInt8 × Bool)) : (demoFeed c s xs).2.isSome = true ↔ s.Fits c xs := by
  induction xs generalizing s with
  | nil => exact iff_of_true rfl ⟨by cases hphase : s.phase <;> exact hs, by simp [demoTexts]⟩
  | cons x xs ih =>
    rw [demoFeed, s.fits_cons c hs]
    split_ifs with hnext
    · exact ih _ hnext
    · refine iff_of_false Bool.false_ne_true fun hfits => hnext ?_
      exact Nat.le_of_add_right_le hfits.1

section demo

variable {σ : Type} (cb : σ → DemoMsg → ℤ → σ) (arg : σ) (blocks : List Bytes)
  (hne : ∀ b ∈ blocks, b ≠ []) (iobs : List IOBuffer) (hiobs : Carries iobs blocks)

include hne hiobs

/-- The feed returns if every message fits, and otherwise the one assertion fails. -/
theorem demoMsgParserFeed_result :
    ((∀ text ∈ demoMessageTexts blocks, text.length ≤ demoBodyCapacity) ∧
      ∃ r, (demoMsgParserFeed cb demoMsgParserNew iobs arg).1 = .ok r) ∨
    ((¬∀ text ∈ demoMessageTexts blocks, text.length ≤ demoBodyCapacity) ∧
      (demoMsgParserFeed cb demoMsgParserNew iobs arg).1 =
        .error (.assertion "mem_len >= len")) := by
  have hsome : (demoFeed demoBodyCapacity demoScanStart (markBlocks blocks)).2.isSome = true ↔
      ∀ text ∈ demoMessageTexts blocks, text.length ≤ demoBodyCapacity := by
    rw [demoFeed_isSome_iff _ _ (Nat.zero_le _), DemoScan.Fits, demoScanStart, List.length_nil,
      Nat.zero_add, demoMessageTexts, List.forall_mem_cons]
  rw [← hsome]
  obtain ⟨msgs, -, -, hfin⟩ := demoMsgParserFeed_follows cb iobs blocks hiobs hne
    demoMsgParserNew demoScanStart demoMsgParserNew_ready arg
  cases hrun : (demoFeed demoBodyCapacity demoScanStart (markBlocks blocks)).2 with
  | none =>
    rw [hrun] at hfin
    exact .inr ⟨Bool.false_ne_true, hfin⟩
  | some t =>
    rw [hrun] at hfin
    obtain ⟨r, hok, -⟩ := hfin
    exact .inl ⟨rfl, r, hok⟩

theorem demoFeed_assertion_iff :
    (∀ expr, (demoMsgParserFeed cb demoMsgParserNew iobs arg).1 ≠ .error (.assertion expr)) ↔
      ∀ text ∈ demoMessageTexts blocks, text.length ≤ demoBodyCapacity := by
  rcases demoMsgParserFeed_result cb arg blocks hne iobs hiobs with
    ⟨hfits, r, hok⟩ | ⟨hlong, hfail⟩
  · rw [hok]
    exact iff_of_true nofun hfits
  · exact iff_of_false (fun h => h _ hfail) hlong

end demo

section newline

variable {σ : Type} (cb : σ → NewLineMsg → ℤ → σ)

/-- Blocks passed to one newline parser in turn. -/
def newlineMsgParserFeed : NewLineMsgParser → List IOBuffer → σ →
    Res (NewLineMsgParser × List IOBuffer × σ)
  | mp, [], arg => .ok (mp, [], arg)
  | mp, iob :: iobs, arg => do
    let (mp, iob, arg) ← newlineMsgParserConsume cb mp iob arg
    let (mp, iobs, arg) ← newlineMsgParserFeed mp iobs arg
    .ok (mp, iob :: iobs, arg)

/-- One block is read to its end, unless a line outgrows its message. -/
theorem newlineMsgParserConsume_queues (d b : Bytes) (mp : NewLineMsgParser)
    (msgs : List NewLineMsg) (h : mp.Parsed b msgs) (iob : IOBuffer) (c : ℕ)
    (hq : iob.Queues c (d.map some)) (arg : σ) :
    (∃ mp' iob' emitted, newlineMsgParserConsume cb mp iob arg =
        .ok (mp', iob', emit cb arg emitted) ∧
      iobufferEmpty iob' = true ∧ mp'.Parsed (b ++ d) (msgs ++ emitted)) ∨
    (newlineMsgParserConsume cb mp iob arg = .error (.assertion "mem_len >= len") ∧
      ∃ pre, pre <+: d ∧ iobufferDefaultCapacity < (unfinishedLine (b ++ pre)).length) := by
  have hlen : iobufferDataLen iob = d.length := by
    rw [iobufferDataLen, hq.remaining, List.length_map]
  rw [newlineMsgParserConsume, hlen]
  cases d with
  | nil =>
    refine .inl ⟨mp, iob, [], rfl, ?_, by rwa [List.append_nil, List.append_nil]⟩
    rw [iobufferEmpty, hq.remaining]
    rfl
  | cons ch d =>
    rcases parserConsumeLoop_parsed cb (ch :: d) b mp msgs h iob c hq
        (fun hd => absurd hd (List.cons_ne_nil _ _)) arg with
      ⟨mp', iob', emitted, hloop, hholds, hparsed⟩ | hlong
    · refine .inl ⟨mp', iob', emitted, hloop, ?_, hparsed⟩
      rw [iobufferEmpty, hholds.remaining]
      rfl
    · exact .inr hlong

/-- The feed reads the whole stream, unless a line outgrows its message. -/
theorem newlineMsgParserFeed_parsed (iobs : List IOBuffer) (blocks : List Bytes)
    (hiobs : Carries iobs blocks) (mp : NewLineMsgParser) (b : Bytes)
    (msgs : List NewLineMsg) (h : mp.Parsed b msgs) (arg : σ) :
    (∃ mp' iobs' emitted, newlineMsgParserFeed cb mp iobs arg =
        .ok (mp', iobs', emit cb arg emitted) ∧
      iobs'.length = iobs.length ∧ (∀ iob ∈ iobs', iobufferEmpty iob = true) ∧
      mp'.Parsed (b ++ blocks.flatten) (msgs ++ emitted)) ∨
    (newlineMsgParserFeed cb mp iobs arg = .error (.assertion "mem_len >= len") ∧
      ∃ pre, pre <+: blocks.flatten ∧ iobufferDefaultCapacity < (unfinishedLine (b ++ pre)).length) := by
  induction hiobs generalizing mp b msgs arg with
  | nil =>
    exact .inl ⟨mp, [], [], rfl, rfl, nofun,
      by rwa [List.flatten_nil, List.append_nil, List.append_nil]⟩
  | @cons iob d iobs blocks hiob _ ih =>
    obtain ⟨c, hq⟩ := hiob
    rw [List.flatten_cons]
    rcases newlineMsgParserConsume_queues cb d b mp msgs h iob c hq arg with
      ⟨mp', iob', emitted, hconsume, hempty, hparsed⟩ | ⟨hconsume, pre, hpre, hlong⟩
    · rcases ih mp' (b ++ d) _ hparsed (emit cb arg emitted) with
        ⟨mp'', iobs', emitted', hfeed, hlen, hall, hparsed'⟩ | ⟨hfeed, pre, hpre, hlong⟩
      · refine .inl ⟨mp'', iob' :: iobs', emitted ++ emitted', ?_, congrArg (·+1) hlen,
          List.forall_mem_cons.mpr ⟨hempty, hall⟩, ?_⟩
        · simp only [newlineMsgParserFeed, hconsume, ok_bind, hfeed]
          rw [emit, emit, emit, List.foldl_append]
        · rwa [List.append_assoc, List.append_assoc] at hparsed'
      · refine .inr ⟨?_, d ++ pre, (List.prefix_append_right_inj d).mpr hpre, by rwa [← List.append_assoc]⟩
        simp only [newlineMsgParserFeed, hconsume, ok_bind, hfeed, error_bind]
    · refine .inr ⟨?_, pre, hpre.trans (List.prefix_append d _), hlong⟩
      simp only [newlineMsgParserFeed, hconsume, error_bind]

theorem says_length_le {msgs : List NewLineMsg} {lines : List Bytes}
    (h : List.Forall₂ NewLineMsg.Says msgs lines) :
    ∀ line ∈ lines, line.length ≤ iobufferDefaultCapacity := by
  induction h with
  | nil => exact nofun
  | cons hline _ ih => exact List.forall_mem_cons.mpr ⟨hline.length_le, ih⟩

/-- With every line short enough, the last one included, the feed reads the whole stream. -/
theorem newlineMsgParserFeed_fits (iobs : List IOBuffer) (blocks : List Bytes)
    (hiobs : Carries iobs blocks) (mp : NewLineMsgParser) (h : mp.Parsed [] []) (arg : σ)
    (hlines : ∀ line ∈ completeLines blocks.flatten, line.length ≤ iobufferDefaultCapacity)
    (hlast : (unfinishedLine blocks.flatten).length ≤ iobufferDefaultCapacity) :
    ∃ mp' iobs' emitted, newlineMsgParserFeed cb mp iobs arg =
        .ok (mp', iobs', emit cb arg emitted) ∧
      iobs'.length = iobs.length ∧ (∀ iob ∈ iobs', iobufferEmpty iob = true) ∧
      mp'.Parsed blocks.flatten emitted := by
  rcases newlineMsgParserFeed_parsed cb iobs blocks hiobs mp [] [] h arg with
    hparsed | ⟨-, pre, ⟨rest, hrest⟩, hlong⟩
  · exact hparsed
  · have hlong' := unfinishedLine_long iobufferDefaultCapacity pre rest (hrest ▸ hlines) hlong
    rw [hrest] at hlong'
    exact absurd hlast (Nat.not_le.mpr hlong')

theorem newlineFeed_assertion_iff (arg : σ) (blocks : List Bytes) (iobs : List IOBuffer)
    (hiobs : Carries iobs blocks) (mp : NewLineMsgParser)
    (hmp : newlineMsgParserNew = .ok mp) :
    (∀ expr, newlineMsgParserFeed cb mp iobs arg ≠ .error (.assertion expr)) ↔
      (∀ line ∈ completeLines blocks.flatten, line.length ≤ iobufferDefaultCapacity) ∧
        (unfinishedLine blocks.flatten).length ≤ iobufferDefaultCapacity := by
  obtain ⟨mp', hmp', hparsed⟩ := newlineMsgParserNew_parsed
  obtain rfl := Except.ok.inj (hmp.symm.trans hmp')
  constructor
  · intro hno
    rcases newlineMsgParserFeed_parsed cb iobs blocks hiobs mp [] [] hparsed arg with
      ⟨mp', iobs', emitted, -, -, -, hparsed'⟩ | ⟨hfeed, -⟩
    · exact ⟨says_length_le hparsed'.lines, hparsed'.current.length_le⟩
    · exact absurd hfeed (hno _)
  · rintro ⟨hlines, hlast⟩
    obtain ⟨mp', iobs', emitted, hfeed, -⟩ := newlineMsgParserFeed_fits cb iobs blocks hiobs mp
      hparsed arg hlines hlast
    rw [hfeed]
    exact nofun

end newline

/-- No assertion fails on a stream, exactly when nothing that is put into one message outgrows it:
1024 bytes of frames for the demo parser, a line of 4096 bytes for the newline parser. -/
theorem parsers_no_assertion_iff {σ τ : Type} (cb : σ → DemoMsg → ℤ → σ)
    (cb' : τ → NewLineMsg → ℤ → τ) (arg : σ) (arg' : τ) (stream : Bytes) (blocks : List Bytes)
    (hcut : Cuts blocks stream) (iobs : List IOBuffer) (hiobs : Carries iobs blocks)
    (mp : NewLineMsgParser) (hmp : newlineMsgParserNew = .ok mp) :
    ((∀ expr, (demoMsgParserFeed cb demoMsgParserNew iobs arg).1 ≠ .error (.assertion expr)) ↔
      ∀ text ∈ demoMessageTexts blocks, text.length ≤ 1024) ∧
    ((∀ expr, newlineMsgParserFeed cb' mp iobs arg' ≠ .error (.assertion expr)) ↔
      (∀ line ∈ completeLines stream, line.length ≤ 4096) ∧ (unfinishedLine stream).length ≤ 4096) := by
  refine ⟨demoFeed_assertion_iff cb arg blocks hcut.ne_nil iobs hiobs, ?_⟩
  have hnewline := newlineFeed_assertion_iff cb' arg' blocks iobs hiobs mp hmp
  rwa [hcut.flatten_eq] at hnewline

/-- A frame and a line in one block. -/
theorem parsers_no_assertion_short :
    ∃ mp, newlineMsgParserNew = .ok mp ∧
      (∀ expr, (demoMsgParserFeed (fun n _ _ => n+1) demoMsgParserNew [blockBuffer [2, 97, 3, 10]]
        0).1 ≠ .error (.assertion expr)) ∧
      ∀ expr, newlineMsgParserFeed (fun n _ _ => n+1) mp [blockBuffer [2, 97, 3, 10]] 0 ≠
        .error (.assertion expr) := by
  obtain ⟨mp, hmp, -⟩ := newlineMsgParserNew_parsed
  have h := parsers_no_assertion_iff (fun n _ _ => n+1) (fun n _ _ => n+1) 0 0 [2, 97, 3, 10]
    [[2, 97, 3, 10]] ⟨rfl, by decide⟩ _ (blockBuffer_carries _) mp hmp
  exact ⟨mp, hmp, h.1.mpr (by decide), h.2.mpr ⟨by decide +kernel, by decide +kernel⟩⟩

theorem demoTexts_body (xs : List (UInt8 × Bool))
    (hp : ∀ ch ∈ xs.map Prod.fst, isprint ch = true) :
    demoTexts .body xs = (xs.map Prod.fst, []) := by
  induction xs with
  | nil => rfl
  | cons x xs ih =>
    rw [List.map_cons, List.forall_mem_cons] at hp
    rw [demoTexts, if_pos hp.1, ih hp.2]
    rfl

/-- A line that is too long, in one block. -/
theorem newline_long_line (n : ℕ) (hn : iobufferDefaultCapacity < n) :
    ∃ mp, newlineMsgParserNew = .ok mp ∧
      newlineMsgParserFeed (fun n _ _ => n+1) mp [blockBuffer (List.replicate n 97)] 0 =
        .error (.assertion "mem_len >= len") := by
  obtain ⟨mp, hmp, hparsed⟩ := newlineMsgParserNew_parsed
  refine ⟨mp, hmp, ?_⟩
  rcases newlineMsgParserFeed_parsed (fun n _ _ => n+1) _ _
    (blockBuffer_carries [List.replicate n 97]) mp [] [] hparsed 0 with
    ⟨_, _, _, -, -, -, hparsed'⟩ | ⟨hfeed, -⟩
  · have hfree : ∀ ch ∈ List.replicate n (97 : UInt8), isLineEnd ch = false := by
      intro ch hch
      rw [List.eq_of_mem_replicate hch]
      rfl
    have hlen := hparsed'.current.length_le
    rw [List.nil_append, List.flatten_singleton, unfinishedLine, (pieces_of_free _ hfree).2,
      List.length_replicate] at hlen
    omega
  · exact hfeed

/-- A body that is too long, in one block. -/
theorem demo_long_body (n : ℕ) (hn : demoBodyCapacity < n) :
    (demoMsgParserFeed (fun n _ _ => n+1) demoMsgParserNew
      [blockBuffer (chStx :: List.replicate n 97)] 0).1 = .error (.assertion "mem_len >= len") := by
  have hne : ∀ b ∈ [chStx :: List.replicate n 97], b ≠ [] := by
    rintro b (_ | ⟨_, ⟨⟩⟩)
    exact List.cons_ne_nil _ _
  have hmarks : markBlocks [chStx :: List.replicate n 97] =
      (chStx, (List.replicate n (97 : UInt8)).isEmpty) :: markBlock (List.replicate n 97) :=
    List.append_nil _
  have hprint : ∀ ch ∈ (markBlock (List.replicate n 97)).map Prod.fst, isprint ch = true := by
    intro ch hch
    rw [markBlock_fst] at hch
    rw [List.eq_of_mem_replicate hch]
    rfl
  have htexts : demoMessageTexts [chStx :: List.replicate n 97] = [List.replicate n 97] := by
    have hbody : demoTexts .idle (markBlocks [chStx :: List.replicate n 97]) =
        (List.replicate n 97, []) := by
      rw [hmarks, demoTexts, if_pos rfl, demoTexts_body _ hprint, markBlock_fst]
    rw [demoMessageTexts, hbody]
  rcases demoMsgParserFeed_result (fun n _ _ => n+1) 0 _ hne _ (blockBuffer_carries _) with
    ⟨hfits, -⟩ | ⟨-, hfail⟩
  · rw [htexts, List.forall_mem_singleton, List.length_replicate] at hfits
    omega
  · exact hfail

/-- A line of 4097 bytes and a body of 1025 bytes. -/
theorem parsers_abort :
    (∃ mp, newlineMsgParserNew = .ok mp ∧
      newlineMsgParserFeed (fun n _ _ => n+1) mp [blockBuffer (List.replicate 4097 97)] 0 =
        .error (.assertion "mem_len >= len")) ∧
    (demoMsgParserFeed (fun n _ _ => n+1) demoMsgParserNew
      [blockBuffer (chStx :: List.replicate 1025 97)] 0).1 = .error (.assertion "mem_len >= len") :=
  ⟨newline_long_line 4097 (by decide), demo_long_body 1025 (by decide)⟩

end CHttp
