import CHttp.IOBuffer
import CHttp.Pieces

/-! Messages that are lines: `NewLineMsg`, the parser that cuts the input at newline and
NUL, and the serializer. -/
namespace CHttp

structure NewLineMsg where
  iob : IOBuffer
  deriving DecidableEq, Repr

def newlineMsgNew : Res NewLineMsg := do
  let iob ← iobufferNew
  .ok ⟨iob⟩

def newlineMsgGetContent (msg : NewLineMsg) : IOBuffer := msg.iob

def newlineMsgSetContent (mr : NewLineMsg) (iob : IOBuffer) : NewLineMsg := { mr with iob := iob }

/-- The format `"%s\n"`. -/
def newlineMsgSerialize (msg : NewLineMsg) : Res IOBuffer := do
  let tmp ← iobufferNew
  let text ← iobufferCstr msg.iob
  iobufferSprintf tmp (text ++ [10])

/-- The message being put together; the parser's other fields are never read. -/
structure NewLineMsgParser where
  msg : NewLineMsg
  deriving DecidableEq, Repr

def newlineMsgParserNew : Res NewLineMsgParser := do
  let msg ← newlineMsgNew
  .ok ⟨msg⟩

def isLineEnd (ch : UInt8) : Bool := ch = 10 || ch = 0

section consume

variable {σ : Type} (cb : σ → NewLineMsg → ℤ → σ)

/-- What the loop does with the character it popped. -/
def parserConsumeChar (mp : NewLineMsgParser) (arg : σ) : Cell → Res (NewLineMsgParser × σ)
  | none => .error .indeterminate
  | some ch =>
    if isLineEnd ch then do
      let arg := cb arg mp.msg 0
      let msg ← newlineMsgNew
      .ok (⟨msg⟩, arg)
    else do
      let iob ← iobufferCommitPushBack (newlineMsgGetContent mp.msg) (some ch)
      .ok (⟨newlineMsgSetContent mp.msg iob⟩, arg)

/-- At most `n` turns of the loop. -/
def parserConsumeLoop : ℕ → NewLineMsgParser → IOBuffer → σ → Res (NewLineMsgParser × IOBuffer × σ)
  | 0, mp, iob, arg => .ok (mp, iob, arg)
  | n+1, mp, iob, arg =>
    if iobufferEmpty iob then .ok (mp, iob, arg)
    else do
      let (ch, iob) ← iobufferConsumePopFront iob
      let (mp, arg) ← parserConsumeChar cb mp arg ch
      parserConsumeLoop n mp iob arg

/-- A turn takes one byte from the buffer, so the loop ends with the data. -/
def newlineMsgParserConsume (mp : NewLineMsgParser) (iobNewData : IOBuffer) (arg : σ) :
    Res (NewLineMsgParser × IOBuffer × σ) :=
  parserConsumeLoop cb (iobufferDataLen iobNewData) mp iobNewData arg

end consume

/-- The lines ended by newline or NUL, without their ends. -/
def completeLines (b : Bytes) : List Bytes := completePieces isLineEnd b

/-- What follows the last line end. -/
def unfinishedLine (b : Bytes) : Bytes := lastPiece isLineEnd b

/-- The content of a message is a line. -/
def NewLineMsg.Says (msg : NewLineMsg) (line : Bytes) : Prop :=
  msg.iob.HoldsText iobufferDefaultCapacity line

theorem NewLineMsg.Says.data {msg : NewLineMsg} {line : Bytes} (h : msg.Says line) :
    iobufferData msg.iob = line.map some :=
  h.holds.data

theorem NewLineMsg.Says.length_le {msg : NewLineMsg} {line : Bytes} (h : msg.Says line) :
    line.length ≤ iobufferDefaultCapacity := by
  have hfits := h.holds.fits
  rwa [List.length_map] at hfits

theorem says_data {msgs : List NewLineMsg} {lines : List Bytes}
    (h : List.Forall₂ NewLineMsg.Says msgs lines) :
    msgs.map (fun msg => iobufferData msg.iob) = lines.map (List.map some) := by
  induction h with
  | nil => rfl
  | cons hmsg _ ih => rw [List.map_cons, List.map_cons, hmsg.data, ih]

theorem says_mem {msgs : List NewLineMsg} {lines : List Bytes}
    (h : List.Forall₂ NewLineMsg.Says msgs lines) {msg : NewLineMsg} (hm : msg ∈ msgs) :
    ∃ line ∈ lines, msg.Says line := by
  induction h with
  | nil => cases hm
  | @cons a line _ _ hsays _ ih =>
    rcases List.mem_cons.mp hm with rfl | hm
    · exact ⟨line, List.mem_cons_self, hsays⟩
    · obtain ⟨line', hmem, hsays'⟩ := ih hm
      exact ⟨line', List.mem_cons_of_mem _ hmem, hsays'⟩

/-- After the bytes `b` the messages made are the lines of `b`, and the parser holds the
rest. -/
structure NewLineMsgParser.Parsed (mp : NewLineMsgParser) (b : Bytes) (msgs : List NewLineMsg) :
    Prop where
  lines : List.Forall₂ NewLineMsg.Says msgs (completeLines b)
  current : mp.msg.Says (unfinishedLine b)

theorem newlineMsgNew_says : ∃ msg, newlineMsgNew = .ok msg ∧ msg.Says [] := by
  obtain ⟨iob, hnew, hiob⟩ := iobufferNew_holdsText
  exact ⟨⟨iob⟩, by simp only [newlineMsgNew, hnew, ok_bind], hiob⟩

theorem newlineMsgParserNew_parsed : ∃ mp, newlineMsgParserNew = .ok mp ∧ mp.Parsed [] [] := by
  obtain ⟨msg, hnew, hmsg⟩ := newlineMsgNew_says
  exact ⟨⟨msg⟩, by simp only [newlineMsgParserNew, hnew, ok_bind], .nil, hmsg⟩

section parsed

variable {σ : Type} (cb : σ → NewLineMsg → ℤ → σ)

/-- The callback's argument after some messages. -/
def emit (arg : σ) (msgs : List NewLineMsg) : σ := msgs.foldl (fun arg msg => cb arg msg 0) arg

/-- One character: it ends the line, extends it, or finds its buffer full. -/
theorem parserConsumeChar_parsed (mp : NewLineMsgParser) (b : Bytes) (msgs : List NewLineMsg)
    (h : mp.Parsed b msgs) (arg : σ) (ch : UInt8) :
    (∃ mp' emitted, parserConsumeChar cb mp arg (some ch) = .ok (mp', emit cb arg emitted) ∧
      mp'.Parsed (b ++ [ch]) (msgs ++ emitted)) ∨
    (parserConsumeChar cb mp arg (some ch) = .error (.assertion "mem_len >= len") ∧
      iobufferDefaultCapacity < (unfinishedLine (b ++ [ch])).length) := by
  by_cases hend : isLineEnd ch = true
  · left
    obtain ⟨msg, hnew, hmsg⟩ := newlineMsgNew_says
    refine ⟨⟨msg⟩, [mp.msg], ?_, ?_, ?_⟩
    · simp only [parserConsumeChar, if_pos hend, hnew, ok_bind]
      rfl
    · rw [completeLines, completePieces_snoc, if_pos hend]
      exact List.rel_append h.lines (.cons h.current .nil)
    · rw [unfinishedLine, lastPiece_snoc, if_pos hend]
      exact hmsg
  · have hopen : unfinishedLine (b ++ [ch]) = unfinishedLine b ++ [ch] := by
      rw [unfinishedLine, lastPiece_snoc, if_neg hend, unfinishedLine]
    rcases h.current.length_le.lt_or_eq with hroom | hfull
    · left
      obtain ⟨iob, hpush, hiob⟩ := iobufferCommitPushBack_holdsText mp.msg.iob _ _ ch h.current hroom
      refine ⟨⟨⟨iob⟩⟩, [], ?_, ?_, ?_⟩
      · simp only [parserConsumeChar, if_neg hend, newlineMsgGetContent, hpush, ok_bind]
        rfl
      · rw [completeLines, completePieces_snoc, if_neg hend, List.append_nil]
        exact h.lines
      · rw [hopen]
        exact hiob
    · right
      refine ⟨?_, ?_⟩
      · simp only [parserConsumeChar, if_neg hend, newlineMsgGetContent,
          iobufferCommitPushBack_full mp.msg.iob _ _ (some ch) h.current hfull, error_bind]
      · rw [hopen, List.length_append, hfull, List.length_singleton]
        omega

/-- The loop reads its whole input, unless a line outgrows its message. -/
theorem parserConsumeLoop_parsed (d b : Bytes) (mp : NewLineMsgParser) (msgs : List NewLineMsg)
    (h : mp.Parsed b msgs) (iob : IOBuffer) (c : ℕ) (hq : iob.Queues c (d.map some))
    (hz : d = [] → iob.bufferPtr = 0) (arg : σ) :
    (∃ mp' iob' emitted, parserConsumeLoop cb d.length mp iob arg =
        .ok (mp', iob', emit cb arg emitted) ∧
      iob'.Holds c [] ∧ mp'.Parsed (b ++ d) (msgs ++ emitted)) ∨
    (parserConsumeLoop cb d.length mp iob arg = .error (.assertion "mem_len >= len") ∧
      ∃ pre, pre <+: d ∧ iobufferDefaultCapacity < (unfinishedLine (b ++ pre)).length) := by
  induction d generalizing b mp msgs iob arg with
  | nil =>
    left
    refine ⟨mp, iob, [], rfl, hq.holds (hz rfl), ?_⟩
    rw [List.append_nil, List.append_nil]
    exact h
  | cons ch d ih =>
    have hne : iobufferEmpty iob = false := by
      rw [iobufferEmpty, hq.remaining]
      simp
    obtain ⟨iob', hpop, hq', hz'⟩ := iobufferConsumePopFront_queues iob c (some ch) (d.map some) hq
    have hturn : parserConsumeLoop cb (ch :: d).length mp iob arg =
        parserConsumeChar cb mp arg (some ch) >>= fun r =>
          parserConsumeLoop cb d.length r.1 iob' r.2 := by
      simp only [List.length_cons, parserConsumeLoop, hne, Bool.false_eq_true, if_false, hpop,
        ok_bind]
    rw [hturn]
    rcases parserConsumeChar_parsed cb mp b msgs h arg ch with
      ⟨mp', emitted, hchar, hparsed⟩ | ⟨hchar, hlong⟩
    · rw [hchar, ok_bind]
      rcases ih (b ++ [ch]) mp' (msgs ++ emitted) hparsed iob' hq'
          (fun hd => hz' (by rw [hd]; rfl)) (emit cb arg emitted) with
        ⟨mp'', iob'', emitted', hloop, hholds, hparsed'⟩ | ⟨hloop, pre, hpre, hlong⟩
      · left
        refine ⟨mp'', iob'', emitted ++ emitted', ?_, hholds, ?_⟩
        · rw [hloop, emit, emit, emit, List.foldl_append]
        · rw [List.append_assoc, List.append_assoc] at hparsed'
          exact hparsed'
      · right
        refine ⟨hloop, ch :: pre, List.prefix_cons_inj ch |>.mpr hpre, ?_⟩
        rw [List.append_assoc] at hlong
        exact hlong
    · right
      rw [hchar, error_bind]
      exact ⟨rfl, [ch], List.prefix_cons_inj ch |>.mpr (List.nil_prefix), hlong⟩

theorem newlineMsgParserConsume_parsed (d b : Bytes) (mp : NewLineMsgParser)
    (msgs : List NewLineMsg) (h : mp.Parsed b msgs) (iob : IOBuffer) (c : ℕ)
    (hq : iob.Holds c (d.map some)) (arg : σ) :
    (∃ mp' iob' emitted, newlineMsgParserConsume cb mp iob arg =
        .ok (mp', iob', emit cb arg emitted) ∧
      iob'.Holds c [] ∧ mp'.Parsed (b ++ d) (msgs ++ emitted)) ∨
    (newlineMsgParserConsume cb mp iob arg = .error (.assertion "mem_len >= len") ∧
      ∃ pre, pre <+: d ∧ iobufferDefaultCapacity < (unfinishedLine (b ++ pre)).length) := by
  have hlen : iobufferDataLen iob = d.length := by
    rw [iobufferDataLen, hq.remaining, List.length_map]
  rw [newlineMsgParserConsume, hlen]
  exact parserConsumeLoop_parsed cb d b mp msgs h iob c hq.queues (fun _ => hq.ptr) arg

end parsed

/-- Where all lines of a stream fit their messages, only its unfinished end can be too
long. -/
theorem unfinishedLine_long (c : ℕ) (b rest : Bytes)
    (hlines : ∀ line ∈ completeLines (b ++ rest), line.length ≤ c)
    (hlong : c < (unfinishedLine b).length) : c < (unfinishedLine (b ++ rest)).length := by
  rcases lastPiece_append isLineEnd b rest with ⟨line, hmem, hpre⟩ | hpre
  · have hline := hlines line hmem
    have hle := hpre.length_le
    rw [unfinishedLine] at hlong
    omega
  · exact lt_of_lt_of_le hlong hpre.length_le

/-- A line has no NUL in it, so that it can be read as a C string. -/
theorem zero_not_mem_line (b line : Bytes) (h : line ∈ completeLines b) : 0 ∉ line := by
  intro hz
  have hfree := (pieces_free isLineEnd b).1 line h 0 hz
  cases hfree

theorem newlineMsgSerialize_holds (msg : NewLineMsg) (c : ℕ) (text : Bytes)
    (h : msg.iob.HoldsText c text) (hne : text ≠ []) (hz : 0 ∉ text)
    (hf : text.length+1 < iobufferDefaultCapacity) :
    ∃ iob, newlineMsgSerialize msg = .ok iob ∧
      iob.HoldsText iobufferDefaultCapacity (text ++ [10]) := by
  obtain ⟨tmp, hnew, htmp⟩ := iobufferNew_holdsText
  obtain ⟨iob, hprint, hiob⟩ := iobufferSprintf_holdsText tmp _ (text ++ [10]) htmp.holds (by simp)
    (by rwa [List.length_append, List.length_singleton])
  refine ⟨iob, ?_, hiob⟩
  simp only [newlineMsgSerialize, hnew, ok_bind, h.cstr hne hz, hprint]

end CHttp
