import CHttp.EchoApp
import CHttp.MsgParserLimits

/-! The echo app with memory that has contents when malloc returns it. The blocks whose
bytes can reach the client are a message, the content of its response and the buffer the
response is serialized to. -/
namespace CHttp

/-- A block with its contents from before the first write; a write covers them, so that
they can be filled in after it. -/
def IOBuffer.filled (iob : IOBuffer) (contents : ℕ → UInt8) : IOBuffer :=
  { iob with mem := iob.mem.mapIdx fun i cell => some (cell.getD (contents i)) }

def NewLineMsg.filled (msg : NewLineMsg) (contents : ℕ → UInt8) : NewLineMsg :=
  ⟨msg.iob.filled contents⟩

/-- What malloc returned for the three blocks. -/
structure EchoHeap where
  message : ℕ → UInt8
  response : ℕ → UInt8
  output : ℕ → UInt8

/-- The bytes sent for a message. -/
def echoOutput (heap : EchoHeap) (msg : NewLineMsg) : Res (List Cell) := do
  let response ← processInputMessage msg
  let out ← newlineMsgSerialize (response.filled heap.response)
  .ok (iobufferData (out.filled heap.output))

/-- The parser reads a line, and each of its messages is answered. -/
def echoOutputs (heap : EchoHeap) (iobs : List IOBuffer) : Res (List (List Cell)) := do
  let mp ← newlineMsgParserNew
  let (_, _, msgs) ← newlineMsgParserFeed (fun msgs msg _ => msgs ++ [msg])
    ⟨mp.msg.filled heap.message⟩ iobs []
  msgs.mapM (echoOutput heap)

section filled

variable {iob : IOBuffer} {c : ℕ} {b : Bytes} (contents : ℕ → UInt8)

theorem filled_getElem? (i : ℕ) :
    (iob.filled contents).mem[i]? = iob.mem[i]?.map fun cell => some (cell.getD (contents i)) :=
  List.getElem?_mapIdx

/-- Bytes that were written are not touched. -/
theorem IOBuffer.HoldsText.filled (h : iob.HoldsText c b) : (iob.filled contents).HoldsText c b := by
  have hholds := h.holds
  refine ⟨⟨?_, hholds.capacity, hholds.ptr, hholds.remaining, hholds.fits, ?_⟩, fun hne => ?_⟩
  · rw [IOBuffer.filled, List.length_mapIdx, hholds.mem_length]
  · apply List.ext_getElem?
    intro j
    have hremaining : (iob.filled contents).bufferRemaining = (b.map some).length := hholds.remaining
    rw [iobufferData_getElem?, hremaining, filled_getElem?]
    by_cases hj : j < (b.map some).length
    · have hcell : iob.mem[(iob.filled contents).bufferPtr+j]? = (b.map some)[j]? :=
        hholds.queues.cell hj
      rw [if_pos hj, hcell, List.getElem?_map]
      cases b[j]? <;> rfl
    · rw [if_neg hj, List.getElem?_eq_none (not_lt.mp hj)]
  · rw [filled_getElem?, h.terminated hne]
    rfl

end filled

/-- Whatever was read as the message's text, the response is made of nothing else. -/
theorem echoOutput_cstr (heap : EchoHeap) (msg : NewLineMsg) (text : Bytes)
    (hcstr : iobufferCstr msg.iob = .ok text) (hz : 0 ∉ text) (hlen : text.length ≤ 4077) :
    echoOutput heap msg = .ok ((echoLine text).map some) := by
  have hresponse := serverResponse_length text
  obtain ⟨response, hprocess, hholds⟩ := processInputMessage_cstr msg text hcstr hz
    (hlen.trans (by decide))
  obtain ⟨out, hserial, hout⟩ := newlineMsgSerialize_holds (response.filled heap.response) _
    (serverResponse text) (hholds.filled heap.response) (List.length_pos_iff.mp (by omega))
    (zero_not_mem_serverResponse text hz) (by rw [iobufferDefaultCapacity]; omega)
  rw [echoOutput, hprocess, ok_bind, hserial, ok_bind, (hout.filled heap.output).holds.data, echoLine]

/-- The parser starts with an empty message, whatever its block contains. -/
theorem newlineMsgParserNew_filled (contents : ℕ → UInt8) :
    ∃ mp, newlineMsgParserNew = .ok mp ∧
      NewLineMsgParser.Parsed ⟨mp.msg.filled contents⟩ [] [] := by
  obtain ⟨mp, hnew, hparsed⟩ := newlineMsgParserNew_parsed
  exact ⟨mp, hnew, .nil, IOBuffer.HoldsText.filled contents hparsed.current⟩

theorem emit_snoc (msgs emitted : List NewLineMsg) :
    emit (fun msgs msg _ => msgs ++ [msg]) msgs emitted = msgs ++ emitted := by
  induction emitted generalizing msgs with
  | nil => exact (List.append_nil msgs).symm
  | cons msg emitted ih => exact (ih (msgs ++ [msg])).trans (List.append_assoc _ _ _)

/-- A line that is not empty is answered from its own bytes. -/
theorem echoOutputs_line (heap : EchoHeap) (line : Bytes) (stop : UInt8) (hstop : isLineEnd stop = true)
    (hfree : ∀ ch ∈ line, isLineEnd ch = false) (hne : line ≠ []) (hlen : line.length ≤ 4077)
    (blocks : List Bytes) (hcut : Cuts blocks (line ++ [stop])) (iobs : List IOBuffer)
    (hiobs : Carries iobs blocks) :
    echoOutputs heap iobs = .ok [(echoLine line).map some] := by
  obtain ⟨mp, hnew, hparsed⟩ := newlineMsgParserNew_filled heap.message
  have hpieces := pieces_of_free isLineEnd hfree
  have hlines : completeLines (line ++ [stop]) = [line] := by
    rw [completeLines, completePieces_snoc, if_pos hstop, hpieces.1, hpieces.2, List.nil_append]
  have hz : 0 ∉ line := fun hmem => absurd (hfree 0 hmem) (by decide)
  have hlast : unfinishedLine (line ++ [stop]) = [] := by
    rw [unfinishedLine, lastPiece_snoc, if_pos hstop]
  obtain ⟨mp', iobs', emitted, hfeed, -, -, hparsed'⟩ := newlineMsgParserFeed_fits
    (fun msgs msg _ => msgs ++ [msg]) iobs blocks hiobs _ hparsed []
    (by
      rw [hcut.flatten_eq, hlines, List.forall_mem_singleton]
      exact hlen.trans (by decide))
    (by
      rw [hcut.flatten_eq, hlast]
      exact Nat.zero_le _)
  have hmsgs := hparsed'.lines
  rw [hcut.flatten_eq, hlines] at hmsgs
  cases hmsgs with
  | @cons msg _ _ _ hmsg hnil =>
    cases hnil
    have hout := echoOutput_cstr heap msg line (IOBuffer.HoldsText.cstr hmsg hne hz) hz hlen
    rw [echoOutputs, hnew, ok_bind, hfeed, ok_bind]
    simp only [emit_snoc, List.nil_append, List.mapM_cons, hout, ok_bind, List.mapM_nil]
    rfl

/-- A line end alone: the callback gets the message that the parser has. -/
theorem newlineMsgParserFeed_stop {σ : Type} (cb : σ → NewLineMsg → ℤ → σ) (mp : NewLineMsgParser)
    (stop : UInt8) (hstop : isLineEnd stop = true) (arg : σ) :
    ∃ mp' iobs', newlineMsgParserFeed cb mp [blockBuffer [stop]] arg =
      .ok (mp', iobs', cb arg mp.msg 0) := by
  obtain ⟨fresh, hnew, -⟩ := newlineMsgNew_says
  obtain ⟨iob, hpop, -⟩ := iobufferConsumePopFront_queues _ _ (some stop) [] (blockBuffer_queues [stop])
  have hchar : parserConsumeChar cb mp arg (some stop) = .ok (⟨fresh⟩, cb arg mp.msg 0) := by
    rw [parserConsumeChar, if_pos hstop, hnew, ok_bind]
  have hconsume : newlineMsgParserConsume cb mp (blockBuffer [stop]) arg =
      .ok (⟨fresh⟩, iob, cb arg mp.msg 0) := by
    show parserConsumeLoop cb 1 mp (blockBuffer [stop]) arg = _
    rw [parserConsumeLoop, if_neg (by exact Bool.false_ne_true), hpop, ok_bind]
    show (parserConsumeChar cb mp arg (some stop) >>= _) = _
    rw [hchar, ok_bind]
    rfl
  refine ⟨⟨fresh⟩, [iob], ?_⟩
  rw [newlineMsgParserFeed, hconsume, ok_bind]
  rfl

/-- The block of a new message is all contents. -/
theorem newlineMsgParserNew_unwritten :
    ∃ mp, newlineMsgParserNew = .ok mp ∧ mp.msg.iob.bufferPtr = 0 ∧
      ∀ i ≤ iobufferDefaultCapacity, mp.msg.iob.mem[i]? = some none := by
  have hcap : cInt ((iobufferDefaultCapacity : ℤ)+1) = 4097 := by decide
  have hnew : iobufferNew = .ok ⟨List.replicate 4097 none, iobufferDefaultCapacity, 0, 0⟩ := by
    rw [iobufferNew, iobufferNewWithCapacity, iobufferInit, hcap]
    rfl
  refine ⟨⟨⟨⟨List.replicate 4097 none, iobufferDefaultCapacity, 0, 0⟩⟩⟩, ?_, rfl, fun i hi => ?_⟩
  · rw [newlineMsgParserNew, newlineMsgNew, hnew, ok_bind, ok_bind]
  · rw [iobufferDefaultCapacity] at hi
    exact List.getElem?_replicate_of_lt (by omega)

/-- An empty message reads as the string that is in its block. -/
theorem filled_cstr (iob : IOBuffer) (contents : ℕ → UInt8) (text : Bytes) (hptr : iob.bufferPtr = 0)
    (hmem : ∀ i ≤ text.length, iob.mem[i]? = some none) (hz : 0 ∉ text)
    (hcontents : ∀ i ≤ text.length, some (contents i) = (text ++ [0])[i]?) :
    iobufferCstr (iob.filled contents) = .ok text := by
  have hcell : ∀ i ≤ text.length, (iob.filled contents).mem[i]? = (text ++ [0])[i]?.map some := by
    intro i hi
    rw [filled_getElem?, hmem i hi, ← hcontents i hi]
    rfl
  refine iobufferCstr_terminated { iob.filled contents with bufferRemaining := text.length } text
    ?_ ?_ hz
  · apply List.ext_getElem?
    intro j
    rw [iobufferData_getElem?, List.getElem?_map]
    show (if j < text.length then (iob.filled contents).mem[iob.bufferPtr+j]? else none) = _
    split_ifs with hj
    · rw [hptr, Nat.zero_add, hcell j hj.le, List.getElem?_append_left hj]
    · rw [List.getElem?_eq_none (not_lt.mp hj)]
      rfl
  · show (iob.filled contents).mem[iob.bufferPtr+text.length]? = _
    rw [hptr, Nat.zero_add, hcell _ le_rfl, List.getElem?_concat_length]
    rfl

/-- The message of an empty line still has what malloc left in its block. -/
theorem echoOutputs_empty (heap : EchoHeap) (stop : UInt8) (hstop : isLineEnd stop = true)
    (text : Bytes) (hz : 0 ∉ text) (hlen : text.length ≤ 4077)
    (hheap : ∀ i ≤ text.length, some (heap.message i) = (text ++ [0])[i]?) :
    echoOutputs heap [blockBuffer [stop]] = .ok [(echoLine text).map some] := by
  obtain ⟨mp, hnew, hptr, hmem⟩ := newlineMsgParserNew_unwritten
  obtain ⟨mp', iobs', hfeed⟩ := newlineMsgParserFeed_stop (fun msgs msg _ => msgs ++ [msg])
    ⟨mp.msg.filled heap.message⟩ stop hstop []
  have hcstr : iobufferCstr (mp.msg.filled heap.message).iob = .ok text :=
    filled_cstr mp.msg.iob heap.message text hptr
      (fun i hi => hmem i (by rw [iobufferDefaultCapacity]; omega)) hz hheap
  rw [echoOutputs, hnew, ok_bind, hfeed, ok_bind]
  simp only [List.nil_append, List.mapM_cons, echoOutput_cstr heap _ text hcstr hz hlen, ok_bind,
    List.mapM_nil]
  rfl

/-- Memory that is all zero, and memory that starts with the letter A. -/
def zeroHeap : EchoHeap := ⟨fun _ => 0, fun _ => 0, fun _ => 0⟩

def letterHeap : EchoHeap := ⟨fun i => if i = 0 then 65 else 0, fun _ => 0, fun _ => 0⟩

theorem zeroHeap_output :
    echoOutputs zeroHeap [blockBuffer [10]] = .ok [(echoLine []).map some] :=
  echoOutputs_empty zeroHeap 10 rfl [] nofun (by decide) (by decide)

theorem letterHeap_output :
    echoOutputs letterHeap [blockBuffer [10]] = .ok [(echoLine [65]).map some] :=
  echoOutputs_empty letterHeap 10 rfl [65] (by decide) (by decide) (by decide)

/-- The response is a function of the line, exactly when the line is not empty. -/
theorem echo_response_determined_iff (line : Bytes) (hline : ∀ ch ∈ line, ch ≠ 0 ∧ ch ≠ 10)
    (hlen : line.length ≤ 4000) :
    (∀ heap heap' stop blocks iobs iobs', isLineEnd stop = true → Cuts blocks (line ++ [stop]) →
        Carries iobs blocks → Carries iobs' blocks →
        echoOutputs heap iobs = echoOutputs heap' iobs') ↔
      line ≠ [] := by
  constructor
  · rintro h rfl
    have hempty := h zeroHeap letterHeap 10 [[10]] _ _ rfl ⟨rfl, by decide⟩
      (blockBuffer_carries [[10]]) (blockBuffer_carries [[10]])
    rw [List.map_singleton, zeroHeap_output, letterHeap_output] at hempty
    exact absurd (Except.ok.inj hempty) (by decide)
  · intro hne heap heap' stop blocks iobs iobs' hstop hcut hiobs hiobs'
    have hfree : ∀ ch ∈ line, isLineEnd ch = false := by
      intro ch hch
      simp only [isLineEnd, hline ch hch, decide_false, Bool.or_self]
    rw [echoOutputs_line heap line stop hstop hfree hne (by omega) blocks hcut iobs hiobs,
      echoOutputs_line heap' line stop hstop hfree hne (by omega) blocks hcut iobs' hiobs']

/-- A line in two blocks, from the two heaps. -/
theorem echo_response_determined_hi :
    echoOutputs zeroHeap ([[104], [105, 10]].map blockBuffer) =
      echoOutputs letterHeap ([[104], [105, 10]].map blockBuffer) :=
  (echo_response_determined_iff [104, 105] (by simp) (by simp)).mpr (List.cons_ne_nil _ _) zeroHeap
    letterHeap 10 [[104], [105, 10]] _ _ rfl ⟨rfl, by decide⟩ (blockBuffer_carries _)
    (blockBuffer_carries _)

/-- The same empty line, answered with a byte that nobody sent. -/
theorem echo_empty_line_leaks :
    echoOutputs zeroHeap [blockBuffer [10]] = .ok [(echoLine []).map some] ∧
      echoOutputs letterHeap [blockBuffer [10]] = .ok [(echoLine [65]).map some] ∧
      echoLine [] ≠ echoLine [65] :=
  ⟨zeroHeap_output, letterHeap_output, by decide⟩

end CHttp
