import CHttp.MsgParserLimits
import CHttp.IOBufferSprintf

/-! The newline parser against the splitting of its input, and against the serializer. -/
namespace CHttp

section splits

variable {σ : Type} (cb : σ → NewLineMsg → ℤ → σ)

/-- A fresh parser hands over one message for each line end, with the bytes in front of it,
keeps the bytes behind the last one, and empties all its input. -/
def NewlineSplits (arg : σ) (iobs : List IOBuffer) (stream : Bytes) : Prop :=
  ∃ mp mp' iobs' msgs, newlineMsgParserNew = .ok mp ∧
    newlineMsgParserFeed cb mp iobs arg = .ok (mp', iobs', emit cb arg msgs) ∧
    (msgs ++ [mp'.msg]).map (fun msg => iobufferData msg.iob) =
      (stream.splitOnP isLineEnd).map (List.map some) ∧
    msgs.length = stream.countP isLineEnd ∧
    iobs'.length = iobs.length ∧ ∀ iob ∈ iobs', iobufferEmpty iob = true

theorem forall_mem_splitOnP_iff {P : Bytes → Prop} (stream : Bytes) :
    (∀ piece ∈ stream.splitOnP isLineEnd, P piece) ↔
      (∀ line ∈ completeLines stream, P line) ∧ P (unfinishedLine stream) := by
  rw [splitOnP_eq_pieces, List.forall_mem_append, List.forall_mem_singleton]
  rfl

/-- What the parser made is the splitting of what it read. -/
theorem NewLineMsgParser.Parsed.splits {mp : NewLineMsgParser} {b : Bytes} {msgs : List NewLineMsg}
    (h : mp.Parsed b msgs) :
    (msgs ++ [mp.msg]).map (fun msg => iobufferData msg.iob) =
        (b.splitOnP isLineEnd).map (List.map some) ∧
      msgs.length = b.countP isLineEnd := by
  constructor
  · rw [splitOnP_eq_pieces, List.map_append, List.map_append, says_data h.lines, List.map_singleton,
      h.current.data, List.map_singleton]
    rfl
  · rw [h.lines.length_eq, completeLines, length_completePieces]

/-- For every stream and every way to cut it into blocks, the parser splits the stream at its
line ends exactly if no piece, the first and the last included, is longer than a message. -/
theorem newline_splits_iff (arg : σ) (stream : Bytes) (blocks : List Bytes)
    (hcut : blocks.flatten = stream) (iobs : List IOBuffer) (hiobs : Carries iobs blocks) :
    NewlineSplits cb arg iobs stream ↔
      ∀ piece ∈ stream.splitOnP isLineEnd, piece.length ≤ 4096 := by
  obtain ⟨mp, hnew, hfresh⟩ := newlineMsgParserNew_parsed
  rw [forall_mem_splitOnP_iff, ← hcut]
  constructor
  · rintro ⟨mp₁, mp', iobs', msgs, hnew₁, hfeed, -⟩
    obtain rfl := Except.ok.inj (hnew.symm.trans hnew₁)
    refine (newlineFeed_assertion_iff cb arg blocks iobs hiobs mp hnew).mp ?_
    rw [hfeed]
    exact nofun
  · rintro ⟨hlines, hlast⟩
    obtain ⟨mp', iobs', msgs, hfeed, hlen, hempty, hparsed⟩ :=
      newlineMsgParserFeed_fits cb iobs blocks hiobs mp hfresh arg hlines hlast
    exact ⟨mp, mp', iobs', msgs, hnew, hfeed, hparsed.splits.1, hparsed.splits.2, hlen, hempty⟩

end splits

theorem newline_splits_two :
    NewlineSplits (fun n _ _ => n+1) 0 ([[97], [], [10, 98]].map blockBuffer) [97, 10, 98] :=
  (newline_splits_iff (fun n _ _ => n+1) 0 [97, 10, 98] [[97], [], [10, 98]] rfl _
    (blockBuffer_carries _)).mpr (by decide)

/-- No line end at all, so that nothing lies between two of them, and 4097 bytes. -/
theorem newline_unfinished_aborts :
    (∀ line ∈ completeLines (List.replicate 4097 97), line.length ≤ 4096) ∧
      ∃ mp, newlineMsgParserNew = .ok mp ∧
        newlineMsgParserFeed (fun n _ _ => n+1) mp [blockBuffer (List.replicate 4097 97)] 0 =
          .error (.assertion "mem_len >= len") := by
  have hfree : ∀ ch ∈ List.replicate 4097 (97 : UInt8), isLineEnd ch = false := by
    intro ch hch
    rw [List.eq_of_mem_replicate hch]
    rfl
  refine ⟨?_, newline_long_line 4097 (by decide)⟩
  rw [completeLines, (pieces_of_free isLineEnd hfree).1]
  exact List.forall_mem_nil _

/-- The content of a message is a text, and the NUL that a commit writes is behind it. -/
structure NewLineMsg.Content (msg : NewLineMsg) (text : Bytes) : Prop where
  data : iobufferData msg.iob = text.map some
  terminated : msg.iob.mem[msg.iob.bufferPtr+msg.iob.bufferRemaining]? = some (some 0)

section serialize

variable {msg : NewLineMsg} {text : Bytes} {msgs : List NewLineMsg} {texts : List Bytes}

theorem newlineMsgSerialize_sprintf (h : msg.Content text) (hz : 0 ∉ text) :
    ∃ tmp, tmp.Holds iobufferDefaultCapacity [] ∧
      newlineMsgSerialize msg = iobufferSprintf tmp (text ++ [10]) := by
  obtain ⟨tmp, hnew, htmp⟩ := iobufferNew_holdsText
  have hcstr := iobufferCstr_terminated msg.iob text h.data h.terminated hz
  refine ⟨tmp, htmp.holds, ?_⟩
  simp only [newlineMsgSerialize, hnew, ok_bind, hcstr]

/-- With its newline the text fills the buffer of 4096 bytes, so that `IOBuffer_sprintf`
goes on to expand it. -/
theorem newlineMsgSerialize_long (h : msg.Content text) (hz : 0 ∉ text) (hlong : 4094 < text.length) :
    newlineMsgSerialize msg = .error .outOfBounds := by
  obtain ⟨tmp, htmp, hserialize⟩ := newlineMsgSerialize_sprintf h hz
  have hlen : (text ++ [10]).length = text.length+1 := by
    rw [List.length_append, List.length_singleton]
  have hspace : iobufferSpaceLen tmp = 4096 := by
    rw [htmp.queues.space, htmp.ptr]
    rfl
  have hcap : tmp.bufferCapacity = 4096 := htmp.capacity
  rw [hserialize, iobufferSprintf, hlen, hspace, hcap, if_pos (by omega), if_pos (by omega)]

theorem newlineMsgSerialize_iff (h : msg.Content text) (hz : 0 ∉ text) :
    OkIff (newlineMsgSerialize msg) (fun iob => iobufferData iob = (text ++ [10]).map some)
      (text.length ≤ 4094) := by
  rcases Nat.lt_or_ge 4094 text.length with hlong | hfits
  · exact .of_error (newlineMsgSerialize_long h hz hlong) (Nat.not_le.mpr hlong)
  · obtain ⟨tmp, htmp, hserialize⟩ := newlineMsgSerialize_sprintf h hz
    obtain ⟨iob, hprint, hiob⟩ := iobufferSprintf_holdsText tmp _ (text ++ [10]) htmp (by simp)
      (by rw [List.length_append, List.length_singleton, iobufferDefaultCapacity]; omega)
    exact .of_ok (hserialize.trans hprint) hiob.holds.data hfits

/-- A list of messages is serialised if each of them is. -/
theorem newlineMsgSerialize_all_iff (h : List.Forall₂ NewLineMsg.Content msgs texts)
    (hz : ∀ text ∈ texts, 0 ∉ text) :
    OkIff (msgs.mapM newlineMsgSerialize)
      (fun outs => outs.flatMap iobufferData = (texts.flatMap (· ++ [10])).map some)
      (∀ text ∈ texts, text.length ≤ 4094) := by
  induction h with
  | nil => exact .of_ok rfl rfl nofun
  | @cons msg text msgs texts hmsg _ ih =>
    rw [List.forall_mem_cons] at hz
    have hhead := newlineMsgSerialize_iff hmsg hz.1
    have htail := ih hz.2
    rw [List.mapM_cons]
    rcases hserialize : newlineMsgSerialize msg with e | iob
    · refine .of_error rfl fun hall => ?_
      obtain ⟨iob, hiob⟩ := hhead.iff.mpr (hall text List.mem_cons_self)
      cases hserialize.symm.trans hiob
    · rw [ok_bind]
      refine (htail.bind (iob :: ·) fun outs houts => ?_).congr ?_
      · rw [List.flatMap_cons, List.flatMap_cons, List.map_append, hhead.result iob hserialize, houts]
      · rw [List.forall_mem_cons, and_iff_right (hhead.iff.mp ⟨iob, hserialize⟩)]

end serialize

/-- The messages can be serialised, and a fresh parser that is fed the outputs, in whatever
blocks, hands over messages with the same contents. -/
def NewlineRoundTrips {σ : Type} (cb : σ → NewLineMsg → ℤ → σ) (arg : σ) (msgs : List NewLineMsg)
    (texts : List Bytes) : Prop :=
  ∃ outs stream, msgs.mapM newlineMsgSerialize = .ok outs ∧
    outs.flatMap iobufferData = stream.map some ∧
    ∀ blocks iobs, blocks.flatten = stream → Carries iobs blocks →
      ∃ mp mp' iobs' delivered, newlineMsgParserNew = .ok mp ∧
        newlineMsgParserFeed cb mp iobs arg = .ok (mp', iobs', emit cb arg delivered) ∧
        delivered.map (fun msg => iobufferData msg.iob) = texts.map (List.map some)

/-- For messages of at most 4096 bytes, which is what the parser can hand over, the round
trip works exactly if none has more than 4094. -/
theorem newline_round_trips_iff {σ : Type} (cb : σ → NewLineMsg → ℤ → σ) (arg : σ)
    (msgs : List NewLineMsg) (texts : List Bytes)
    (hcontent : List.Forall₂ NewLineMsg.Content msgs texts)
    (hfree : ∀ text ∈ texts, ∀ ch ∈ text, isLineEnd ch = false)
    (hlen : ∀ text ∈ texts, text.length ≤ 4096) :
    NewlineRoundTrips cb arg msgs texts ↔ ∀ text ∈ texts, text.length ≤ 4094 := by
  have hz : ∀ text ∈ texts, 0 ∉ text := by
    intro text hmem hzero
    cases hfree text hmem 0 hzero
  have hserialize := newlineMsgSerialize_all_iff hcontent hz
  constructor
  · rintro ⟨outs, stream, houts, -⟩
    exact hserialize.iff.mp ⟨outs, houts⟩
  · intro hfits
    obtain ⟨outs, houts⟩ := hserialize.iff.mpr hfits
    refine ⟨outs, texts.flatMap (· ++ [10]), houts, hserialize.result outs houts, ?_⟩
    intro blocks iobs hcut hiobs
    obtain ⟨mp, hnew, hfresh⟩ := newlineMsgParserNew_parsed
    obtain ⟨hlines, hlast⟩ := pieces_unique isLineEnd texts []
      (splitOnP_flatMap_snoc isLineEnd texts 10 rfl hfree)
    obtain ⟨mp', iobs', delivered, hfeed, -, -, hparsed⟩ := newlineMsgParserFeed_fits cb iobs blocks
      hiobs mp hfresh arg (by rw [hcut, completeLines, hlines]; exact hlen)
      (by rw [hcut, unfinishedLine, hlast]; exact Nat.zero_le _)
    refine ⟨mp, mp', iobs', delivered, hnew, hfeed, ?_⟩
    rw [says_data hparsed.lines, hcut, completeLines, hlines]

/-- A message as the parser puts it together. -/
def newlineMsgOf (text : Bytes) : NewLineMsg := ⟨⟨text.map some ++ [some 0], text.length, 0, text.length⟩⟩

theorem newlineMsgOf_content (text : Bytes) : (newlineMsgOf text).Content text := by
  constructor
  · rw [newlineMsgOf, iobufferData, List.drop_zero, List.take_left' (List.length_map _)]
  · rw [newlineMsgOf, Nat.zero_add, List.getElem?_append_right (List.length_map _).le,
      List.length_map, Nat.sub_self]
    rfl

theorem newline_round_trips_two :
    NewlineRoundTrips (fun n _ _ => n+1) 0 ([[97], [98, 99]].map newlineMsgOf) [[97], [98, 99]] :=
  (newline_round_trips_iff (fun n _ _ => n+1) 0 _ _
    (.cons (newlineMsgOf_content _) (.cons (newlineMsgOf_content _) .nil)) (by decide +kernel)
    (by simp)).mpr (by simp)

/-- The parser hands over a line of 4095 bytes; serialising it has `IOBuffer_sprintf` write
into the block that it freed. -/
theorem newline_round_trip_fails :
    newlineMsgSerialize (newlineMsgOf (List.replicate 4095 97)) = .error .outOfBounds ∧
      ¬NewlineRoundTrips (fun n _ _ => n+1) 0 [newlineMsgOf (List.replicate 4095 97)]
        [List.replicate 4095 97] := by
  have hz : (0 : UInt8) ∉ List.replicate 4095 97 := by
    intro hmem
    cases List.eq_of_mem_replicate hmem
  have hserialize := newlineMsgSerialize_long (newlineMsgOf_content (List.replicate 4095 97)) hz
    (by rw [List.length_replicate]; omega)
  refine ⟨hserialize, ?_⟩
  rintro ⟨outs, stream, houts, -⟩
  rw [List.mapM_cons, hserialize, error_bind] at houts
  cases houts

end CHttp
