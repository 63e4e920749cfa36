import CHttp.MsgStream

/-! Reading from a message stream: every line is handed over once and in order, whatever
blocks `read` delivers and whenever the client asks for the next message. -/
namespace CHttp

/-- Where a `msg_stream_read` stands: there is none, the thread is in `read`, a readiness
event is awaited, or `postable_read` is posted. -/
inductive ReadPhase where
  | idle
  | reading
  | waiting
  | posted
  deriving DecidableEq

/-- A `tcp_read` is pending. -/
def ReadPhase.pending : ReadPhase → Bool
  | .reading | .waiting => true
  | .idle | .posted => false

section stream

variable {κ : Type} {m : MsgStream κ} {cb : κ}

/-- The fields that writing uses. -/
def MsgStream.writing (m : MsgStream κ) : Option IOBuffer × Option κ × TcpWriter :=
  (m.outputBuffer, m.writeCb, m.tcp.writer)

/-- The fields that reading uses. -/
def MsgStream.reading (m : MsgStream κ) :
    Option IOBuffer × Option κ × List NewLineMsg × NewLineMsgParser × TcpReader :=
  (m.inputBuffer, m.readCb, m.inputMessageList, m.parser, m.tcp.reader)

/-- The stream in a phase of a read. The input buffer is empty whenever the parser is not
at work, and messages are kept only while nobody waits for one. -/
structure MsgStream.ReadsAt (m : MsgStream κ) (phase : ReadPhase) : Prop where
  live : m.tcp.reader.readState.live = true
  buffer : m.tcp.reader.inputBuffer = phase.pending
  callback : m.tcp.reader.readCb = phase.pending
  empty : ∀ iob, m.inputBuffer = some iob → iob.Holds iobufferDefaultCapacity []
  idle : phase = .idle ↔ m.readCb = none
  busy : phase ≠ .idle → m.inputMessageList = [] ∧ ∃ iob, m.inputBuffer = some iob

/-- The phase is the same for streams that agree on what reading uses. -/
theorem MsgStream.ReadsAt.frame {m' : MsgStream κ} {phase : ReadPhase} (h : m.ReadsAt phase)
    (hm : m'.reading = m.reading) : m'.ReadsAt phase := by
  simp only [MsgStream.reading, Prod.mk.injEq] at hm
  obtain ⟨hbuf, hcb, hlist, -, hreader⟩ := hm
  refine ⟨?_, ?_, ?_, ?_, ?_, ?_⟩
  · rw [hreader]
    exact h.live
  · rw [hreader]
    exact h.buffer
  · rw [hreader]
    exact h.callback
  · rw [hbuf]
    exact h.empty
  · rw [hcb]
    exact h.idle
  · rw [hlist, hbuf]
    exact h.busy

theorem MsgStream.ReadsAt.readCb_some {phase : ReadPhase} (h : m.ReadsAt phase)
    (hp : phase ≠ .idle) : ∃ cb, m.readCb = some cb :=
  Option.ne_none_iff_exists'.mp (h.idle.not.mp hp)

theorem iobufferSpaceLen_empty {iob : IOBuffer} (h : iob.Holds iobufferDefaultCapacity []) :
    iobufferSpaceLen iob = iobufferDefaultCapacity := by
  rw [h.queues.space, h.ptr]
  rfl

/-- A stream whose `tcp_read` is not pending gets as far as `read`. -/
theorem msgTryRead_reads (iob : IOBuffer) (hl : m.tcp.reader.readState.live = true)
    (hb : m.tcp.reader.inputBuffer = false) (hc : m.tcp.reader.readCb = false)
    (hi : m.inputBuffer = some iob) (hh : iob.Holds iobufferDefaultCapacity [])
    (hcb : m.readCb = some cb) (hlist : m.inputMessageList = []) :
    ∃ m', msgTryRead m = .ok (m', .read) ∧ m'.ReadsAt .reading ∧ m'.readCb = some cb ∧
      m'.inputMessageList = [] ∧ m'.parser = m.parser ∧ m'.writing = m.writing := by
  have hspace : iobufferSpaceLen iob ≠ 0 := by
    rw [iobufferSpaceLen_empty hh]
    decide
  refine ⟨{ m with tcp := { m.tcp with
    reader := { m.tcp.reader with inputBuffer := true, readCb := true } } }, ?_, ?_, hcb, hlist,
    rfl, rfl⟩
  · simp only [msgTryRead, hi, tcpRead_reads m.tcp iob hb hc hl hspace, ok_bind, if_true]
  · refine ⟨hl, rfl, rfl, ?_, ?_, fun _ => ⟨hlist, iob, hi⟩⟩
    · intro iob' hi'
      obtain rfl : iob = iob' := Option.some.inj (hi.symm.trans hi')
      exact hh
    · simp only [hcb, reduceCtorEq]

theorem msgInputBuffer_holds (h : m.ReadsAt .idle) :
    ∃ iob, msgInputBuffer m = .ok iob ∧ iob.Holds iobufferDefaultCapacity [] := by
  rcases Option.eq_none_or_eq_some m.inputBuffer with hi | ⟨iob, hi⟩
  · obtain ⟨iob, hnew, hh⟩ := iobufferNew_holdsText
    exact ⟨iob, by rw [msgInputBuffer, hi]; exact hnew, hh.holds⟩
  · exact ⟨iob, by rw [msgInputBuffer, hi], h.empty iob hi⟩

/-- A read that finds a message waiting calls back at once. -/
theorem msgStreamRead_kept (h : m.ReadsAt .idle) (msg : NewLineMsg) (rest : List NewLineMsg)
    (hlist : m.inputMessageList = msg :: rest) (cb : κ) :
    ∃ m', msgStreamRead m cb = .ok (m', .readCallback cb (some msg) 0) ∧ m'.ReadsAt .idle ∧
      m'.inputMessageList = rest ∧ m'.parser = m.parser ∧ m'.writing = m.writing := by
  obtain ⟨iob, hiob, hh⟩ := msgInputBuffer_holds h
  have hcb := h.idle.mp rfl
  refine ⟨{ m with inputBuffer := some iob, readCb := none, inputMessageList := rest }, ?_,
    ⟨h.live, h.buffer, h.callback, ?_, ?_, fun hp => absurd rfl hp⟩, rfl, rfl, rfl⟩
  · simp only [msgStreamRead, hcb, Option.isNone_none, cAssert_true, ok_bind, hiob, hlist,
      msgInvokeReadCallback]
  · intro iob' hi'
    obtain rfl := Option.some.inj hi'
    exact hh
  · simp only

theorem msgStreamRead_reads (h : m.ReadsAt .idle) (hlist : m.inputMessageList = []) (cb : κ) :
    ∃ m', msgStreamRead m cb = .ok (m', .read) ∧ m'.ReadsAt .reading ∧ m'.readCb = some cb ∧
      m'.inputMessageList = [] ∧ m'.parser = m.parser ∧ m'.writing = m.writing := by
  obtain ⟨iob, hiob, hh⟩ := msgInputBuffer_holds h
  have hcb := h.idle.mp rfl
  obtain ⟨m', htry, hm'⟩ := msgTryRead_reads
    (m := { m with inputBuffer := some iob, readCb := some cb }) iob h.live h.buffer h.callback rfl
    hh rfl hlist
  refine ⟨m', ?_, hm'⟩
  rw [← htry]
  simp only [msgStreamRead, hcb, Option.isNone_none, cAssert_true, ok_bind, hiob, hlist]

theorem msgRunPosted_reads (h : m.ReadsAt .posted) (hcb : m.readCb = some cb) :
    ∃ m', msgRunPosted m .postableRead = .ok (m', .read) ∧ m'.ReadsAt .reading ∧
      m'.readCb = some cb ∧ m'.inputMessageList = [] ∧ m'.parser = m.parser ∧
      m'.writing = m.writing := by
  obtain ⟨hlist, iob, hi⟩ := h.busy nofun
  exact msgTryRead_reads iob h.live h.buffer h.callback hi (h.empty iob hi) hcb hlist

theorem msgReadReady_reads (h : m.ReadsAt .waiting) :
    ∃ m', msgReadReady m = .ok (m', .read) ∧ m'.ReadsAt .reading ∧ m'.readCb = m.readCb ∧
      m'.inputMessageList = m.inputMessageList ∧ m'.parser = m.parser ∧ m'.writing = m.writing := by
  refine ⟨{ m with tcp := { m.tcp with reader := { m.tcp.reader with readState := .ready } } }, ?_,
    ⟨rfl, h.buffer, h.callback, h.empty, ?_, fun _ => h.busy nofun⟩, rfl, rfl, rfl, rfl⟩
  · simp only [msgReadReady, readReadyCallback_reads m.tcp h.buffer h.live, ok_bind, if_true]
  · exact iff_of_false nofun (h.idle.not.mp nofun)

theorem msgReadReturns_eagain (h : m.ReadsAt .reading) :
    ∃ m', msgReadReturns m .eagain = .ok (m', .returned) ∧ m'.ReadsAt .waiting ∧
      m'.readCb = m.readCb ∧ m'.inputMessageList = m.inputMessageList ∧ m'.parser = m.parser ∧
      m'.writing = m.writing := by
  obtain ⟨-, iob, hi⟩ := h.busy (by decide)
  refine ⟨{ m with tcp := { m.tcp with reader := { m.tcp.reader with readState := .eagain } } }, ?_,
    ⟨rfl, h.buffer, h.callback, h.empty, ?_, fun _ => h.busy (by decide)⟩, rfl, rfl, rfl, rfl⟩
  · simp only [msgReadReturns, hi, tcpReadReturns, ok_bind]
  · exact iff_of_false (by decide) (h.idle.not.mp (by decide))

theorem emit_newMessageCallback (list msgs : List NewLineMsg) :
    emit newMessageCallback list msgs = list ++ msgs := by
  induction msgs generalizing list with
  | nil => exact (List.append_nil list).symm
  | cons msg msgs ih =>
    have hstep : emit newMessageCallback list (msg :: msgs) =
        emit newMessageCallback (list ++ [msg]) msgs := rfl
    rw [hstep, ih, List.append_assoc, List.singleton_append]

/-- A block of bytes: the first message it completes goes to the callback and the others
are kept; if there is none, the stream reads on by way of a post. -/
theorem msgReadReturns_bytes (h : m.ReadsAt .reading) (hcb : m.readCb = some cb) (b d : Bytes)
    (msgs : List NewLineMsg) (hp : m.parser.Parsed b msgs) (hne : d ≠ [])
    (hf : d.length ≤ iobufferDefaultCapacity) :
    (∃ m' emitted, m'.parser.Parsed (b ++ d) (msgs ++ emitted) ∧ m'.writing = m.writing ∧
      ((emitted = [] ∧ msgReadReturns m (.bytes d) = .ok (m', .post .postableRead) ∧
          m'.ReadsAt .posted ∧ m'.readCb = some cb ∧ m'.inputMessageList = []) ∨
        ∃ msg rest, emitted = msg :: rest ∧
          msgReadReturns m (.bytes d) = .ok (m', .readCallback cb (some msg) 0) ∧
          m'.ReadsAt .idle ∧ m'.inputMessageList = rest)) ∨
    (msgReadReturns m (.bytes d) = .error (.assertion "mem_len >= len") ∧
      ∃ pre, pre <+: d ∧ iobufferDefaultCapacity < (unfinishedLine (b ++ pre)).length) := by
  obtain ⟨hlist, iob, hi⟩ := h.busy (by decide)
  obtain ⟨iob₁, hreturns, hiob₁⟩ := tcpReadReturns_bytes m.tcp iob iobufferDefaultCapacity d
    h.callback (h.empty iob hi) hne hf
  have hsome : iobufferDataLen iob₁ ≠ 0 := by
    rw [iobufferDataLen, hiob₁.remaining, List.length_map]
    exact List.length_pos_iff.mpr hne |>.ne'
  rcases newlineMsgParserConsume_parsed newMessageCallback d b m.parser msgs hp iob₁ _ hiob₁
      m.inputMessageList with ⟨mp, iob₂, emitted, hconsume, hiob₂, hparsed⟩ | ⟨hconsume, hlong⟩
  · left
    have hnone : iobufferDataLen iob₂ = 0 := by
      rw [iobufferDataLen, hiob₂.remaining]
      rfl
    rw [hlist, emit_newMessageCallback, List.nil_append] at hconsume
    have hbuffer : ∀ iob, some iob₂ = some iob → iob.Holds iobufferDefaultCapacity [] := by
      intro iob hiob
      obtain rfl := Option.some.inj hiob
      exact hiob₂
    cases emitted with
    | nil =>
      refine ⟨{ m with
        tcp := { m.tcp with reader := ⟨.ready, false, false⟩ }
        parser := mp
        inputBuffer := some iob₂ }, [], hparsed, rfl, .inl ⟨rfl, ?_, ⟨rfl, rfl, rfl, hbuffer, ?_,
        fun _ => ⟨hlist, iob₂, rfl⟩⟩, hcb, hlist⟩⟩
      · simp only [msgReadReturns, hi, hreturns, ok_bind, msgTcpReadCallback, if_true, hsome, ne_eq,
          not_false_iff, decide_true, cAssert_true, hconsume, hnone, hlist]
      · exact iff_of_false (by decide) (h.idle.not.mp (by decide))
    | cons msg rest =>
      refine ⟨{ m with
        tcp := { m.tcp with reader := ⟨.ready, false, false⟩ }
        parser := mp
        inputBuffer := some iob₂
        inputMessageList := rest
        readCb := none }, msg :: rest, hparsed, rfl, .inr ⟨msg, rest, rfl, ?_, ⟨rfl, rfl, rfl,
        hbuffer, iff_of_true rfl rfl, fun hb => absurd rfl hb⟩, rfl⟩⟩
      simp only [msgReadReturns, hi, hreturns, ok_bind, msgTcpReadCallback, if_true, hsome, ne_eq,
        not_false_iff, decide_true, cAssert_true, hlist, hconsume, hnone, msgInvokeReadCallback, hcb]
  · right
    refine ⟨?_, hlong⟩
    simp only [msgReadReturns, hi, hreturns, ok_bind, msgTcpReadCallback, if_true, hsome, ne_eq,
      not_false_iff, decide_true, cAssert_true, hconsume, error_bind]

end stream

/-- The messages handed to callbacks. -/
def StreamWorld.handed (w : StreamWorld) : List NewLineMsg := w.delivered.filterMap Delivery.msg

/-- What the history says about reads, of which `cb` is under way. -/
structure StreamWorld.ReadHistory (w : StreamWorld) (peer : Bytes) (cb : Option ℕ) : Prop where
  input : w.received ++ w.incoming = peer
  carried : ∀ c ∈ w.delivered, c.error = 0 ∧ c.msg.isSome = true
  reads : w.reads = w.delivered.map Delivery.cb ++ cb.toList
  nodup : w.reads.Nodup

/-- The world in a phase of a read. -/
structure StreamWorld.ReadsAt (w : StreamWorld) (peer : Bytes) (phase : ReadPhase) : Prop where
  history : w.ReadHistory peer w.stream.readCb
  stream : w.stream.ReadsAt phase
  parsed : w.stream.parser.Parsed w.received (w.handed ++ w.stream.inputMessageList)
  call : w.call = .read ↔ phase = .reading
  posted : w.posted.count .postableRead = if phase = .posted then 1 else 0

/-- What a step of reading leaves alone. -/
structure StreamWorld.KeepsWriting (w t : StreamWorld) : Prop where
  stream : t.stream.writing = w.stream.writing
  posted : t.posted.count .postableTryWrite = w.posted.count .postableTryWrite
  writes : t.writes = w.writes
  completed : t.completed = w.completed
  outputs : t.outputs = w.outputs
  written : t.written = w.written

/-- The call with which a step enters a phase. -/
def ReadPhase.call : ReadPhase → StreamCall ℕ
  | .reading => .read
  | .posted => .post .postableRead
  | .waiting | .idle => .returned

/-- A step of reading hands a message over, or goes on to a phase of the read. -/
inductive MsgReadStep (w t : StreamWorld) : ReadPhase → Prop where
  | delivers (cb : ℕ) (msg : NewLineMsg) (hcall : t.call = .readCallback cb (some msg) 0)
      (hdelivered : t.delivered = w.delivered ++ [⟨cb, some msg, 0⟩]) : MsgReadStep w t .idle
  | proceeds (phase : ReadPhase) (hp : phase ≠ .idle) (hcall : t.call = phase.call)
      (hdelivered : t.delivered = w.delivered) : MsgReadStep w t phase

/-- The calls in which the functions of the writing side end. -/
def StreamCall.ofWriting {κ : Type} : StreamCall κ → Bool
  | .returned | .write | .post .postableTryWrite | .writeCallback _ _ => true
  | _ => false

/-- A call that the stream's client makes. -/
def StreamEvent.byClient : StreamEvent → Bool
  | .read _ | .write _ _ => true
  | _ => false

/-- The events of the writing side. -/
def StreamEvent.ofWriting : StreamEvent → Bool
  | .write _ _ | .writeReturns _ | .runPosted .postableTryWrite => true
  | _ => false

/-- `read` returns a positive count or EAGAIN. -/
def StreamEvent.PlainRead : StreamEvent → Prop
  | .readReturns (.eof _) | .readReturns (.failed _) => False
  | _ => True

/-- The events of the reading side, as far as they are plain. -/
def StreamEvent.Reading : StreamEvent → Prop
  | .read _ | .readReady | .runPosted .postableRead => True
  | .readReturns (.bytes _) | .readReturns .eagain => True
  | _ => False

theorem StreamEvent.reading_of_plain (e : StreamEvent) (hp : e.PlainRead)
    (hw : ¬e.ofWriting = true) : e.Reading := by
  cases e with
  | read cb => trivial
  | readReady => trivial
  | write cb msg => exact absurd rfl hw
  | writeReturns r => exact absurd rfl hw
  | runPosted f =>
    cases f with
    | postableRead => trivial
    | postableTryWrite => exact absurd rfl hw
  | readReturns r =>
    cases r with
    | bytes d => trivial
    | eagain => trivial
    | eof errno => exact hp.elim
    | failed errno => exact hp.elim

section frame

variable {κ : Type} {m : MsgStream κ} {r : MsgStream κ × StreamCall κ}

theorem tcpInvokeWriteCallback_reader {tcp tcp' : TcpStream}
    (h : tcpInvokeWriteCallback tcp = .ok tcp') : tcp'.reader = tcp.reader := by
  unfold tcpInvokeWriteCallback at h
  split_ifs at h
  obtain rfl := Except.ok.inj h
  rfl

theorem tcpWriteReturns_reader {tcp : TcpStream} {iob : IOBuffer} {result : TcpWriteResult}
    {next : TcpStream × IOBuffer × TcpWriteEnd} (h : tcpWriteReturns tcp iob result = .ok next) :
    next.1.reader = tcp.reader := by
  cases result with
  | wrote n =>
    obtain ⟨iob', -, h⟩ := (bind_eq_ok _ _ _).mp h
    split_ifs at h
    · obtain ⟨tcp', hinvoke, h⟩ := (bind_eq_ok _ _ _).mp h
      obtain rfl := Except.ok.inj h
      have hreader := tcpInvokeWriteCallback_reader hinvoke
      exact hreader
    · obtain rfl := Except.ok.inj h
      rfl
  | nothing errno =>
    obtain ⟨tcp', hinvoke, h⟩ := (bind_eq_ok _ _ _).mp h
    obtain rfl := Except.ok.inj h
    exact tcpInvokeWriteCallback_reader hinvoke
  | eagain =>
    obtain rfl := Except.ok.inj h
    rfl
  | failed errno =>
    obtain ⟨tcp', hinvoke, h⟩ := (bind_eq_ok _ _ _).mp h
    obtain rfl := Except.ok.inj h
    have hreader := tcpInvokeWriteCallback_reader hinvoke
    exact hreader

theorem msgStreamWrite_frame {msg : NewLineMsg} {cb : κ} (h : msgStreamWrite m msg cb = .ok r) :
    r.1.reading = m.reading ∧ r.2.ofWriting = true := by
  rw [msgStreamWrite, cAssert_bind_eq_ok, cAssert_bind_eq_ok, cAssert_bind_eq_ok] at h
  obtain ⟨iob, -, h⟩ := (bind_eq_ok _ _ _).mp h.2.2.2
  obtain ⟨tcp, hwrite, h⟩ := (bind_eq_ok _ _ _).mp h
  obtain rfl := Except.ok.inj h
  obtain ⟨pending, -, hwrite⟩ := (bind_eq_ok _ _ _).mp hwrite
  rw [cAssert_bind_eq_ok] at hwrite
  obtain ⟨-, -, htcp⟩ := (bind_eq_ok _ _ _).mp hwrite.2
  obtain rfl := Except.ok.inj htcp
  exact ⟨rfl, rfl⟩

theorem msgWriteReturns_frame {result : TcpWriteResult} (h : msgWriteReturns m result = .ok r) :
    r.1.reading = m.reading ∧ r.2.ofWriting = true := by
  unfold msgWriteReturns at h
  split at h
  · cases h
  · obtain ⟨⟨tcp, iob', next⟩, hreturns, h⟩ := (bind_eq_ok _ _ _).mp h
    have hreader : tcp.reader = m.tcp.reader := tcpWriteReturns_reader hreturns
    cases next with
    | callback error =>
      simp only [msgTcpWriteCallback, msgInvokeWriteCallback] at h
      split at h
      · cases h
      · obtain rfl := Except.ok.inj h
        simp only [MsgStream.reading, hreader, StreamCall.ofWriting, and_self]
    | post =>
      obtain rfl := Except.ok.inj h
      simp only [MsgStream.reading, hreader, StreamCall.ofWriting, and_self]
    | stall =>
      obtain rfl := Except.ok.inj h
      simp only [MsgStream.reading, hreader, StreamCall.ofWriting, and_self]

end frame

section world

variable {w t : StreamWorld} {peer : Bytes} {phase : ReadPhase}

/-- Entering a phase of the read under way. -/
theorem after_proceeds (w₀ : StreamWorld) (m : MsgStream ℕ) (phase : ReadPhase)
    (hh : w₀.ReadHistory peer m.readCb) (hm : m.ReadsAt phase) (hp : phase ≠ .idle)
    (hparsed : m.parser.Parsed w₀.received (w₀.handed ++ m.inputMessageList))
    (hposted : w₀.posted.count .postableRead = 0) :
    (w₀.after (m, phase.call)).ReadsAt peer phase := by
  obtain ⟨hinput, hcarried, hreads, hnd⟩ := hh
  cases phase with
  | idle => exact absurd rfl hp
  | reading =>
    exact ⟨⟨hinput, hcarried, hreads, hnd⟩, hm, hparsed, iff_of_true rfl rfl, hposted⟩
  | waiting =>
    exact ⟨⟨hinput, hcarried, hreads, hnd⟩, hm, hparsed, iff_of_false nofun nofun, hposted⟩
  | posted =>
    refine ⟨⟨hinput, hcarried, hreads, hnd⟩, hm, hparsed, iff_of_false nofun nofun, ?_⟩
    show List.count StreamPosted.postableRead (w₀.posted ++ [.postableRead]) = 1
    rw [List.count_append, hposted]
    rfl

/-- Handing a message to the callback of the read under way. -/
theorem after_delivers (w₀ : StreamWorld) (m : MsgStream ℕ) (cb : ℕ) (msg : NewLineMsg)
    (hh : w₀.ReadHistory peer (some cb)) (hm : m.ReadsAt .idle)
    (hparsed : m.parser.Parsed w₀.received (w₀.handed ++ msg :: m.inputMessageList))
    (hposted : w₀.posted.count .postableRead = 0) :
    (w₀.after (m, .readCallback cb (some msg) 0)).ReadsAt peer .idle := by
  have hcb : m.readCb = none := hm.idle.mp rfl
  refine ⟨⟨hh.input, ?_, ?_, hh.nodup⟩, hm, ?_, iff_of_false nofun nofun, hposted⟩
  · intro c hmem
    rcases List.mem_append.mp hmem with hold | hnew
    · exact hh.carried c hold
    · rw [List.mem_singleton.mp hnew]
      exact ⟨rfl, rfl⟩
  · show w₀.reads =
      List.map Delivery.cb (w₀.delivered ++ [⟨cb, some msg, 0⟩]) ++ m.readCb.toList
    rw [hh.reads, hcb, List.map_append, Option.toList_none, List.append_nil]
    rfl
  · have hhanded : (w₀.after (m, .readCallback cb (some msg) 0)).handed = w₀.handed ++ [msg] := by
      show List.filterMap Delivery.msg (w₀.delivered ++ [⟨cb, some msg, 0⟩]) = _
      rw [List.filterMap_append]
      rfl
    rw [hhanded, List.append_assoc]
    exact hparsed

theorem StreamWorld.ReadsAt.posted_zero (h : w.ReadsAt peer phase) (hp : phase ≠ .posted) :
    w.posted.count .postableRead = 0 := by
  rw [h.posted, if_neg hp]

/-- Once all reads have called back, none is under way. -/
theorem StreamWorld.ReadsAt.idle_of_delivered (h : w.ReadsAt peer phase)
    (hd : ∀ i ∈ w.reads, i ∈ w.delivered.map Delivery.cb) : phase = .idle := by
  rw [h.stream.idle]
  rcases Option.eq_none_or_eq_some w.stream.readCb with hcb | ⟨cb, hcb⟩
  · exact hcb
  · have hreads := h.history.reads
    have hnd := h.history.nodup
    rw [hcb, Option.toList_some] at hreads
    have hmem : cb ∈ w.reads := by
      rw [hreads]
      exact List.mem_append_right _ (List.mem_singleton.mpr rfl)
    rw [hreads] at hnd
    exact absurd (hd cb hmem) (List.disjoint_right.mp (List.disjoint_of_nodup_append hnd)
      (List.mem_singleton.mpr rfl))

theorem reads_read (h : w.ReadsAt peer phase) (cb : ℕ) (he : w.Enabled (.read cb)) :
    ∃ t phase', w.exec (.read cb) = .ok t ∧ t.ReadsAt peer phase' ∧ MsgReadStep w t phase' ∧
      w.KeepsWriting t := by
  obtain ⟨-, hd, hfresh⟩ := he
  obtain rfl := h.idle_of_delivered hd
  have hcb := h.stream.idle.mp rfl
  have hreads := h.history.reads
  rw [hcb, Option.toList_none, List.append_nil] at hreads
  have hh : StreamWorld.ReadHistory { w with reads := w.reads ++ [cb] } peer (some cb) := by
    refine ⟨h.history.input, h.history.carried, ?_, ?_⟩
    · rw [hreads, Option.toList_some]
    · exact nodup_snoc h.history.nodup hfresh
  have hposted := h.posted_zero nofun
  have hparsed := h.parsed
  cases hlist : w.stream.inputMessageList with
  | nil =>
    obtain ⟨m, hread, hm, hmcb, hmlist, hparser, hwriting⟩ := msgStreamRead_reads h.stream hlist cb
    rw [hlist, ← hparser] at hparsed
    refine ⟨StreamWorld.after { w with reads := w.reads ++ [cb] } (m, .read), .reading, ?_, ?_,
      .proceeds _ nofun rfl rfl, hwriting, rfl, rfl, rfl, rfl, rfl⟩
    · rw [StreamWorld.exec, hread, ok_bind]
    · exact after_proceeds _ m .reading (hmcb.symm ▸ hh) hm nofun
        (hmlist.symm ▸ hparsed) hposted
  | cons msg rest =>
    obtain ⟨m, hread, hm, hmlist, hparser, hwriting⟩ :=
      msgStreamRead_kept h.stream msg rest hlist cb
    rw [hlist, ← hparser, ← hmlist] at hparsed
    refine ⟨StreamWorld.after { w with reads := w.reads ++ [cb] } (m, .readCallback cb (some msg) 0),
      .idle, ?_, after_delivers _ m cb msg hh hm hparsed hposted, .delivers cb msg rfl rfl,
      hwriting, rfl, rfl, rfl, rfl, rfl⟩
    rw [StreamWorld.exec, hread, ok_bind]

/-- A readiness event and the run of `postable_read` both lead to a call of `read`. -/
theorem reads_again (h : w.ReadsAt peer phase) (w₀ : StreamWorld) (m : MsgStream ℕ)
    (hp : phase ≠ .idle) (hh : w₀.ReadHistory peer w.stream.readCb) (hm : m.ReadsAt .reading)
    (hcb : m.readCb = w.stream.readCb) (hlist : m.inputMessageList = [])
    (hparser : m.parser = w.stream.parser) (hreceived : w₀.received = w.received)
    (hdelivered : w₀.delivered = w.delivered)
    (hposted : w₀.posted.count .postableRead = 0) :
    (w₀.after (m, .read)).ReadsAt peer .reading ∧ MsgReadStep w (w₀.after (m, .read)) .reading := by
  have hparsed := h.parsed
  rw [(h.stream.busy hp).1, ← hparser, ← hreceived, StreamWorld.handed, ← hdelivered] at hparsed
  refine ⟨after_proceeds w₀ m .reading (hcb.symm ▸ hh) hm nofun (hlist.symm ▸ hparsed)
    hposted, ?_⟩
  exact .proceeds _ nofun rfl hdelivered

theorem reads_readReady (h : w.ReadsAt peer phase) (he : w.Enabled .readReady) :
    ∃ t phase', w.exec .readReady = .ok t ∧ t.ReadsAt peer phase' ∧ MsgReadStep w t phase' ∧
      w.KeepsWriting t := by
  obtain ⟨hfree, hpending, -⟩ := he
  rw [h.stream.buffer] at hpending
  obtain rfl : phase = .waiting := by
    cases phase with
    | waiting => rfl
    | reading => exact absurd (h.call.mpr rfl) hfree.1
    | idle => cases hpending
    | posted => cases hpending
  obtain ⟨m, hready, hm, hcb, hlist, hparser, hwriting⟩ := msgReadReady_reads h.stream
  rw [(h.stream.busy nofun).1] at hlist
  obtain ⟨hat, hstep⟩ := reads_again h w m nofun h.history hm hcb hlist hparser rfl rfl
    (h.posted_zero nofun)
  refine ⟨w.after (m, .read), .reading, ?_, hat, hstep, hwriting, rfl, rfl, rfl, rfl, rfl⟩
  rw [StreamWorld.exec, hready, ok_bind]

theorem reads_runPosted (h : w.ReadsAt peer phase) (he : w.Enabled (.runPosted .postableRead)) :
    ∃ t phase', w.exec (.runPosted .postableRead) = .ok t ∧ t.ReadsAt peer phase' ∧
      MsgReadStep w t phase' ∧ w.KeepsWriting t := by
  have hcount := List.count_pos_iff.mpr he.2
  have hposted := h.posted
  obtain rfl : phase = .posted := by
    by_contra hp
    rw [if_neg hp] at hposted
    omega
  obtain ⟨cb, hcb⟩ := h.stream.readCb_some nofun
  obtain ⟨m, hrun, hm, hmcb, hlist, hparser, hwriting⟩ := msgRunPosted_reads h.stream hcb
  obtain ⟨hinput, hcarried, hreads, hnd⟩ := h.history
  obtain ⟨hat, hstep⟩ := reads_again h { w with posted := w.posted.erase .postableRead } m nofun
    ⟨hinput, hcarried, hreads, hnd⟩ hm (hmcb.trans hcb.symm) hlist hparser rfl rfl (by
      rw [List.count_erase_self, hposted]
      rfl)
  refine ⟨StreamWorld.after { w with posted := w.posted.erase .postableRead } (m, .read), .reading,
    ?_, hat, hstep, hwriting, ?_, rfl, rfl, rfl, rfl⟩
  · rw [StreamWorld.exec, hrun, ok_bind]
  · show List.count StreamPosted.postableTryWrite (w.posted.erase .postableRead) = _
    exact List.count_erase_of_ne (by decide)

theorem reads_eagain (h : w.ReadsAt peer phase) (he : w.Enabled (.readReturns .eagain)) :
    ∃ t phase', w.exec (.readReturns .eagain) = .ok t ∧ t.ReadsAt peer phase' ∧
      MsgReadStep w t phase' ∧ w.KeepsWriting t := by
  obtain rfl := h.call.mp he
  obtain ⟨m, hreturns, hm, hcb, hlist, hparser, hwriting⟩ := msgReadReturns_eagain h.stream
  obtain ⟨hinput, hcarried, hreads, hnd⟩ := h.history
  have hparsed := h.parsed
  rw [← hparser, ← hlist] at hparsed
  refine ⟨StreamWorld.after { w with incoming := w.incoming.drop 0, received := w.received ++ [] }
    (m, .returned), .waiting, ?_, ?_, .proceeds _ nofun rfl rfl, hwriting, rfl, rfl, rfl,
    rfl, rfl⟩
  · rw [StreamWorld.exec, hreturns, ok_bind]
    rfl
  · rw [List.drop_zero, List.append_nil]
    exact after_proceeds w m .waiting ⟨hinput, hcarried, hcb.symm ▸ hreads, hnd⟩ hm nofun hparsed
      (h.posted_zero nofun)

/-- A block of bytes, which may contain the byte that a message has no room for. -/
theorem reads_bytes (h : w.ReadsAt peer phase) (d : Bytes)
    (he : w.Enabled (.readReturns (.bytes d))) :
    (∃ t phase', w.exec (.readReturns (.bytes d)) = .ok t ∧ t.ReadsAt peer phase' ∧
      MsgReadStep w t phase' ∧ w.KeepsWriting t) ∨
    (w.exec (.readReturns (.bytes d)) = .error (.assertion "mem_len >= len") ∧
      ∃ pre, pre <+: d ∧ iobufferDefaultCapacity < (unfinishedLine (w.received ++ pre)).length) := by
  obtain ⟨hcall, hne, ⟨rest, hrest⟩, hroom⟩ := he
  obtain rfl := h.call.mp hcall
  obtain ⟨cb, hcb⟩ := h.stream.readCb_some nofun
  obtain ⟨hlist, iob, hi⟩ := h.stream.busy nofun
  have hf : d.length ≤ iobufferDefaultCapacity := by
    simp only [msgRoom, hi, Option.map_some, Option.getD_some,
      iobufferSpaceLen_empty (h.stream.empty iob hi)] at hroom
    omega
  have hparsed := h.parsed
  rw [hlist, List.append_nil] at hparsed
  have hh : StreamWorld.ReadHistory { w with
      incoming := w.incoming.drop d.length
      received := w.received ++ d } peer (some cb) := by
    refine ⟨?_, h.history.carried, hcb ▸ h.history.reads, h.history.nodup⟩
    rw [← h.history.input, ← hrest, List.drop_left, List.append_assoc]
  rcases msgReadReturns_bytes h.stream hcb w.received d w.handed hparsed hne hf with
    ⟨m, emitted, hp, hwriting, hcases⟩ | ⟨hreturns, hlong⟩
  · left
    rcases hcases with ⟨rfl, hreturns, hm, hmcb, hmlist⟩ | ⟨msg, kept, rfl, hreturns, hm, hmlist⟩
    · refine ⟨StreamWorld.after { w with
        incoming := w.incoming.drop d.length
        received := w.received ++ d } (m, .post .postableRead), .posted, ?_, ?_,
        .proceeds _ nofun rfl rfl, hwriting, ?_, rfl, rfl, rfl, rfl⟩
      · rw [StreamWorld.exec, hreturns, ok_bind]
        rfl
      · exact after_proceeds _ m .posted (hmcb.symm ▸ hh) hm nofun (hmlist.symm ▸ hp)
          (h.posted_zero nofun)
      · show List.count StreamPosted.postableTryWrite (w.posted ++ [.postableRead]) = _
        rw [List.count_append]
        rfl
    · refine ⟨StreamWorld.after { w with
        incoming := w.incoming.drop d.length
        received := w.received ++ d } (m, .readCallback cb (some msg) 0), .idle, ?_, ?_,
        .delivers cb msg rfl rfl, hwriting, rfl, rfl, rfl, rfl, rfl⟩
      · rw [StreamWorld.exec, hreturns, ok_bind]
        rfl
      · exact after_delivers _ m cb msg hh hm (hmlist.symm ▸ hp) (h.posted_zero nofun)
  · right
    exact ⟨by rw [StreamWorld.exec, hreturns, error_bind], hlong⟩

/-- Apart from the start of a read, the events of the reading side need one under way. -/
theorem StreamWorld.ReadsAt.busy (h : w.ReadsAt peer phase) (e : StreamEvent) (hr : e.Reading)
    (hc : e.byClient = false) (he : w.Enabled e) : phase ≠ .idle := by
  rintro rfl
  cases e with
  | read cb => cases hc
  | write cb msg => cases hc
  | writeReturns r => exact hr
  | readReady =>
    have hpending := he.2.1
    rw [h.stream.buffer] at hpending
    cases hpending
  | runPosted f =>
    cases f with
    | postableRead =>
      have hcount := List.count_pos_iff.mpr he.2
      rw [h.posted_zero nofun] at hcount
      exact Nat.lt_irrefl 0 hcount
    | postableTryWrite => exact hr
  | readReturns r => cases h.call.mp (StreamWorld.call_of_readReturns he)

/-- The events of the writing side do not disturb a read. -/
theorem after_writing (w₀ : StreamWorld) (m : MsgStream ℕ) (call : StreamCall ℕ)
    (h : w₀.ReadsAt peer phase) (hp : phase ≠ .reading) (hm : m.reading = w₀.stream.reading)
    (hc : call.ofWriting = true) :
    (w₀.after (m, call)).ReadsAt peer phase ∧ (w₀.after (m, call)).delivered = w₀.delivered := by
  have hstream := h.stream.frame hm
  obtain ⟨hinput, hcarried, hreads, hnd⟩ := h.history
  have hparsed := h.parsed
  simp only [MsgStream.reading, Prod.mk.injEq] at hm
  obtain ⟨-, hcb, hlist, hparser, -⟩ := hm
  rw [← hparser, ← hlist] at hparsed
  rw [← hcb] at hreads
  cases call with
  | returned =>
    exact ⟨⟨⟨hinput, hcarried, hreads, hnd⟩, hstream, hparsed, iff_of_false nofun hp, h.posted⟩, rfl⟩
  | write =>
    exact ⟨⟨⟨hinput, hcarried, hreads, hnd⟩, hstream, hparsed, iff_of_false nofun hp, h.posted⟩, rfl⟩
  | writeCallback cb error =>
    exact ⟨⟨⟨hinput, hcarried, hreads, hnd⟩, hstream, hparsed, iff_of_false nofun hp, h.posted⟩, rfl⟩
  | post f =>
    cases f with
    | postableRead => cases hc
    | postableTryWrite =>
      refine ⟨⟨⟨hinput, hcarried, hreads, hnd⟩, hstream, hparsed, iff_of_false nofun hp, ?_⟩, rfl⟩
      show List.count StreamPosted.postableRead (w₀.posted ++ [.postableTryWrite]) = _
      rw [List.count_append, h.posted]
      rfl
  | read => cases hc
  | readCallback cb msg error => cases hc

/-- An event of the writing side does not come while the thread is in `read`. -/
theorem StreamWorld.call_ne_read (e : StreamEvent) (he : w.Enabled e) (hw : e.ofWriting = true) :
    w.call ≠ .read := by
  cases e with
  | write cb msg => exact he.1.1
  | writeReturns result =>
    rw [StreamWorld.call_of_writeReturns he]
    nofun
  | runPosted f => exact he.1.1
  | read cb => cases hw
  | readReturns r => cases hw
  | readReady => cases hw

theorem reads_keep (h : w.ReadsAt peer phase) (e : StreamEvent) (hcall : w.call ≠ .read)
    (hw : e.ofWriting = true) (hx : w.exec e = .ok t) :
    t.ReadsAt peer phase ∧ t.delivered = w.delivered ∧ t.received = w.received := by
  obtain ⟨hinput, hcarried, hreads, hnd⟩ := h.history
  have hp : phase ≠ .reading := fun hp => hcall (h.call.mpr hp)
  cases e with
  | write cb msg =>
    obtain ⟨r, hwrite, hx⟩ := (bind_eq_ok _ _ _).mp hx
    obtain rfl := Except.ok.inj hx
    obtain ⟨hm, hc⟩ := msgStreamWrite_frame hwrite
    obtain ⟨hat, hdelivered⟩ := after_writing
      { w with writes := w.writes ++ [cb], outputs := w.outputs ++ [msgOutput r.1] } r.1 r.2
      ⟨⟨hinput, hcarried, hreads, hnd⟩, h.stream, h.parsed, h.call, h.posted⟩ hp hm hc
    exact ⟨hat, hdelivered, rfl⟩
  | writeReturns result =>
    obtain ⟨r, hreturns, hx⟩ := (bind_eq_ok _ _ _).mp hx
    obtain rfl := Except.ok.inj hx
    obtain ⟨hm, hc⟩ := msgWriteReturns_frame hreturns
    obtain ⟨hat, hdelivered⟩ := after_writing
      { w with written := w.written ++ (msgOutput w.stream).take result.count } r.1 r.2
      ⟨⟨hinput, hcarried, hreads, hnd⟩, h.stream, h.parsed, h.call, h.posted⟩ hp hm hc
    exact ⟨hat, hdelivered, rfl⟩
  | runPosted f =>
    cases f with
    | postableRead => cases hw
    | postableTryWrite =>
      obtain ⟨r, hrun, hx⟩ := (bind_eq_ok _ _ _).mp hx
      obtain rfl := Except.ok.inj hx
      obtain ⟨-, -, hr⟩ := (bind_eq_ok _ _ _).mp hrun
      obtain rfl := Except.ok.inj hr
      have hcount : (w.posted.erase .postableTryWrite).count .postableRead =
          w.posted.count .postableRead := List.count_erase_of_ne (by decide)
      obtain ⟨hat, hdelivered⟩ := after_writing
        { w with posted := w.posted.erase .postableTryWrite } w.stream .write
        ⟨⟨hinput, hcarried, hreads, hnd⟩, h.stream, h.parsed, h.call, hcount.trans h.posted⟩ hp rfl
        rfl
      exact ⟨hat, hdelivered, rfl⟩
  | read cb => cases hw
  | readReturns r => cases hw
  | readReady => cases hw

/-- Every event of the reading side returns, unless the peer's last line, still without its
end, is longer than a message can be. -/
theorem reads_go (h : w.ReadsAt peer phase)
    (hlines : ∀ line ∈ completeLines peer, line.length ≤ iobufferDefaultCapacity)
    (e : StreamEvent) (hr : e.Reading) (he : w.Enabled e) :
    (∃ t phase', w.exec e = .ok t ∧ t.ReadsAt peer phase' ∧ MsgReadStep w t phase' ∧
      w.KeepsWriting t) ∨
    (w.exec e = .error (.assertion "mem_len >= len") ∧
      iobufferDefaultCapacity < (unfinishedLine peer).length) := by
  cases e with
  | read cb => exact .inl (reads_read h cb he)
  | readReady => exact .inl (reads_readReady h he)
  | runPosted f =>
    cases f with
    | postableRead => exact .inl (reads_runPosted h he)
    | postableTryWrite => exact hr.elim
  | readReturns r =>
    cases r with
    | eagain => exact .inl (reads_eagain h he)
    | bytes d =>
      rcases reads_bytes h d he with hok | ⟨hx, pre, ⟨more, hmore⟩, hlong⟩
      · exact .inl hok
      · right
        refine ⟨hx, ?_⟩
        obtain ⟨-, -, ⟨rest, hrest⟩, -⟩ := he
        have hpeer : peer = (w.received ++ pre) ++ (more ++ rest) := by
          rw [← h.history.input, ← hrest, ← hmore]
          simp only [List.append_assoc]
        rw [hpeer] at hlines ⊢
        exact unfinishedLine_long _ _ _ hlines hlong
    | eof errno => exact hr.elim
    | failed errno => exact hr.elim
  | write cb msg => exact hr.elim
  | writeReturns r => exact hr.elim

/-- A step of the reading side that returns. -/
theorem reads_advance (h : w.ReadsAt peer phase) (e : StreamEvent) (hr : e.Reading)
    (he : w.Enabled e) (hx : w.exec e = .ok t) :
    ∃ phase', t.ReadsAt peer phase' ∧ MsgReadStep w t phase' ∧ w.KeepsWriting t := by
  obtain ⟨t', phase', hx', hstep⟩ : ∃ t' phase', w.exec e = .ok t' ∧ t'.ReadsAt peer phase' ∧
      MsgReadStep w t' phase' ∧ w.KeepsWriting t' := by
    cases e with
    | read cb => exact reads_read h cb he
    | readReady => exact reads_readReady h he
    | runPosted f =>
      cases f with
      | postableRead => exact reads_runPosted h he
      | postableTryWrite => exact hr.elim
    | readReturns r =>
      cases r with
      | eagain => exact reads_eagain h he
      | bytes d =>
        rcases reads_bytes h d he with hok | ⟨hfails, -⟩
        · exact hok
        · cases hx.symm.trans hfails
      | eof errno => exact hr.elim
      | failed errno => exact hr.elim
    | write cb msg => exact hr.elim
    | writeReturns r => exact hr.elim
  obtain rfl := Except.ok.inj (hx.symm.trans hx')
  exact ⟨phase', hstep⟩

theorem reads_step (h : w.ReadsAt peer phase) (e : StreamEvent) (hp : e.PlainRead)
    (he : w.Enabled e) (hx : w.exec e = .ok t) : ∃ phase', t.ReadsAt peer phase' := by
  by_cases hw : e.ofWriting = true
  · exact ⟨phase, (reads_keep h e (StreamWorld.call_ne_read e he hw) hw hx).1⟩
  · obtain ⟨phase', hat, -⟩ := reads_advance h e (e.reading_of_plain hp hw) he hx
    exact ⟨phase', hat⟩

end world

/-- No operation is pending: the pointers of reader and writer are NULL. -/
structure TcpStream.Idle (tcp : TcpStream) : Prop where
  inputBuffer : tcp.reader.inputBuffer = false
  readCb : tcp.reader.readCb = false
  outputBuffer : tcp.writer.outputBuffer = false
  writeCb : tcp.writer.writeCb = false

theorem streamWorld_init (malloced : TcpStream) (hbuf : malloced.reader.inputBuffer = false)
    (hcb : malloced.reader.readCb = false) (m : MsgStream ℕ)
    (hinit : msgStreamInit ℕ malloced = .ok m) (peer : Bytes) :
    (StreamWorld.init m peer).ReadsAt peer .idle := by
  obtain ⟨mp, hnew, hparsed⟩ := newlineMsgParserNew_parsed
  rw [msgStreamInit, hnew, ok_bind] at hinit
  obtain rfl := Except.ok.inj hinit
  exact ⟨⟨rfl, nofun, rfl, List.nodup_nil⟩, ⟨rfl, hbuf, hcb, nofun,
    iff_of_true rfl rfl, fun hp => absurd rfl hp⟩, hparsed, iff_of_false nofun nofun, rfl⟩

/-- Reading so far: the messages handed over and those kept are the lines of the bytes read,
the parser has the rest, no callback was called twice, and the next event of the reading
side returns, unless the peer's unfinished last line has outgrown its message. -/
structure StreamWorld.ReadsInOrder (w : StreamWorld) (peer : Bytes) : Prop where
  received : w.received <+: peer
  lines : (w.handed ++ w.stream.inputMessageList).map (fun msg => iobufferData msg.iob) =
    (completeLines w.received).map (List.map some)
  unfinished : iobufferData w.stream.parser.msg.iob = (unfinishedLine w.received).map some
  once : (w.delivered.map Delivery.cb).Nodup
  started : ∀ c ∈ w.delivered, c.cb ∈ w.reads ∧ c.error = 0 ∧ c.msg.isSome = true
  returns : ∀ e : StreamEvent, e.Reading → w.Enabled e → (∃ t, w.exec e = .ok t) ∨
    (w.exec e = .error (.assertion "mem_len >= len") ∧ 4096 < (unfinishedLine peer).length)

theorem StreamWorld.ReadsAt.inOrder {w : StreamWorld} {peer : Bytes} {phase : ReadPhase}
    (h : w.ReadsAt peer phase) (hlines : ∀ line ∈ completeLines peer, line.length ≤ 4096) :
    w.ReadsInOrder peer := by
  have hreads := h.history.reads
  refine ⟨⟨_, h.history.input⟩, says_data h.parsed.lines, h.parsed.current.data, ?_, ?_, ?_⟩
  · have hnd := h.history.nodup
    rw [hreads] at hnd
    exact (List.nodup_append.mp hnd).1
  · intro c hc
    refine ⟨?_, h.history.carried c hc⟩
    rw [hreads]
    exact List.mem_append_left _ (List.mem_map_of_mem hc)
  · intro e hr he
    rcases reads_go h hlines e hr he with ⟨t, -, hx, -⟩ | hfails
    · exact .inl ⟨t, hx⟩
    · exact .inr hfails

theorem msg_stream_reads_in_order (malloced : TcpStream) (hidle : malloced.Idle) (m : MsgStream ℕ)
    (hinit : msgStreamInit ℕ malloced = .ok m) (peer : Bytes)
    (hlines : ∀ line ∈ completeLines peer, line.length ≤ 4096) (es : List StreamEvent)
    (hplain : ∀ e ∈ es, e.PlainRead) (w : StreamWorld)
    (h : streamMachine.Run (StreamWorld.init m peer) es w) : w.ReadsInOrder peer := by
  obtain ⟨phase, hat⟩ : ∃ phase, w.ReadsAt peer phase := by
    refine h.invariant (I := fun w => ∃ phase, w.ReadsAt peer phase) (A := StreamEvent.PlainRead) ?_
      ⟨.idle, streamWorld_init malloced hidle.inputBuffer hidle.readCb m hinit peer⟩ hplain
    rintro u e v ⟨phase, hu⟩ hp he hx
    exact reads_step hu e hp he hx
  exact hat.inOrder hlines

/-- A line that comes in two blocks, the second of which brings another line; the client
asks for that one from within the callback of the first. -/
theorem msg_stream_reads_two_lines :
    ∃ m w, msgStreamInit ℕ ⟨⟨.ready, false, false⟩, ⟨.ready, false, false⟩⟩ = .ok m ∧
      streamMachine.Run (StreamWorld.init m [97, 10, 98, 10]) [.read 0, .readReturns .eagain,
        .readReady, .readReturns (.bytes [97]), .runPosted .postableRead,
        .readReturns (.bytes [10, 98, 10]), .read 1] w ∧
      (w.handed.map (fun msg => iobufferData msg.iob) = [[some 97], [some 98]] ∧
        w.delivered.map Delivery.cb = [0, 1]) ∧
      w.ReadsInOrder [97, 10, 98, 10] := by
  have hrun : ∃ w, streamMachine.Run (StreamWorld.init
        ⟨⟨⟨.initial, false, false⟩, ⟨.initial, false, false⟩⟩,
          ⟨⟨⟨List.replicate 4097 none, 4096, 0, 0⟩⟩⟩, none, none, [], none, none⟩ [97, 10, 98, 10])
      [.read 0, .readReturns .eagain, .readReady, .readReturns (.bytes [97]),
        .runPosted .postableRead, .readReturns (.bytes [10, 98, 10]), .read 1] w ∧
      (w.handed.map (fun msg => iobufferData msg.iob) = [[some 97], [some 98]] ∧
        w.delivered.map Delivery.cb = [0, 1]) :=
    Machine.exists_run_of_replay _ (by decide +kernel)
  obtain ⟨w, hrun, hend⟩ := hrun
  exact ⟨_, w, rfl, hrun, hend, msg_stream_reads_in_order
    ⟨⟨.ready, false, false⟩, ⟨.ready, false, false⟩⟩ ⟨rfl, rfl, rfl, rfl⟩ _ rfl _ (by decide) _
    (by simp [StreamEvent.PlainRead]) w hrun⟩

end CHttp
