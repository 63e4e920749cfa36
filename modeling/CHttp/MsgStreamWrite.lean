import CHttp.MsgStreamRead

/-! Writing to a message stream: the bytes of a message leave in order, in whatever counts
`write` takes them. -/
namespace CHttp

/-- Where a `msg_stream_write` stands: there is none, the thread is in `write`,
`postable_try_write` is posted, or EAGAIN has stopped it. -/
inductive WritePhase where
  | idle
  | writing
  | posted
  | stalled
  deriving DecidableEq

/-- A `tcp_write` is pending. -/
def WritePhase.pending : WritePhase → Bool
  | .idle => false
  | .writing | .posted | .stalled => true

section stream

variable {κ : Type} {m : MsgStream κ} {cb : κ} {rest : List Cell}

/-- The stream in a phase of a write of which `rest` is still to be written. -/
structure MsgStream.WritesAt (m : MsgStream κ) (phase : WritePhase) (rest : List Cell) : Prop where
  buffer : m.tcp.writer.outputBuffer = phase.pending
  callback : m.tcp.writer.writeCb = phase.pending
  idle : phase = .idle ↔ m.writeCb = none
  cleared : phase = .idle → m.outputBuffer = none ∧ rest = []
  unsent : phase ≠ .idle → rest ≠ [] ∧ ∃ iob c, m.outputBuffer = some iob ∧ iob.Queues c rest

theorem MsgStream.WritesAt.frame {m' : MsgStream κ} {phase : WritePhase}
    (h : m.WritesAt phase rest) (hm : m'.writing = m.writing) : m'.WritesAt phase rest := by
  simp only [MsgStream.writing, Prod.mk.injEq] at hm
  obtain ⟨hbuf, hcb, hwriter⟩ := hm
  refine ⟨?_, ?_, ?_, ?_, ?_⟩
  · rw [hwriter]
    exact h.buffer
  · rw [hwriter]
    exact h.callback
  · rw [hcb]
    exact h.idle
  · rw [hbuf]
    exact h.cleared
  · rw [hbuf]
    exact h.unsent

theorem MsgStream.WritesAt.writeCb_some {phase : WritePhase} (h : m.WritesAt phase rest)
    (hp : phase ≠ .idle) : ∃ cb, m.writeCb = some cb :=
  Option.ne_none_iff_exists'.mp (h.idle.not.mp hp)

/-- The data for `write` is what is still to be written. -/
theorem MsgStream.WritesAt.output {phase : WritePhase} (h : m.WritesAt phase rest) :
    msgOutput m = rest := by
  by_cases hp : phase = .idle
  · obtain ⟨hout, hrest⟩ := h.cleared hp
    rw [msgOutput, hout, hrest]
    rfl
  · obtain ⟨-, iob, c, hout, hq⟩ := h.unsent hp
    rw [msgOutput, hout, Option.map_some, Option.getD_some, hq.data]

/-- A message that serializes is on its way to `write`. -/
theorem msgStreamWrite_writes (h : m.WritesAt .idle rest) (msg : NewLineMsg) (cb : κ)
    (iob : IOBuffer) (c : ℕ) (text : Bytes) (hserial : newlineMsgSerialize msg = .ok iob)
    (hiob : iob.HoldsText c text) (hne : text ≠ []) :
    ∃ m', msgStreamWrite m msg cb = .ok (m', .write) ∧ m'.WritesAt .writing (text.map some) ∧
      m'.writeCb = some cb := by
  have hcb := h.idle.mp rfl
  have hout := (h.cleared rfl).1
  refine ⟨{ m with
    tcp := { m.tcp with writer := { m.tcp.writer with outputBuffer := true, writeCb := true } }
    outputBuffer := some iob
    writeCb := some cb }, ?_, ⟨rfl, rfl, ?_, by simp, fun _ => ⟨?_, iob, c, rfl, hiob.holds.queues⟩⟩,
    rfl⟩
  · simp only [msgStreamWrite, hcb, hout, Option.isNone_none, cAssert_true, ok_bind, hserial,
      tcpWrite_writes m.tcp h.buffer h.callback]
  · exact iff_of_false (by decide) (by simp)
  · exact List.map_eq_nil_iff.not.mpr hne

/-- A count that leaves bytes over has `try_write` posted again. -/
theorem msgWriteReturns_some (h : m.WritesAt .writing rest) (n : ℕ) (hn : n ≤ rest.length)
    (hmore : rest.drop n ≠ []) :
    ∃ m', msgWriteReturns m (.wrote n) = .ok (m', .post .postableTryWrite) ∧
      m'.WritesAt .posted (rest.drop n) ∧ m'.writeCb = m.writeCb := by
  obtain ⟨-, iob, c, hout, hq⟩ := h.unsent nofun
  obtain ⟨iob', hq', hreturns⟩ := tcpWriteReturns_wrote m.tcp iob c n rest h.callback hq hn
  rw [if_neg hmore] at hreturns
  refine ⟨{ m with
    tcp := { m.tcp with writer := { m.tcp.writer with writeState := .ready } }
    outputBuffer := some iob' }, ?_, ⟨h.buffer, h.callback, ?_, nofun,
    fun _ => ⟨hmore, iob', c, rfl, hq'⟩⟩, rfl⟩
  · simp only [msgWriteReturns, hout, hreturns, ok_bind]
  · exact iff_of_false nofun (h.idle.not.mp nofun)

/-- The count that takes the last byte leads to the client's callback. -/
theorem msgWriteReturns_all (h : m.WritesAt .writing rest) (hcb : m.writeCb = some cb) (n : ℕ)
    (hn : n ≤ rest.length) (hlast : rest.drop n = []) :
    ∃ m', msgWriteReturns m (.wrote n) = .ok (m', .writeCallback cb 0) ∧ m'.WritesAt .idle [] := by
  obtain ⟨-, iob, c, hout, hq⟩ := h.unsent nofun
  obtain ⟨iob', -, hreturns⟩ := tcpWriteReturns_wrote m.tcp iob c n rest h.callback hq hn
  rw [if_pos hlast] at hreturns
  refine ⟨{ m with
    tcp := { m.tcp with writer := ⟨.ready, false, false⟩ }
    outputBuffer := none
    writeCb := none }, ?_, ⟨rfl, rfl, iff_of_true rfl rfl, fun _ => ⟨rfl, rfl⟩,
    fun hp => absurd rfl hp⟩⟩
  simp only [msgWriteReturns, hout, hreturns, ok_bind, msgTcpWriteCallback, msgInvokeWriteCallback,
    hcb]

theorem msgWriteReturns_eagain (h : m.WritesAt .writing rest) :
    ∃ m', msgWriteReturns m .eagain = .ok (m', .returned) ∧ m'.WritesAt .stalled rest ∧
      m'.writeCb = m.writeCb := by
  obtain ⟨hne, iob, c, hout, hq⟩ := h.unsent nofun
  refine ⟨{ m with
    tcp := { m.tcp with writer := { m.tcp.writer with writeState := .eagain } }
    outputBuffer := some iob }, ?_, ⟨h.buffer, h.callback, ?_, nofun,
    fun _ => ⟨hne, iob, c, rfl, hq⟩⟩, rfl⟩
  · simp only [msgWriteReturns, hout, tcpWriteReturns, ok_bind]
  · exact iff_of_false nofun (h.idle.not.mp nofun)

theorem msgRunPosted_writes (h : m.WritesAt .posted rest) :
    msgRunPosted m .postableTryWrite = .ok (m, .write) ∧ m.WritesAt .writing rest := by
  have hbuffer : m.tcp.writer.outputBuffer = true := h.buffer
  refine ⟨?_, h.buffer, h.callback, iff_of_false nofun (h.idle.not.mp nofun), nofun,
    fun _ => h.unsent nofun⟩
  simp only [msgRunPosted, tcpTryWrite, hbuffer, if_true, ok_bind]

end stream

/-- The world in a phase of a write: what was written and what is left are the messages'
texts, one after another. -/
structure StreamWorld.WritesAt (w : StreamWorld) (phase : WritePhase) (rest : List Cell) :
    Prop where
  stream : w.stream.WritesAt phase rest
  call : w.call = .write ↔ phase = .writing
  posted : w.posted.count .postableTryWrite = if phase = .posted then 1 else 0
  writes : w.writes = w.completed ++ w.stream.writeCb.toList
  progress : w.written ++ rest = w.outputs.flatten

/-- The call with which a step enters a phase. -/
def WritePhase.call : WritePhase → StreamCall ℕ
  | .writing => .write
  | .posted => .post .postableTryWrite
  | .stalled | .idle => .returned

/-- A step of writing calls back, or goes on to a phase of the write. -/
inductive MsgWriteStep (t : StreamWorld) : WritePhase → Prop where
  | completes (cb : ℕ) (hcall : t.call = .writeCallback cb 0) : MsgWriteStep t .idle
  | proceeds (phase : WritePhase) (hp : phase ≠ .idle) (hcall : t.call = phase.call) :
      MsgWriteStep t phase

/-- `write` returns a positive count or EAGAIN. -/
def StreamEvent.PlainWrite : StreamEvent → Prop
  | .writeReturns (.nothing _) | .writeReturns (.failed _) => False
  | _ => True

section world

variable {w t : StreamWorld} {phase : WritePhase} {rest : List Cell}

/-- Reading does not disturb a write. -/
theorem StreamWorld.WritesAt.keep (h : w.WritesAt phase rest) (hk : w.KeepsWriting t)
    (hp : phase ≠ .writing) (hcall : t.call ≠ .write) : t.WritesAt phase rest := by
  have hcb : t.stream.writeCb = w.stream.writeCb := congrArg (fun p => p.2.1) hk.stream
  refine ⟨h.stream.frame hk.stream, iff_of_false hcall hp, ?_, ?_, ?_⟩
  · rw [hk.posted, h.posted]
  · rw [hk.writes, hk.completed, hcb, h.writes]
  · rw [hk.written, hk.outputs, h.progress]

theorem StreamWorld.WritesAt.posted_zero (h : w.WritesAt phase rest) (hp : phase ≠ .posted) :
    w.posted.count .postableTryWrite = 0 := by
  rw [h.posted, if_neg hp]

/-- The start of a write adds its text to what is to be written. -/
theorem writes_write (h : w.WritesAt .idle rest) (msg : NewLineMsg) (cb : ℕ) (iob : IOBuffer)
    (c : ℕ) (text : Bytes) (hserial : newlineMsgSerialize msg = .ok iob)
    (hiob : iob.HoldsText c text) (hne : text ≠ []) :
    ∃ t, w.exec (.write cb msg) = .ok t ∧ t.WritesAt .writing (text.map some) ∧
      t.call = .write ∧ t.outputs = w.outputs ++ [text.map some] ∧ t.writes = w.writes ++ [cb] ∧
      t.completed = w.completed := by
  obtain ⟨m, hwrite, hm, hcb⟩ := msgStreamWrite_writes h.stream msg cb iob c text hserial hiob hne
  have hrest := (h.stream.cleared rfl).2
  have hwrites := h.writes
  have hprogress := h.progress
  rw [h.stream.idle.mp rfl, Option.toList_none, List.append_nil] at hwrites
  rw [hrest, List.append_nil] at hprogress
  refine ⟨StreamWorld.after { w with
    writes := w.writes ++ [cb]
    outputs := w.outputs ++ [text.map some] } (m, .write), ?_, ⟨hm, iff_of_true rfl rfl,
    h.posted_zero nofun, ?_, ?_⟩, rfl, rfl, rfl, rfl⟩
  · rw [StreamWorld.exec, hwrite, ok_bind, hm.output]
  · show w.writes ++ [cb] = w.completed ++ m.writeCb.toList
    rw [hwrites, hcb, Option.toList_some]
  · show w.written ++ text.map some = (w.outputs ++ [text.map some]).flatten
    rw [hprogress, List.flatten_append, List.flatten_singleton]

theorem writes_wrote (h : w.WritesAt phase rest) (n : ℕ)
    (he : w.Enabled (.writeReturns (.wrote n))) :
    ∃ t phase' rest', w.exec (.writeReturns (.wrote n)) = .ok t ∧ t.WritesAt phase' rest' ∧
      MsgWriteStep t phase' ∧ t.outputs = w.outputs ∧ t.writes = w.writes := by
  obtain ⟨hcall, -, hn⟩ := he
  obtain rfl := h.call.mp hcall
  rw [h.stream.output] at hn
  have hprogress : w.written ++ rest.take n ++ rest.drop n = w.outputs.flatten := by
    rw [List.append_assoc, List.take_append_drop, h.progress]
  by_cases hlast : rest.drop n = []
  · obtain ⟨cb, hcb⟩ := h.stream.writeCb_some (by decide)
    obtain ⟨m, hreturns, hm⟩ := msgWriteReturns_all h.stream hcb n hn hlast
    refine ⟨StreamWorld.after { w with written := w.written ++ rest.take n }
      (m, .writeCallback cb 0), .idle, [], ?_, ⟨hm, iff_of_false (by rintro ⟨⟩) (by decide),
      h.posted_zero (by decide), ?_, ?_⟩, .completes cb rfl, rfl, rfl⟩
    · rw [StreamWorld.exec, hreturns, ok_bind, h.stream.output]
      rfl
    · show w.writes = w.completed ++ [cb] ++ m.writeCb.toList
      rw [h.writes, hcb, hm.idle.mp rfl, Option.toList_some, Option.toList_none, List.append_nil]
    · rw [hlast] at hprogress
      exact hprogress
  · obtain ⟨m, hreturns, hm, hcb⟩ := msgWriteReturns_some h.stream n hn hlast
    refine ⟨StreamWorld.after { w with written := w.written ++ rest.take n }
      (m, .post .postableTryWrite), .posted, rest.drop n, ?_, ⟨hm, iff_of_false (by rintro ⟨⟩) (by decide), ?_,
      ?_, hprogress⟩, .proceeds _ (by decide) rfl, rfl, rfl⟩
    · rw [StreamWorld.exec, hreturns, ok_bind, h.stream.output]
      rfl
    · show List.count StreamPosted.postableTryWrite (w.posted ++ [.postableTryWrite]) = 1
      rw [List.count_append, h.posted_zero (by decide)]
      rfl
    · show w.writes = w.completed ++ m.writeCb.toList
      rw [h.writes, hcb]

theorem writes_eagain (h : w.WritesAt phase rest) (he : w.Enabled (.writeReturns .eagain)) :
    ∃ t phase' rest', w.exec (.writeReturns .eagain) = .ok t ∧ t.WritesAt phase' rest' ∧
      MsgWriteStep t phase' ∧ t.outputs = w.outputs ∧ t.writes = w.writes := by
  obtain rfl := h.call.mp he
  obtain ⟨m, hreturns, hm, hcb⟩ := msgWriteReturns_eagain h.stream
  refine ⟨StreamWorld.after { w with written := w.written ++ (msgOutput w.stream).take 0 }
    (m, .returned), .stalled, rest, ?_, ⟨hm, iff_of_false nofun nofun, h.posted_zero nofun, ?_, ?_⟩,
    .proceeds _ nofun rfl, rfl, rfl⟩
  · rw [StreamWorld.exec, hreturns, ok_bind]
    rfl
  · show w.writes = w.completed ++ m.writeCb.toList
    rw [h.writes, hcb]
  · show w.written ++ (msgOutput w.stream).take 0 ++ rest = w.outputs.flatten
    rw [List.take_zero, List.append_nil, h.progress]

theorem writes_runPosted (h : w.WritesAt phase rest)
    (he : w.Enabled (.runPosted .postableTryWrite)) :
    ∃ t phase' rest', w.exec (.runPosted .postableTryWrite) = .ok t ∧ t.WritesAt phase' rest' ∧
      MsgWriteStep t phase' ∧ t.outputs = w.outputs ∧ t.writes = w.writes := by
  have hcount := List.count_pos_iff.mpr he.2
  have hposted := h.posted
  obtain rfl : phase = .posted := by
    by_contra hp
    rw [if_neg hp] at hposted
    omega
  obtain ⟨hrun, hm⟩ := msgRunPosted_writes h.stream
  refine ⟨StreamWorld.after { w with posted := w.posted.erase .postableTryWrite }
    (w.stream, .write), .writing, rest, ?_, ⟨hm, iff_of_true rfl rfl, ?_, h.writes, h.progress⟩,
    .proceeds _ nofun rfl, rfl, rfl⟩
  · rw [StreamWorld.exec, hrun, ok_bind]
  · show List.count StreamPosted.postableTryWrite (w.posted.erase .postableTryWrite) = 0
    rw [List.count_erase_self, hposted]
    rfl

/-- Apart from the start of a write, the events of the writing side need one under way. -/
theorem StreamWorld.WritesAt.busy (h : w.WritesAt phase rest) (e : StreamEvent)
    (hw : e.ofWriting = true) (hc : e.byClient = false) (he : w.Enabled e) : phase ≠ .idle := by
  rintro rfl
  cases e with
  | write cb msg => cases hc
  | writeReturns r => cases h.call.mp (StreamWorld.call_of_writeReturns he)
  | runPosted f =>
    cases f with
    | postableRead => cases hw
    | postableTryWrite =>
      have hcount := List.count_pos_iff.mpr he.2
      rw [h.posted_zero nofun] at hcount
      exact Nat.lt_irrefl 0 hcount
  | read cb => cases hc
  | readReturns r => cases hw
  | readReady => cases hw

/-- The events of the writing side return, apart from the client's own call. -/
theorem writes_go (h : w.WritesAt phase rest) (e : StreamEvent) (hp : e.PlainWrite)
    (hw : e.ofWriting = true) (hc : e.byClient = false) (he : w.Enabled e) :
    ∃ t phase' rest', w.exec e = .ok t ∧ t.WritesAt phase' rest' ∧ MsgWriteStep t phase' ∧
      t.outputs = w.outputs ∧ t.writes = w.writes := by
  cases e with
  | write cb msg => cases hc
  | writeReturns r =>
    cases r with
    | wrote n => exact writes_wrote h n he
    | eagain => exact writes_eagain h he
    | nothing errno => exact hp.elim
    | failed errno => exact hp.elim
  | runPosted f =>
    cases f with
    | postableRead => cases hw
    | postableTryWrite => exact writes_runPosted h he
  | read cb => cases hc
  | readReturns r => cases hw
  | readReady => cases hw

end world

end CHttp
