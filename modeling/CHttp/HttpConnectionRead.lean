import CHttp.HttpConnection

/-! The read side of a connection over whole runs, with writes interleaved. -/
namespace CHttp

/-- The part of the world that reads work on. -/
structure ReadView where
  inputMessageList : List HttpMessage
  activeInputBuffer : Option IOBuffer
  readState : ReadState
  onReadCb : Pointer
  onReadCbArg : Pointer
  reading : Option ℤ
  readCalls : List (Option HttpMessage × ℤ)

def ConnectionWorld.readView (w : ConnectionWorld) : ReadView :=
  ⟨w.conn.inputMessageList, w.conn.activeInputBuffer, w.conn.readState, w.conn.onReadCb,
    w.conn.onReadCbArg, w.reading, w.readCalls⟩

/-- The entry conditions of `http_connection_read`. -/
structure ReadView.Ready (v : ReadView) : Prop where
  state : v.readState = .idle
  buffer : v.activeInputBuffer = none
  cb : v.onReadCb = none
  arg : v.onReadCbArg = none

/-- The view once the read callback has been taken off and called. -/
def ReadView.called (v : ReadView) (msg : Option HttpMessage) (status : ℤ) : ReadView :=
  { v with onReadCb := none, onReadCbArg := none, readCalls := v.readCalls ++ [(msg, status)] }

/-- All that an event can do to the read side. -/
inductive ReadStep (v : ReadView) : ConnectionEvent → ReadView → Prop where
  | start (cb arg : Pointer) (iob : IOBuffer) (hv : v.Ready) (hcb : cb.isSome)
      (hq : v.inputMessageList = []) (hiob : iob.Holds readBufferSize []) :
      ReadStep v (.read cb arg)
        { v with onReadCb := cb, onReadCbArg := arg, readState := .active
                 activeInputBuffer := some iob, reading := some readBufferSize }
  | last (cb arg : Pointer) (m : HttpMessage) (hv : v.Ready) (hq : v.inputMessageList = [m]) :
      ReadStep v (.read cb arg)
        (ReadView.called { v with inputMessageList := [], readState := .active } m 0)
  | queued (cb arg : Pointer) (m : HttpMessage) (rest : List HttpMessage) (hv : v.Ready)
      (hq : v.inputMessageList = m :: rest) (hr : rest ≠ []) :
      ReadStep v (.read cb arg) (ReadView.called { v with inputMessageList := rest } m 0)
  | deliver (block : Bytes) (msgs : List HttpMessage) (m : HttpMessage) (rest : List HttpMessage)
      (hq : v.inputMessageList ++ msgs = m :: rest) :
      ReadStep v (.received block ⟨msgs, .ok⟩)
        (ReadView.called { v with inputMessageList := rest, readState := .idle
                                  activeInputBuffer := none, reading := none } m 0)
  | nothing (block : Bytes) (msgs : List HttpMessage) (hq : v.inputMessageList ++ msgs = []) :
      ReadStep v (.received block ⟨msgs, .ok⟩)
        { v with inputMessageList := [], activeInputBuffer := none, reading := none }
  | eof : ReadStep v .readEof (ReadView.called { v with reading := none } none (-1))
  | failed : ReadStep v .readFailed (ReadView.called { v with reading := none } none (-2))
  | write (response : Option HttpMessage) (cb arg : Pointer) :
      ReadStep v (.write response cb arg) v
  | written (n : ℕ) : ReadStep v (.written n) v
  | writeFailed (status : ℤ) : ReadStep v (.writeFailed status) v
  | runPosted : ReadStep v .runPosted v

theorem after_eq_ok (w w' : ConnectionWorld) (step : ConnectionStep) :
    w.after step = .ok w' ↔
      ∃ r, step = .ok r ∧ r.2.foldl ConnectionWorld.perform { w with conn := r.1 } = w' := by
  unfold ConnectionWorld.after
  rw [bind_eq_ok]
  simp only [Except.ok.injEq]

theorem callOnReadCb_eq_ok (c : HttpConnection) (msg : Option HttpMessage) (status : ℤ)
    (r : HttpConnection × List ConnectionEffect) :
    callOnReadCb c msg status = .ok r ↔ c.onReadCb.isSome ∧ c.onReadCbArg.isSome ∧
      ({ c with onReadCb := none, onReadCbArg := none }, [.readCb msg status]) = r := by
  simp only [callOnReadCb, cAssert_bind_eq_ok, Except.ok.injEq]

/-- A new input buffer, as `http_connection_read` allocates it. -/
theorem inputBuffer_new : ∃ iob, iobufferNewWithCapacity readBufferSize = .ok iob ∧
    iob.Holds readBufferSize [] ∧ iobufferSpaceLen iob = readBufferSize := by
  obtain ⟨iob, hnew, hh⟩ := iobufferInit_holds readBufferSize (by decide)
  refine ⟨iob, hnew, hh, ?_⟩
  simp [iobufferSpaceLen, hh.capacity, hh.ptr, hh.remaining]

theorem exec_read_step (w w' : ConnectionWorld) (cb arg : Pointer)
    (h : w.after (httpConnectionRead w.conn cb arg) = .ok w') :
    ReadStep w.readView (.read cb arg) w'.readView := by
  obtain ⟨r, hr, rfl⟩ := (after_eq_ok _ _ _).mp h
  simp only [httpConnectionRead, cAssert_bind_eq_ok, Option.isNone_iff_eq_none,
    decide_eq_true_eq] at hr
  obtain ⟨hcb, hstate, hbuf, hon, harg, hr⟩ := hr
  have hready : w.readView.Ready := ⟨hstate, hbuf, hon, harg⟩
  split at hr
  · rename_i hq
    obtain ⟨iob, hnew, hh, hspace⟩ := inputBuffer_new
    rw [hnew, ok_bind, cAssert_bind_eq_ok, hspace] at hr
    obtain ⟨-, hr⟩ := hr
    cases hr
    exact .start cb arg iob hready hcb hq hh
  · rename_i m hq
    obtain ⟨-, -, rfl⟩ := (callOnReadCb_eq_ok _ _ _ _).mp hr
    exact .last cb arg m hready hq
  · rename_i m rest hne hq
    obtain ⟨-, -, rfl⟩ := (callOnReadCb_eq_ok _ _ _ _).mp hr
    exact .queued cb arg m rest hready hq hne

theorem exec_received_step (w w' : ConnectionWorld) (block : Bytes) (parsed : Parsed)
    (hb : 0 < block.length) (h : w.exec (.received block parsed) = .ok w') :
    ReadStep w.readView (.received block parsed) w'.readView := by
  obtain ⟨r, hr, rfl⟩ := (after_eq_ok _ _ _).mp h
  obtain ⟨conn, hrecv, hr⟩ := (bind_eq_ok _ _ _).mp hr
  unfold HttpConnection.receive at hrecv
  split at hrecv
  · cases hrecv
  · rename_i iob hiob
    obtain ⟨filled, -, hconn⟩ := (bind_eq_ok _ _ _).mp hrecv
    cases hconn
    have hpos : ¬((block.length : ℤ) = 0) := by omega
    have hneg : ¬((block.length : ℤ) < 0) := by omega
    simp only [readHaveDataCb, if_neg hpos, if_neg hneg, bind_eq_ok (iobufferCommit _ _)] at hr
    obtain ⟨committed, hcommit, hr⟩ := hr
    obtain ⟨consumed, hcons, hr⟩ := (bind_eq_ok _ _ _).mp hr
    rw [cAssert_bind_eq_ok, decide_eq_true_eq] at hr
    obtain ⟨hlen, hr⟩ := hr
    by_cases hok : parsed.errno = .ok
    · obtain ⟨msgs, errno⟩ := parsed
      obtain rfl : errno = .ok := hok
      rw [if_pos rfl] at hr
      rcases hq : w.conn.inputMessageList ++ msgs with _ | ⟨m, rest⟩
      · simp only [hq] at hr
        cases hr
        exact .nothing block msgs hq
      · simp only [hq] at hr
        obtain ⟨-, -, rfl⟩ := (callOnReadCb_eq_ok _ _ _ _).mp hr
        exact .deliver block msgs m rest hq
    · rw [httpMessageParserConsumeBuffer, if_neg hok] at hcons
      cases hcons
      obtain ⟨hn, hcount⟩ := iobufferCommit_dataLen hcommit
      omega

/-- A step that leaves the read fields alone and has no effect on the read side. -/
structure WriteOnly (c : HttpConnection) (r : HttpConnection × List ConnectionEffect) : Prop where
  queue : r.1.inputMessageList = c.inputMessageList
  buffer : r.1.activeInputBuffer = c.activeInputBuffer
  state : r.1.readState = c.readState
  cb : r.1.onReadCb = c.onReadCb
  arg : r.1.onReadCbArg = c.onReadCbArg
  effects : ∀ w : ConnectionWorld, (r.2.foldl ConnectionWorld.perform w).readView = w.readView

theorem callOnWriteCb_writeOnly (c c' : HttpConnection) (status : ℤ)
    (r : HttpConnection × List ConnectionEffect) (h : callOnWriteCb c' status = .ok r)
    (hc : WriteOnly c (c', [])) : WriteOnly c r := by
  simp only [callOnWriteCb, cAssert_bind_eq_ok, Except.ok.injEq] at h
  obtain ⟨-, -, rfl⟩ := h
  exact ⟨hc.queue, hc.buffer, hc.state, hc.cb, hc.arg, fun w => rfl⟩

theorem httpConnectionWrite_writeOnly (c : HttpConnection) (response : Option HttpMessage)
    (cb arg : Pointer) (r : HttpConnection × List ConnectionEffect)
    (h : httpConnectionWrite c response cb arg = .ok r) : WriteOnly c r := by
  cases response with
  | none => cases h
  | some m =>
    simp only [httpConnectionWrite, cAssert_bind_eq_ok] at h
    obtain ⟨-, -, -, -, h⟩ := h
    obtain ⟨iob, -, h⟩ := (bind_eq_ok _ _ _).mp h
    cases h
    exact ⟨rfl, rfl, rfl, rfl, rfl, fun w => rfl⟩

theorem postableWriter_writeOnly (c : HttpConnection) (r : HttpConnection × List ConnectionEffect)
    (h : postableWriter c = .ok r) : WriteOnly c r := by
  unfold postableWriter at h
  split_ifs at h with hstop
  · exact callOnWriteCb_writeOnly c _ _ r h ⟨rfl, rfl, rfl, rfl, rfl, fun w => rfl⟩
  · split at h
    · cases h
    · rw [cAssert_bind_eq_ok] at h
      obtain ⟨-, h⟩ := h
      cases h
      exact ⟨rfl, rfl, rfl, rfl, rfl, fun w => rfl⟩

theorem writerCb_writeOnly (c : HttpConnection) (n status : ℤ)
    (r : HttpConnection × List ConnectionEffect) (h : writerCb c n status = .ok r) :
    WriteOnly c r := by
  unfold writerCb at h
  split at h
  · cases h
  · rw [cAssert_bind_eq_ok] at h
    obtain ⟨-, h⟩ := h
    obtain ⟨iob, -, h⟩ := (bind_eq_ok _ _ _).mp h
    split_ifs at h <;> cases h <;> exact ⟨rfl, rfl, rfl, rfl, rfl, fun w => rfl⟩

theorem post_writeOnly (c : HttpConnection) (f : ConnectionPost)
    (r : HttpConnection × List ConnectionEffect) (h : f.call c = .ok r) : WriteOnly c r := by
  cases f with
  | postableWriter => exact postableWriter_writeOnly c r h
  | postableWriteCallCb =>
    exact callOnWriteCb_writeOnly c c 0 r h ⟨rfl, rfl, rfl, rfl, rfl, fun w => rfl⟩

theorem after_writeOnly (w w' : ConnectionWorld) (step : ConnectionStep)
    (h : w.after step = .ok w') (hstep : ∀ r, step = .ok r → WriteOnly w.conn r) :
    w'.readView = w.readView := by
  obtain ⟨r, hr, rfl⟩ := (after_eq_ok _ _ _).mp h
  have hw := hstep r hr
  rw [hw.effects]
  simp only [ConnectionWorld.readView, hw.queue, hw.buffer, hw.state, hw.cb, hw.arg]

/-- Every event does to the read side what `ReadStep` says. -/
theorem exec_readStep (w w' : ConnectionWorld) (e : ConnectionEvent) (he : w.Enabled e)
    (h : w.exec e = .ok w') : ReadStep w.readView e w'.readView := by
  cases e with
  | read cb arg => exact exec_read_step w w' cb arg h
  | received block parsed =>
    obtain ⟨length, -, hpos, -⟩ := he
    exact exec_received_step w w' block parsed hpos h
  | readEof =>
    obtain ⟨r, hr, rfl⟩ := (after_eq_ok _ _ _).mp h
    unfold readHaveDataCb at hr
    split at hr
    · cases hr
    · obtain ⟨-, -, rfl⟩ := (callOnReadCb_eq_ok _ _ _ _).mp hr
      exact .eof
  | readFailed =>
    obtain ⟨r, hr, rfl⟩ := (after_eq_ok _ _ _).mp h
    unfold readHaveDataCb at hr
    split at hr
    · cases hr
    · obtain ⟨-, -, rfl⟩ := (callOnReadCb_eq_ok _ _ _ _).mp hr
      exact .failed
  | write response cb arg =>
    rw [after_writeOnly _ _ _ h (httpConnectionWrite_writeOnly _ _ _ _)]
    exact .write response cb arg
  | written n =>
    rw [after_writeOnly _ _ _ h (writerCb_writeOnly _ _ _)]
    exact .written n
  | writeFailed status =>
    rw [after_writeOnly _ _ _ h (writerCb_writeOnly _ _ _)]
    exact .writeFailed status
  | runPosted =>
    simp only [ConnectionWorld.exec] at h
    split at h
    · cases h
      exact .runPosted
    · rw [after_writeOnly _ _ _ h (post_writeOnly _ _)]
      exact .runPosted

end CHttp
