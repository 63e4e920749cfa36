import CHttp.CMemory

/-! `AsioStream`, the stream under a connection, and the `RunloopStream` that watches
its descriptor. The stream calls its user in the middle of `try_read` and `try_write`,
and the user may call back into it from there, so a state also says where control is. -/
namespace CHttp

inductive AsioReadState where
  | idle | active | eagain
  deriving DecidableEq, Inhabited, Repr

inductive AsioWriteState where
  | idle | active
  deriving DecidableEq, Inhabited, Repr

/-- `WRITE_STATE_EAGAIN` is the same number as `WRITE_STATE_ACTIVE`. -/
def AsioWriteState.eagain : AsioWriteState := .active

/-- `RunloopStream`: the two bits of `event_mask` that `handler` tests, and whether its
two functions are set. Those can only be `epollin_postable_cb` and
`epollout_postable_cb`, with the stream as their argument. -/
structure RunloopStream where
  epollin : Bool
  epollout : Bool
  readPostableCb : Bool
  writePostableCb : Bool
  deriving DecidableEq, Inhabited, Repr

def runloopStreamInit : RunloopStream := ⟨false, false, false, false⟩

def runloopStreamArmRead (athis : RunloopStream) : RunloopStream :=
  { athis with epollin := true, readPostableCb := true }

def runloopStreamArmWrite (athis : RunloopStream) : RunloopStream :=
  { athis with epollout := true, writePostableCb := true }

def runloopStreamDisarmRead (athis : RunloopStream) : RunloopStream :=
  { athis with epollin := false, readPostableCb := false }

/-- A user's argument, named by the `asio_stream_read` or `asio_stream_write` it came with. -/
inductive AsioArg where
  | read (n : ℕ)
  | write (n : ℕ)
  deriving DecidableEq, Repr

/-- `AsioStream`. A stored callback is named by the call that stored it. -/
structure AsioStream where
  runloopStream : RunloopStream
  readState : AsioReadState
  readBuffer : Option ℕ
  readBufferSize : ℤ
  readCallback : Option ℕ
  readCallbackArg : Option AsioArg
  writeState : AsioWriteState
  writeBuffer : Option ℕ
  writeBufferSize : ℤ
  writeCallback : Option ℕ
  writeCallbackArg : Option AsioArg
  deriving DecidableEq, Inhabited, Repr

/-- The read callback is cleared twice and the write callback not at all, so that and
the buffers keep what malloc returned. -/
def asioStreamInit (malloced : AsioStream) : AsioStream :=
  { malloced with
    runloopStream := runloopStreamInit
    readState := .idle
    readCallback := none
    readCallbackArg := none
    writeState := .idle
    readBufferSize := 1000000 }

/-- What `read` or `write` returns: a count, -1 with EAGAIN, or -1 with another errno. -/
inductive IoResult where
  | count (n : ℕ)
  | eagain
  | failed (errno : ℤ)
  deriving DecidableEq, Repr

/-- A call of a user's callback. -/
structure AsioCall where
  call : ℕ
  arg : Option AsioArg
  count : ℤ
  status : ℤ
  deriving DecidableEq, Repr

def asioStreamRead (cref : AsioStream) (buffer : Option ℕ) (maxLength : ℤ) (cb : ℕ)
    (arg : AsioArg) : Res AsioStream := do
  cAssert (cref.readState = .idle) "connection_ref->read_state == READ_STATE_IDLE"
  cAssert buffer.isSome "buffer != NULL"
  cAssert (0 < maxLength) "max_length > 0"
  .ok { cref with
    readBuffer := buffer
    readBufferSize := maxLength
    readCallback := some cb
    readCallbackArg := some arg
    readState := .active }

def asioStreamWrite (cref : AsioStream) (buffer : Option ℕ) (length : ℤ) (cb : ℕ)
    (arg : AsioArg) : Res AsioStream := do
  cAssert (cref.writeState = .idle) "connection_ref->write_state == WRITE_STATE_IDLE"
  cAssert buffer.isSome "buffer != NULL"
  cAssert (0 < length) "length > 0"
  .ok { cref with
    writeBuffer := buffer
    writeBufferSize := length
    writeCallback := some cb
    writeCallbackArg := some arg
    writeState := .active }

/-- Calling through a stored pointer, which must not be NULL. -/
def callThrough (cb : Option ℕ) (arg : Option AsioArg) (count status : ℤ) : Res AsioCall :=
  match cb with
  | none => .error .nullPointer
  | some cb => .ok ⟨cb, arg, count, status⟩

def readEagain (cref : AsioStream) : AsioStream :=
  { cref with
    readState := .eagain
    runloopStream := runloopStreamArmRead cref.runloopStream }

/-- `try_read` from the return of `read` to the call of the callback, if it makes one. -/
def asioTryRead (cref : AsioStream) : IoResult → Res (AsioStream × Option AsioCall)
  | .count n =>
    if 0 < n then do
      let cref := { cref with readState := .idle }
      let call ← callThrough cref.readCallback cref.readCallbackArg n 0
      .ok (cref, some call)
    else do
      let call ← callThrough cref.readCallback cref.readCallbackArg 0 0
      .ok (cref, some call)
  | .eagain => .ok (readEagain cref, none)
  | .failed errno => do
    let call ← callThrough cref.readCallback cref.readCallbackArg 0 errno
    .ok (cref, some call)

/-- The rest of `try_read`, once the callback has returned. -/
def asioTryReadAfter (cref : AsioStream) : AsioStream := { cref with readCallback := none }

/-- It is the read state that `write_eagain` sets. -/
def writeEagain (cref : AsioStream) : AsioStream :=
  { cref with
    readState := .eagain
    runloopStream := runloopStreamArmWrite cref.runloopStream }

/-- At the end of file and on an error the write callback gets the read argument. -/
def asioTryWrite (cref : AsioStream) : IoResult → Res (AsioStream × Option AsioCall)
  | .count n =>
    if 0 < n then do
      let cref := { cref with writeState := .idle }
      let call ← callThrough cref.writeCallback cref.writeCallbackArg n 0
      .ok (cref, some call)
    else do
      let call ← callThrough cref.writeCallback cref.readCallbackArg 0 0
      .ok (cref, some call)
  | .eagain => .ok (writeEagain cref, none)
  | .failed errno => do
    let call ← callThrough cref.writeCallback cref.readCallbackArg 0 errno
    .ok (cref, some call)

def asioTryWriteAfter (cref : AsioStream) : AsioStream := { cref with writeCallback := none }

/-- `epollin_postable_cb` up to its call of `try_read`; the flag says whether it is made. -/
def epollinPostableCb (cref : AsioStream) : AsioStream × Bool :=
  if cref.readState = .eagain then
    if cref.readCallback = none then ({ cref with readState := .idle }, false)
    else ({ cref with runloopStream := runloopStreamDisarmRead cref.runloopStream }, true)
  else (cref, false)

/-- `epollout_postable_cb` up to its call, which is of `try_read` as well. -/
def epolloutPostableCb (cref : AsioStream) : AsioStream × Bool :=
  if cref.writeState = .eagain then
    if cref.writeCallback = none then ({ cref with writeState := .idle }, false)
    else (cref, true)
  else (cref, false)

inductive AsioCallback where
  | read | write
  deriving DecidableEq, Repr

/-- Whether `try_read` was called for reading or by the write side. -/
inductive AsioPath where
  | read | write
  deriving DecidableEq, Repr

/-- Where control is. `running` are the user's callbacks that have not returned, the
innermost first; `handling` says that once they have, `handler` goes on to EPOLLOUT. -/
inductive AsioControl where
  | user (running : List AsioCallback) (handling : Bool)
  | inRead (path : AsioPath) (running : List AsioCallback) (handling : Bool)
  | inWrite (running : List AsioCallback) (handling : Bool)
  | atEpollin
  | atEpollout
  deriving DecidableEq, Repr

/-- Where `try_read` and `try_write` return to. -/
def AsioControl.leave (running : List AsioCallback) (handling : Bool) : AsioControl :=
  if running = [] ∧ handling = true then .atEpollout else .user running handling

/-- What the write side must not do. -/
inductive AsioCrossing where
  | readStateChanged | readCalled | readCallbackCalled
  deriving DecidableEq, Repr

def AsioPath.crosses (path : AsioPath) (c : AsioCrossing) : List AsioCrossing :=
  match path with
  | .read => []
  | .write => [c]

/-- A stream, where control is, and the history of its calls. A read or write is
outstanding until its callback has been called. `owed` says that the descriptor was
reported writable to a waiting write that has not been offered to `write` since. -/
structure AsioWorld where
  asio : AsioStream
  control : AsioControl
  reads : ℕ
  writes : ℕ
  outstandingRead : Option ℕ
  outstandingWrite : Option ℕ
  readCalls : List AsioCall
  writeCalls : List AsioCall
  crossings : List AsioCrossing
  owed : Bool
  deriving DecidableEq, Repr

def AsioWorld.init (malloced : AsioStream) : AsioWorld where
  asio := asioStreamInit malloced
  control := .user [] false
  reads := 0
  writes := 0
  outstandingRead := none
  outstandingWrite := none
  readCalls := []
  writeCalls := []
  crossings := []
  owed := false

/-- What happens to a stream: the user calls it or returns from a callback, `read` or
`write` returns, the run loop reports the descriptor, `handler` goes a step further. -/
inductive AsioEvent where
  | callRead (buffer : Option ℕ) (maxLength : ℤ)
  | callWrite (buffer : Option ℕ) (length : ℤ)
  | readReturns (r : IoResult)
  | writeReturns (r : IoResult)
  | ret
  | ready (writable : Bool)
  | handler
  deriving DecidableEq, Repr

/-- The user passes buffers, and has at most one read and one write outstanding. -/
def AsioWorld.Enabled (w : AsioWorld) : AsioEvent → Prop
  | .callRead buffer maxLength =>
    (∃ running handling, w.control = .user running handling) ∧ w.outstandingRead = none ∧
      buffer.isSome ∧ 0 < maxLength
  | .callWrite buffer length =>
    (∃ running handling, w.control = .user running handling) ∧ w.outstandingWrite = none ∧
      buffer.isSome ∧ 0 < length
  | .readReturns _ => ∃ path running handling, w.control = .inRead path running handling
  | .writeReturns _ => ∃ running handling, w.control = .inWrite running handling
  | .ret => ∃ cb running handling, w.control = .user (cb :: running) handling
  | .ready _ => w.control = .user [] false
  | .handler => w.control = .atEpollin ∨ w.control = .atEpollout

instance (c : AsioControl) : Decidable (∃ running handling, c = .user running handling) :=
  match c with
  | .user running handling => isTrue ⟨running, handling, rfl⟩
  | .inRead _ _ _ | .inWrite _ _ | .atEpollin | .atEpollout => isFalse nofun

instance (c : AsioControl) : Decidable (∃ path running handling, c = .inRead path running handling) :=
  match c with
  | .inRead path running handling => isTrue ⟨path, running, handling, rfl⟩
  | .user _ _ | .inWrite _ _ | .atEpollin | .atEpollout => isFalse nofun

instance (c : AsioControl) : Decidable (∃ running handling, c = .inWrite running handling) :=
  match c with
  | .inWrite running handling => isTrue ⟨running, handling, rfl⟩
  | .user _ _ | .inRead _ _ _ | .atEpollin | .atEpollout => isFalse nofun

instance (c : AsioControl) :
    Decidable (∃ cb running handling, c = .user (cb :: running) handling) :=
  match c with
  | .user (cb :: running) handling => isTrue ⟨cb, running, handling, rfl⟩
  | .user [] _ | .inRead _ _ _ | .inWrite _ _ | .atEpollin | .atEpollout => isFalse nofun

instance (w : AsioWorld) (e : AsioEvent) : Decidable (w.Enabled e) :=
  match e with
  | .callRead buffer maxLength =>
    inferInstanceAs (Decidable ((∃ running handling, w.control = .user running handling) ∧
      w.outstandingRead = none ∧ buffer.isSome ∧ 0 < maxLength))
  | .callWrite buffer length =>
    inferInstanceAs (Decidable ((∃ running handling, w.control = .user running handling) ∧
      w.outstandingWrite = none ∧ buffer.isSome ∧ 0 < length))
  | .readReturns _ =>
    inferInstanceAs (Decidable (∃ path running handling, w.control = .inRead path running handling))
  | .writeReturns _ =>
    inferInstanceAs (Decidable (∃ running handling, w.control = .inWrite running handling))
  | .ret =>
    inferInstanceAs (Decidable (∃ cb running handling, w.control = .user (cb :: running) handling))
  | .ready _ => inferInstanceAs (Decidable (w.control = .user [] false))
  | .handler => inferInstanceAs (Decidable (w.control = .atEpollin ∨ w.control = .atEpollout))

def AsioWorld.exec (w : AsioWorld) (e : AsioEvent) : Res AsioWorld :=
  match e, w.control with
  | .callRead buffer maxLength, .user running handling => do
    let asio ← asioStreamRead w.asio buffer maxLength w.reads (.read w.reads)
    .ok { w with
      asio := asio
      control := .inRead .read running handling
      reads := w.reads+1
      outstandingRead := some w.reads }
  | .callWrite buffer length, .user running handling => do
    let asio ← asioStreamWrite w.asio buffer length w.writes (.write w.writes)
    .ok { w with
      asio := asio
      control := .inWrite running handling
      writes := w.writes+1
      outstandingWrite := some w.writes }
  | .readReturns r, .inRead path running handling => do
    let (asio, call) ← asioTryRead w.asio r
    -- after EAGAIN nobody is called and `try_read` returns
    match call with
    | none => .ok { w with asio := asio, control := .leave running handling }
    | some call => .ok { w with
      asio := asio
      control := .user (.read :: running) handling
      readCalls := w.readCalls ++ [call]
      outstandingRead := if w.outstandingRead = some call.call then none else w.outstandingRead
      crossings := w.crossings ++ path.crosses .readCallbackCalled }
  | .writeReturns r, .inWrite running handling => do
    let (asio, call) ← asioTryWrite w.asio r
    let crossings := w.crossings ++
      if asio.readState = w.asio.readState then [] else [.readStateChanged]
    match call with
    | none => .ok { w with
      asio := asio
      control := .leave running handling
      crossings := crossings }
    | some call => .ok { w with
      asio := asio
      control := .user (.write :: running) handling
      crossings := crossings
      writeCalls := w.writeCalls ++ [call]
      outstandingWrite := if w.outstandingWrite = some call.call then none else w.outstandingWrite }
  -- the stored callback is cleared even if the user has stored a new one meanwhile
  | .ret, .user (.read :: running) handling =>
    .ok { w with asio := asioTryReadAfter w.asio, control := .leave running handling }
  | .ret, .user (.write :: running) handling =>
    .ok { w with asio := asioTryWriteAfter w.asio, control := .leave running handling }
  | .ready writable, .user [] false =>
    .ok { w with control := .atEpollin, owed := writable && w.outstandingWrite.isSome }
  -- `handler` tests the mask it armed, not the events it is told of
  | .handler, .atEpollin =>
    if w.asio.runloopStream.epollin && w.asio.runloopStream.readPostableCb then
      match epollinPostableCb w.asio with
      | (asio, true) => .ok { w with asio := asio, control := .inRead .read [] true }
      | (asio, false) => .ok { w with asio := asio, control := .atEpollout }
    else .ok { w with control := .atEpollout }
  | .handler, .atEpollout =>
    if w.asio.runloopStream.epollout && w.asio.runloopStream.writePostableCb then
      match epolloutPostableCb w.asio with
      | (asio, true) => .ok { w with
        asio := asio
        control := .inRead .write [] false
        crossings := w.crossings ++ AsioPath.write.crosses .readCalled }
      | (asio, false) => .ok { w with asio := asio, control := .user [] false }
    else .ok { w with control := .user [] false }
  | _, _ => .ok w

def asioMachine : Machine AsioWorld AsioEvent Fault := ⟨AsioWorld.Enabled, AsioWorld.exec⟩

instance (w : AsioWorld) (e : AsioEvent) : Decidable (asioMachine.enabled w e) :=
  inferInstanceAs (Decidable (w.Enabled e))

def IoResult.positive : IoResult → Bool
  | .count n => 0 < n
  | _ => false

theorem asioTryRead_eq (cref : AsioStream) (r : IoResult) (hr : r ≠ .eagain) :
    ∃ count status, asioTryRead cref r =
      (callThrough cref.readCallback cref.readCallbackArg count status >>= fun call =>
        .ok ({ cref with readState := if r.positive then .idle else cref.readState }, some call)) := by
  cases r with
  | count n =>
    by_cases hn : 0 < n
    · exact ⟨n, 0, by simp only [asioTryRead, IoResult.positive, hn, if_true, decide_true]⟩
    · exact ⟨0, 0, by
        simp only [asioTryRead, IoResult.positive, hn, if_false, decide_false, Bool.false_eq_true]⟩
  | eagain => exact absurd rfl hr
  | failed errno =>
    exact ⟨0, errno, by simp only [asioTryRead, IoResult.positive, Bool.false_eq_true, if_false]⟩

theorem asioTryWrite_eq (cref : AsioStream) (r : IoResult) (hr : r ≠ .eagain) :
    ∃ count status, asioTryWrite cref r =
      (callThrough cref.writeCallback
        (if r.positive then cref.writeCallbackArg else cref.readCallbackArg) count status >>=
        fun call =>
        .ok ({ cref with writeState := if r.positive then .idle else cref.writeState }, some call)) := by
  cases r with
  | count n =>
    by_cases hn : 0 < n
    · exact ⟨n, 0, by simp only [asioTryWrite, IoResult.positive, hn, if_true, decide_true]⟩
    · exact ⟨0, 0, by
        simp only [asioTryWrite, IoResult.positive, hn, if_false, decide_false, Bool.false_eq_true]⟩
  | eagain => exact absurd rfl hr
  | failed errno =>
    exact ⟨0, errno, by simp only [asioTryWrite, IoResult.positive, Bool.false_eq_true, if_false]⟩

theorem callThrough_eq_ok (cb : Option ℕ) (arg : Option AsioArg) (count status : ℤ)
    (call : AsioCall) :
    callThrough cb arg count status = .ok call ↔ ∃ i, cb = some i ∧ call = ⟨i, arg, count, status⟩ := by
  cases cb with
  | none => simp [callThrough]
  | some i => simp [callThrough, eq_comm]

/-- The write side's function that EPOLLOUT leads to would call `try_read`. -/
def AsioStream.Misdirected (cref : AsioStream) : Prop :=
  cref.runloopStream.epollout = true ∧ cref.runloopStream.writePostableCb = true ∧
    cref.writeState = .active ∧ cref.writeCallback ≠ none

/-- All that an event can do. -/
inductive AsioStep (w : AsioWorld) : AsioEvent → AsioWorld → Prop where
  | callRead (buffer : Option ℕ) (maxLength : ℤ) (running : List AsioCallback) (handling : Bool)
      (hc : w.control = .user running handling) (ho : w.outstandingRead = none)
      (hi : w.asio.readState = .idle) :
      AsioStep w (.callRead buffer maxLength) { w with
        asio := { w.asio with
          readBuffer := buffer
          readBufferSize := maxLength
          readCallback := some w.reads
          readCallbackArg := some (.read w.reads)
          readState := .active }
        control := .inRead .read running handling
        reads := w.reads+1
        outstandingRead := some w.reads }
  | callWrite (buffer : Option ℕ) (length : ℤ) (running : List AsioCallback) (handling : Bool)
      (hc : w.control = .user running handling) (ho : w.outstandingWrite = none)
      (hi : w.asio.writeState = .idle) :
      AsioStep w (.callWrite buffer length) { w with
        asio := { w.asio with
          writeBuffer := buffer
          writeBufferSize := length
          writeCallback := some w.writes
          writeCallbackArg := some (.write w.writes)
          writeState := .active }
        control := .inWrite running handling
        writes := w.writes+1
        outstandingWrite := some w.writes }
  | readEagain (path : AsioPath) (running : List AsioCallback) (handling : Bool)
      (hc : w.control = .inRead path running handling) :
      AsioStep w (.readReturns .eagain)
        { w with asio := readEagain w.asio, control := .leave running handling }
  | readCalls (r : IoResult) (path : AsioPath) (running : List AsioCallback) (handling : Bool)
      (i : ℕ) (count status : ℤ) (hc : w.control = .inRead path running handling)
      (hr : r ≠ .eagain) (hi : w.asio.readCallback = some i) :
      AsioStep w (.readReturns r) { w with
        asio := { w.asio with readState := if r.positive then .idle else w.asio.readState }
        control := .user (.read :: running) handling
        readCalls := w.readCalls ++ [⟨i, w.asio.readCallbackArg, count, status⟩]
        outstandingRead := if w.outstandingRead = some i then none else w.outstandingRead
        crossings := w.crossings ++ path.crosses .readCallbackCalled }
  | writeEagain (running : List AsioCallback) (handling : Bool)
      (hc : w.control = .inWrite running handling) :
      AsioStep w (.writeReturns .eagain) { w with
        asio := writeEagain w.asio
        control := .leave running handling
        crossings := w.crossings ++
          if .eagain = w.asio.readState then [] else [.readStateChanged] }
  | writeCalls (r : IoResult) (running : List AsioCallback) (handling : Bool)
      (i : ℕ) (count status : ℤ) (hc : w.control = .inWrite running handling)
      (hr : r ≠ .eagain) (hi : w.asio.writeCallback = some i) :
      AsioStep w (.writeReturns r) { w with
        asio := { w.asio with writeState := if r.positive then .idle else w.asio.writeState }
        control := .user (.write :: running) handling
        writeCalls := w.writeCalls ++ [⟨i,
          if r.positive then w.asio.writeCallbackArg else w.asio.readCallbackArg, count, status⟩]
        outstandingWrite := if w.outstandingWrite = some i then none else w.outstandingWrite }
  | retRead (running : List AsioCallback) (handling : Bool)
      (hc : w.control = .user (.read :: running) handling) :
      AsioStep w .ret { w with
        asio := { w.asio with readCallback := none }
        control := .leave running handling }
  | retWrite (running : List AsioCallback) (handling : Bool)
      (hc : w.control = .user (.write :: running) handling) :
      AsioStep w .ret { w with
        asio := { w.asio with writeCallback := none }
        control := .leave running handling }
  | ready (writable : Bool) (hc : w.control = .user [] false) :
      AsioStep w (.ready writable)
        { w with control := .atEpollin, owed := writable && w.outstandingWrite.isSome }
  | epollinRead (hc : w.control = .atEpollin) (hs : w.asio.readState = .eagain)
      (hcb : w.asio.readCallback ≠ none) :
      AsioStep w .handler { w with
        asio := { w.asio with runloopStream := runloopStreamDisarmRead w.asio.runloopStream }
        control := .inRead .read [] true }
  | epollinReset (hc : w.control = .atEpollin) (hs : w.asio.readState = .eagain)
      (hcb : w.asio.readCallback = none) :
      AsioStep w .handler
        { w with asio := { w.asio with readState := .idle }, control := .atEpollout }
  | epollinSkip (hc : w.control = .atEpollin) :
      AsioStep w .handler { w with control := .atEpollout }
  | epolloutRead (hc : w.control = .atEpollout) (hm : w.asio.Misdirected) :
      AsioStep w .handler { w with
        control := .inRead .write [] false
        crossings := w.crossings ++ [.readCalled] }
  | epolloutReset (hc : w.control = .atEpollout) (hs : w.asio.writeState = .active)
      (hcb : w.asio.writeCallback = none) :
      AsioStep w .handler
        { w with asio := { w.asio with writeState := .idle }, control := .user [] false }
  | epolloutSkip (hc : w.control = .atEpollout) (hm : ¬w.asio.Misdirected) :
      AsioStep w .handler { w with control := .user [] false }

theorem asio_step_readReturns (w t : AsioWorld) (r : IoResult) (he : w.Enabled (.readReturns r))
    (hx : w.exec (.readReturns r) = .ok t) : AsioStep w (.readReturns r) t := by
  obtain ⟨path, running, handling, hc⟩ := he
  simp only [AsioWorld.exec, hc] at hx
  by_cases hr : r = .eagain
  · subst hr
    obtain rfl := Except.ok.inj hx
    exact .readEagain path running handling hc
  · obtain ⟨count, status, heq⟩ := asioTryRead_eq w.asio r hr
    rw [heq] at hx
    obtain ⟨⟨asio, call⟩, hcall, hx⟩ := (bind_eq_ok _ _ _).mp hx
    obtain ⟨call, hthrough, hcall⟩ := (bind_eq_ok _ _ _).mp hcall
    obtain ⟨i, hi, rfl⟩ := (callThrough_eq_ok _ _ _ _ _).mp hthrough
    cases hcall
    obtain rfl := Except.ok.inj hx
    exact .readCalls r path running handling i count status hc hr hi

theorem asio_step_writeReturns (w t : AsioWorld) (r : IoResult) (he : w.Enabled (.writeReturns r))
    (hx : w.exec (.writeReturns r) = .ok t) : AsioStep w (.writeReturns r) t := by
  obtain ⟨running, handling, hc⟩ := he
  simp only [AsioWorld.exec, hc] at hx
  by_cases hr : r = .eagain
  · subst hr
    obtain rfl := Except.ok.inj hx
    exact .writeEagain running handling hc
  · obtain ⟨count, status, heq⟩ := asioTryWrite_eq w.asio r hr
    rw [heq] at hx
    obtain ⟨⟨asio, call⟩, hcall, hx⟩ := (bind_eq_ok _ _ _).mp hx
    obtain ⟨call, hthrough, hcall⟩ := (bind_eq_ok _ _ _).mp hcall
    obtain ⟨i, hi, rfl⟩ := (callThrough_eq_ok _ _ _ _ _).mp hthrough
    cases hcall
    simp only [if_true, List.append_nil] at hx
    obtain rfl := Except.ok.inj hx
    exact .writeCalls r running handling i count status hc hr hi

theorem asio_step_epollin (w t : AsioWorld) (hc : w.control = .atEpollin)
    (hx : w.exec .handler = .ok t) : AsioStep w .handler t := by
  simp only [AsioWorld.exec, hc, epollinPostableCb] at hx
  split_ifs at hx with harmed hs hcb
  · obtain rfl := Except.ok.inj hx
    exact .epollinReset hc hs hcb
  · obtain rfl := Except.ok.inj hx
    exact .epollinRead hc hs hcb
  · obtain rfl := Except.ok.inj hx
    exact .epollinSkip hc
  · obtain rfl := Except.ok.inj hx
    exact .epollinSkip hc

theorem asio_step_epollout (w t : AsioWorld) (hc : w.control = .atEpollout)
    (hx : w.exec .handler = .ok t) : AsioStep w .handler t := by
  simp only [AsioWorld.exec, hc, Bool.and_eq_true] at hx
  by_cases harmed : w.asio.runloopStream.epollout = true ∧ w.asio.runloopStream.writePostableCb = true
  · rw [if_pos harmed, epolloutPostableCb] at hx
    by_cases hs : w.asio.writeState = .eagain
    · rw [if_pos hs] at hx
      by_cases hcb : w.asio.writeCallback = none
      · rw [if_pos hcb] at hx
        obtain rfl := Except.ok.inj hx
        exact .epolloutReset hc hs hcb
      · rw [if_neg hcb] at hx
        obtain rfl := Except.ok.inj hx
        exact .epolloutRead hc ⟨harmed.1, harmed.2, hs, hcb⟩
    · rw [if_neg hs] at hx
      obtain rfl := Except.ok.inj hx
      exact .epolloutSkip hc fun hm => hs hm.2.2.1
  · rw [if_neg harmed] at hx
    obtain rfl := Except.ok.inj hx
    exact .epolloutSkip hc fun hm => harmed ⟨hm.1, hm.2.1⟩

theorem asio_step (w t : AsioWorld) (e : AsioEvent) (he : w.Enabled e) (hx : w.exec e = .ok t) :
    AsioStep w e t := by
  cases e with
  | callRead buffer maxLength =>
    obtain ⟨⟨running, handling, hc⟩, ho, -⟩ := he
    simp only [AsioWorld.exec, hc, asioStreamRead, bind_assoc, cAssert_bind_eq_ok, ok_bind,
      decide_eq_true_eq] at hx
    obtain ⟨hi, -, -, hx⟩ := hx
    obtain rfl := Except.ok.inj hx
    exact .callRead buffer maxLength running handling hc ho hi
  | callWrite buffer length =>
    obtain ⟨⟨running, handling, hc⟩, ho, -⟩ := he
    simp only [AsioWorld.exec, hc, asioStreamWrite, bind_assoc, cAssert_bind_eq_ok, ok_bind,
      decide_eq_true_eq] at hx
    obtain ⟨hi, -, -, hx⟩ := hx
    obtain rfl := Except.ok.inj hx
    exact .callWrite buffer length running handling hc ho hi
  | readReturns r => exact asio_step_readReturns w t r he hx
  | writeReturns r => exact asio_step_writeReturns w t r he hx
  | ret =>
    obtain ⟨cb, running, handling, hc⟩ := he
    cases cb with
    | read =>
      simp only [AsioWorld.exec, hc] at hx
      obtain rfl := Except.ok.inj hx
      exact .retRead running handling hc
    | write =>
      simp only [AsioWorld.exec, hc] at hx
      obtain rfl := Except.ok.inj hx
      exact .retWrite running handling hc
  | ready writable =>
    have hc : w.control = .user [] false := he
    simp only [AsioWorld.exec, hc] at hx
    obtain rfl := Except.ok.inj hx
    exact .ready writable hc
  | handler =>
    rcases he with hc | hc
    · exact asio_step_epollin w t hc hx
    · exact asio_step_epollout w t hc hx

end CHttp
