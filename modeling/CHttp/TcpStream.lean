import CHttp.IOBuffer

/-! `TcpStream`: one pending read and one pending write on a non-blocking socket. A function
of the source is cut at its call of `read` or `write`; what it does with the result is a
function of its own. -/
namespace CHttp

inductive TcpReadState where
  | initial
  | eagain
  | stopped
  | ready
  | error
  deriving DecidableEq, Repr

inductive TcpWriteState where
  | eagain
  | ready
  | error
  | stopped
  | initial
  deriving DecidableEq, Repr

/-- `TcpReader_s`: whether its pointers are set. The buffer belongs to the caller. -/
structure TcpReader where
  readState : TcpReadState
  inputBuffer : Bool
  readCb : Bool
  deriving DecidableEq, Repr

structure TcpWriter where
  writeState : TcpWriteState
  writeCb : Bool
  outputBuffer : Bool
  deriving DecidableEq, Repr

structure TcpStream where
  reader : TcpReader
  writer : TcpWriter
  deriving DecidableEq, Repr

/-- Only the states are set. The pointers are what malloc left behind. -/
def tcpStreamInit (malloced : TcpStream) : TcpStream where
  reader := { malloced.reader with readState := .initial }
  writer := { malloced.writer with writeState := .initial }

/-- What `read` returns. At the end of the input `errno` is whatever it was before. -/
inductive TcpReadResult where
  | bytes (d : Bytes)
  | eof (errno : ℤ)
  | eagain
  | failed (errno : ℤ)
  deriving DecidableEq, Repr

/-- What `write` returns: a positive count, 0, or -1. -/
inductive TcpWriteResult where
  | wrote (n : ℕ)
  | nothing (errno : ℤ)
  | eagain
  | failed (errno : ℤ)
  deriving DecidableEq, Repr

/-- The bytes that `write` took. -/
def TcpWriteResult.count : TcpWriteResult → ℕ
  | .wrote n => n
  | _ => 0

def isReadPending (tcp : TcpStream) : Res Bool := do
  cAssert (tcp.reader.inputBuffer = tcp.reader.readCb)
    ("((tcp_stream_ref->reader.input_buffer != NULL)&&(tcp_stream_ref->reader.read_cb != NULL)) || " ++
      "((tcp_stream_ref->reader.input_buffer == NULL)&&(tcp_stream_ref->reader.read_cb == NULL))")
  .ok (tcp.reader.inputBuffer && tcp.reader.readCb)

/-- `try_read` up to its call of `read`, and whether it makes that call. -/
def tcpTryRead (tcp : TcpStream) : Res Bool := do
  cAssert tcp.reader.inputBuffer "iob != NULL"
  match tcp.reader.readState with
  | .eagain | .initial | .ready => .ok true
  | .error | .stopped => .ok false

def tcpRead (ctx : TcpStream) (inputBuffer : IOBuffer) : Res (TcpStream × Bool) := do
  let pending ← isReadPending ctx
  cAssert (!pending) "! is_read_pending(ctx)"
  cAssert (iobufferSpaceLen inputBuffer ≠ 0) "IOBuffer_space_len(input_buffer) != 0"
  let ctx := { ctx with reader := { ctx.reader with inputBuffer := true, readCb := true } }
  let reading ← tcpTryRead ctx
  .ok (ctx, reading)

def readReadyCallback (tcp : TcpStream) : Res (TcpStream × Bool) :=
  match tcp.reader.readState with
  | .initial | .ready | .eagain => do
    let tcp := { tcp with reader := { tcp.reader with readState := .ready } }
    let reading ← tcpTryRead tcp
    .ok (tcp, reading)
  | .error | .stopped => .ok (tcp, false)

def invokeReadCb (tcp : TcpStream) : Res TcpStream := do
  cAssert tcp.reader.readCb "cb != NULL"
  .ok { tcp with reader := { tcp.reader with inputBuffer := false, readCb := false } }

/-- `try_read` once `read` has returned: the stream, the buffer, and the error given to the
callback if it is called. After EAGAIN the stream is armed instead. -/
def tcpReadReturns (tcp : TcpStream) (iob : IOBuffer) :
    TcpReadResult → Res (TcpStream × IOBuffer × Option ℤ)
  | .bytes d => do
    let tcp := { tcp with reader := { tcp.reader with readState := .ready } }
    let iob ← iobufferFillSpace iob (d.map some)
    let iob ← iobufferCommit iob d.length
    let tcp ← invokeReadCb tcp
    .ok (tcp, iob, some 0)
  -- the end of the input is reported like an error, but `errno` may well be 0
  | .eof errno => do
    let tcp ← invokeReadCb tcp
    .ok (tcp, iob, some errno)
  | .eagain =>
    .ok ({ tcp with reader := { tcp.reader with readState := .eagain } }, iob, none)
  | .failed errno => do
    let tcp ← invokeReadCb tcp
    .ok (tcp, iob, some errno)

def isWritePending (tcp : TcpStream) : Res Bool := do
  cAssert (tcp.writer.outputBuffer = tcp.writer.writeCb)
    ("((tcp_stream_ref->writer.output_buffer != NULL) && (tcp_stream_ref->writer.write_cb != NULL)) || " ++
      "((tcp_stream_ref->writer.output_buffer == NULL) && (tcp_stream_ref->writer.write_cb == NULL))")
  .ok tcp.writer.outputBuffer

/-- `try_write` up to its call of `write`, which it makes in every state. -/
def tcpTryWrite (tcp : TcpStream) : Res Unit :=
  if tcp.writer.outputBuffer then .ok () else .error .nullPointer

def tcpWrite (tcp : TcpStream) : Res TcpStream := do
  let pending ← isWritePending tcp
  cAssert (!pending) "!is_write_pending(tcp_stream_ref)"
  let tcp := { tcp with writer := { tcp.writer with outputBuffer := true, writeCb := true } }
  tcpTryWrite tcp
  .ok tcp

/-- How `try_write` ends: in the callback, with a post of `postable_try_write`, or, after
EAGAIN, with nothing that would try again. -/
inductive TcpWriteEnd where
  | callback (error : ℤ)
  | post
  | stall
  deriving DecidableEq, Repr

def tcpInvokeWriteCallback (tcp : TcpStream) : Res TcpStream :=
  if tcp.writer.writeCb then
    .ok { tcp with writer := { tcp.writer with outputBuffer := false, writeCb := false } }
  else .error .nullPointer

/-- `try_write` once `write` has returned. -/
def tcpWriteReturns (tcp : TcpStream) (iob : IOBuffer) :
    TcpWriteResult → Res (TcpStream × IOBuffer × TcpWriteEnd)
  | .wrote n => do
    let iob ← iobufferConsume iob n
    let tcp := { tcp with writer := { tcp.writer with writeState := .ready } }
    if iobufferDataLen iob = 0 then do
      let tcp ← tcpInvokeWriteCallback tcp
      .ok (tcp, iob, .callback 0)
    else .ok (tcp, iob, .post)
  | .nothing errno => do
    let tcp ← tcpInvokeWriteCallback tcp
    .ok (tcp, iob, .callback errno)
  -- the descriptor is not armed for writing
  | .eagain =>
    .ok ({ tcp with writer := { tcp.writer with writeState := .eagain } }, iob, .stall)
  | .failed errno => do
    let tcp := { tcp with writer := { tcp.writer with writeState := .error } }
    let tcp ← tcpInvokeWriteCallback tcp
    .ok (tcp, iob, .callback errno)

/-- A state in which `try_read` goes on to call `read`. -/
def TcpReadState.live : TcpReadState → Bool
  | .initial | .eagain | .ready => true
  | .stopped | .error => false

theorem TcpReadState.live_iff (s : TcpReadState) :
    s.live = true ↔ s = .initial ∨ s = .eagain ∨ s = .ready := by
  cases s <;> simp [live]

theorem tcpTryRead_live (tcp : TcpStream) (hb : tcp.reader.inputBuffer = true)
    (hl : tcp.reader.readState.live = true) : tcpTryRead tcp = .ok true := by
  rcases (TcpReadState.live_iff _).mp hl with hs | hs | hs
  · simp only [tcpTryRead, hb, cAssert_true, ok_bind, hs]
  · simp only [tcpTryRead, hb, cAssert_true, ok_bind, hs]
  · simp only [tcpTryRead, hb, cAssert_true, ok_bind, hs]

/-- With no read pending and room in the buffer, `tcp_read` gets as far as `read`. -/
theorem tcpRead_reads (ctx : TcpStream) (iob : IOBuffer)
    (hb : ctx.reader.inputBuffer = false) (hc : ctx.reader.readCb = false)
    (hl : ctx.reader.readState.live = true) (hs : iobufferSpaceLen iob ≠ 0) :
    tcpRead ctx iob =
      .ok ({ ctx with reader := { ctx.reader with inputBuffer := true, readCb := true } }, true) := by
  have hpending : isReadPending ctx = .ok false := by
    simp only [isReadPending, hb, hc, decide_true, cAssert_true, ok_bind, Bool.and_self]
  have htry := tcpTryRead_live
    { ctx with reader := { ctx.reader with inputBuffer := true, readCb := true } } rfl hl
  simp only [tcpRead, hpending, ok_bind, Bool.not_false, cAssert_true, hs, ne_eq, not_false_iff,
    decide_true, htry]

/-- A `tcp_read` that gets through found no read pending. -/
theorem tcpRead_inv {tcp tcp' : TcpStream} {iob : IOBuffer} {reading : Bool}
    (h : tcpRead tcp iob = .ok (tcp', reading)) :
    (tcp.reader.inputBuffer = false ∧ tcp.reader.readCb = false) ∧ tcp'.writer = tcp.writer := by
  obtain ⟨pending, hpending, h⟩ := (bind_eq_ok _ _ _).mp h
  rw [isReadPending, cAssert_bind_eq_ok, decide_eq_true_eq] at hpending
  obtain ⟨heq, hpending⟩ := hpending
  obtain rfl := Except.ok.inj hpending
  rw [cAssert_bind_eq_ok, cAssert_bind_eq_ok] at h
  obtain ⟨hnot, -, h⟩ := h
  obtain ⟨_, -, h⟩ := (bind_eq_ok _ _ _).mp h
  obtain ⟨rfl, -⟩ := Prod.mk.inj (Except.ok.inj h)
  rw [← heq, Bool.and_self, Bool.not_eq_true'] at hnot
  exact ⟨⟨hnot, heq ▸ hnot⟩, rfl⟩

/-- A readiness event changes nothing but the state of the reader. -/
theorem readReadyCallback_inv {tcp tcp' : TcpStream} {reading : Bool}
    (h : readReadyCallback tcp = .ok (tcp', reading)) :
    ∃ s, tcp' = { tcp with reader := { tcp.reader with readState := s } } := by
  rw [readReadyCallback] at h
  split at h
  iterate 3
    obtain ⟨_, -, h⟩ := (bind_eq_ok _ _ _).mp h
    obtain ⟨rfl, -⟩ := Prod.mk.inj (Except.ok.inj h)
    exact ⟨.ready, rfl⟩
  iterate 2
    obtain ⟨rfl, -⟩ := Prod.mk.inj (Except.ok.inj h)
    exact ⟨_, rfl⟩

/-- A readiness event for a pending read tries again. -/
theorem readReadyCallback_reads (tcp : TcpStream) (hb : tcp.reader.inputBuffer = true)
    (hl : tcp.reader.readState.live = true) :
    readReadyCallback tcp =
      .ok ({ tcp with reader := { tcp.reader with readState := .ready } }, true) := by
  have htry := tcpTryRead_live { tcp with reader := { tcp.reader with readState := .ready } } hb rfl
  rcases (TcpReadState.live_iff _).mp hl with hs | hs | hs
  · simp only [readReadyCallback, hs, htry, ok_bind]
  · simp only [readReadyCallback, hs, htry, ok_bind]
  · simp only [readReadyCallback, hs, htry, ok_bind]

/-- Bytes that `read` delivers into an empty buffer are its data when the callback runs. -/
theorem tcpReadReturns_bytes (tcp : TcpStream) (iob : IOBuffer) (c : ℕ) (d : Bytes)
    (hc : tcp.reader.readCb = true) (hh : iob.Holds c []) (hne : d ≠ []) (hf : d.length ≤ c) :
    ∃ iob', tcpReadReturns tcp iob (.bytes d) =
        .ok ({ tcp with reader := ⟨.ready, false, false⟩ }, iob', some 0) ∧
      iob'.Holds c (d.map some) := by
  obtain ⟨filled, iob', hfill, hcommit, hiob⟩ := iobufferFillSpace_commit iob c [] (d.map some) hh
    (List.map_eq_nil_iff.not.mpr hne) (by rwa [List.length_nil, Nat.zero_add, List.length_map])
  rw [List.length_map] at hcommit
  refine ⟨iob', ?_, hiob⟩
  simp only [tcpReadReturns, hfill, ok_bind, hcommit, invokeReadCb, hc, cAssert_true]

/-- With no write pending, `tcp_write` gets as far as `write`. -/
theorem tcpWrite_writes (tcp : TcpStream) (hb : tcp.writer.outputBuffer = false)
    (hc : tcp.writer.writeCb = false) :
    tcpWrite tcp = .ok { tcp with writer :=
      { tcp.writer with outputBuffer := true, writeCb := true } } := by
  simp only [tcpWrite, isWritePending, hb, hc, decide_true, cAssert_true, ok_bind, Bool.not_false,
    tcpTryWrite, if_true]

/-- A count takes bytes from the front; the callback comes once none are left. -/
theorem tcpWriteReturns_wrote (tcp : TcpStream) (iob : IOBuffer) (c n : ℕ) (d : List Cell)
    (hc : tcp.writer.writeCb = true) (hq : iob.Queues c d) (hn : n ≤ d.length) :
    ∃ iob', iob'.Queues c (d.drop n) ∧
      tcpWriteReturns tcp iob (.wrote n) =
        if d.drop n = [] then
          .ok ({ tcp with writer := ⟨.ready, false, false⟩ }, iob', .callback 0)
        else .ok ({ tcp with writer := { tcp.writer with writeState := .ready } }, iob', .post) := by
  obtain ⟨iob', hconsume, hq', -⟩ := iobufferConsume_queues iob c n d hq hn
  refine ⟨iob', hq', ?_⟩
  have hlen : iobufferDataLen iob' = 0 ↔ d.drop n = [] := by
    rw [iobufferDataLen, hq'.remaining, List.length_eq_zero_iff]
  by_cases hlast : d.drop n = []
  · simp only [tcpWriteReturns, hconsume, ok_bind, hlen.mpr hlast, tcpInvokeWriteCallback, hc,
      if_true, if_pos hlast]
  · simp only [tcpWriteReturns, hconsume, ok_bind, if_neg (hlen.not.mpr hlast), if_neg hlast]

end CHttp
