import CHttp.HttpConnectionRead

/-! Writing a response: what `http_connection_write` promises, and where it ends. -/
namespace CHttp

/-- How an outstanding `asio_stream_write` can end. -/
inductive WriteResult where
  | written (n : ℕ)
  | failed (status : ℤ)
  deriving DecidableEq, Repr

def WriteResult.event : WriteResult → ConnectionEvent
  | .written n => .written n
  | .failed status => .writeFailed status

/-- The run loop calls every function posted so far. -/
def ConnectionWorld.pump (w : ConnectionWorld) : Res ConnectionWorld :=
  w.posted.foldlM (fun w _ => w.exec .runPosted) w

/-- The run loop and the stream take turns until no write is outstanding or no
result is left. -/
def ConnectionWorld.drive (w : ConnectionWorld) : List WriteResult → Res ConnectionWorld
  | [] => w.pump
  | result :: results => do
    let w ← w.pump
    if w.writing.isNone then .ok w
    else do
      let w ← w.exec result.event
      w.drive results

/-- `http_connection_write`, followed by all that it leads to. -/
def ConnectionWorld.writeResponse (w : ConnectionWorld) (response : HttpMessage)
    (cb arg : Pointer) (results : List WriteResult) : Res ConnectionWorld := do
  let w ← w.exec (.write (some response) cb arg)
  w.drive results

/-- The entry conditions of `http_connection_write`, with nothing under way. -/
structure ConnectionWorld.WriteIdle (w : ConnectionWorld) : Prop where
  state : w.conn.writeState = .idle
  buffer : w.conn.activeOutputBuffer = none
  cb : w.conn.onWriteCb = none
  posted : w.posted = []
  writing : w.writing = none

/-- The world `t` after the bytes `text` were written from `w` with the given results:
what was accepted is a start of the text, the callback has reported the end once,
and the connection can write again. -/
structure WriteReported (w t : ConnectionWorld) (text : List Cell) (results : List WriteResult) :
    Prop where
  accepted : ∃ sent, t.accepted = w.accepted ++ sent ∧ sent <+: text
  success : (∀ r ∈ results, ∃ n, r = .written n) → t.writing = none →
    t.accepted = w.accepted ++ text ∧ t.writeCalls = w.writeCalls ++ [0]
  failure : (∃ status, .failed status ∈ results) → t.writing = none →
    t.accepted ≠ w.accepted ++ text →
    ∃ status, status ≠ 0 ∧ t.writeCalls = w.writeCalls ++ [status]
  reusable : t.writing = none → t.WriteIdle

/-- The law of a response write, for one response and one sequence of stream results. -/
def WriteLaw (w : ConnectionWorld) (response : HttpMessage) (cb arg : Pointer)
    (results : List WriteResult) : Prop :=
  ∃ t iob, w.writeResponse response cb arg results = .ok t ∧
    httpMessageSerialize response = .ok iob ∧ WriteReported w t (iobufferData iob) results

/-- `postable_writer` wants the idle state that `http_connection_write` has just left. -/
theorem postableWriter_active (c : HttpConnection) (iob : IOBuffer) (hs : c.writeState = .active)
    (hb : c.activeOutputBuffer = some iob) :
    postableWriter c = .error (.assertion "cref->write_state == WRITE_STATE_IDLE") := by
  simp only [postableWriter, hs, hb, reduceCtorEq, ↓reduceIte, decide_false, cAssert_false,
    error_bind]

/-- A write that is accepted has only posted `postable_writer`. -/
theorem exec_write_posts (w v : ConnectionWorld) (hw : w.WriteIdle) (response : HttpMessage)
    (cb arg : Pointer) (h : w.exec (.write (some response) cb arg) = .ok v) :
    v.posted = [.postableWriter] ∧ v.conn.writeState = .active ∧
      ∃ iob, v.conn.activeOutputBuffer = some iob := by
  obtain ⟨r, hr, rfl⟩ := (after_eq_ok _ _ _).mp h
  simp only [httpConnectionWrite, cAssert_bind_eq_ok] at hr
  obtain ⟨-, -, -, -, hr⟩ := hr
  obtain ⟨iob, -, hr⟩ := (bind_eq_ok _ _ _).mp hr
  cases hr
  refine ⟨?_, rfl, iob, rfl⟩
  change w.posted ++ [ConnectionPost.postableWriter] = _
  rw [hw.posted]
  rfl

theorem pump_active (v : ConnectionWorld) (iob : IOBuffer) (hp : v.posted = [.postableWriter])
    (hs : v.conn.writeState = .active) (hb : v.conn.activeOutputBuffer = some iob) :
    v.pump = .error (.assertion "cref->write_state == WRITE_STATE_IDLE") := by
  have hexec : v.exec .runPosted =
      .error (.assertion "cref->write_state == WRITE_STATE_IDLE") := by
    simp only [ConnectionWorld.exec, hp, ConnectionPost.call, ConnectionWorld.after,
      postableWriter_active v.conn iob hs hb, error_bind]
  simp only [ConnectionWorld.pump, hp, List.foldlM_cons, hexec, error_bind]

theorem drive_active (v : ConnectionWorld) (iob : IOBuffer) (hp : v.posted = [.postableWriter])
    (hs : v.conn.writeState = .active) (hb : v.conn.activeOutputBuffer = some iob)
    (results : List WriteResult) :
    v.drive results = .error (.assertion "cref->write_state == WRITE_STATE_IDLE") := by
  cases results with
  | nil => exact pump_active v iob hp hs hb
  | cons r results => rw [ConnectionWorld.drive, pump_active v iob hp hs hb, error_bind]

theorem writeResponse_error (w : ConnectionWorld) (hw : w.WriteIdle) (response : HttpMessage)
    (cb arg : Pointer) (results : List WriteResult) :
    ∃ e, w.writeResponse response cb arg results = .error e := by
  cases h : w.exec (.write (some response) cb arg) with
  | error e => exact ⟨e, by rw [ConnectionWorld.writeResponse, h, error_bind]⟩
  | ok v =>
    obtain ⟨hp, hs, iob, hb⟩ := exec_write_posts w v hw response cb arg h
    exact ⟨_, by rw [ConnectionWorld.writeResponse, h, ok_bind, drive_active v iob hp hs hb]⟩

/-- The assertion that ends the write of a response that can be serialised. -/
theorem writeResponse_asserts (w : ConnectionWorld) (hw : w.WriteIdle) (response : HttpMessage)
    (iob : IOBuffer) (hser : httpMessageSerialize response = .ok iob) (cb arg : Pointer)
    (hcb : cb ≠ none) (results : List WriteResult) :
    w.writeResponse response cb arg results =
      .error (.assertion "cref->write_state == WRITE_STATE_IDLE") := by
  have hwrite : httpConnectionWrite w.conn (some response) cb arg = .ok ({ w.conn with
      onWriteCb := cb, onWriteCbArg := arg, writeState := .active,
      activeOutputBuffer := some iob }, [.runloopPost .postableWriter]) := by
    simp only [httpConnectionWrite, Option.isSome_iff_ne_none.mpr hcb, hw.state, hw.buffer, hw.cb,
      decide_true, Option.isNone_none, cAssert_true, ok_bind, hser, reduceCtorEq, ↓reduceIte]
  have hexec := (after_eq_ok w _ _).mpr ⟨_, hwrite, rfl⟩
  obtain ⟨hp, hs, iob', hb⟩ := exec_write_posts w _ hw response cb arg hexec
  have hstart : w.exec (.write (some response) cb arg) = .ok _ := hexec
  rw [ConnectionWorld.writeResponse, hstart, ok_bind, drive_active _ iob' hp hs hb]

/-- No response is ever written: for every response and every sequence of stream
results, the first function that the write posts fails its assertion. -/
theorem response_never_written (w : ConnectionWorld) (hw : w.WriteIdle) (response : HttpMessage)
    (cb arg : Pointer) (hcb : cb ≠ none) (results : List WriteResult) :
    ¬WriteLaw w response cb arg results ∧ ∀ iob, httpMessageSerialize response = .ok iob →
      w.writeResponse response cb arg results =
        .error (.assertion "cref->write_state == WRITE_STATE_IDLE") := by
  refine ⟨?_, fun iob hser => writeResponse_asserts w hw response iob hser cb arg hcb results⟩
  rintro ⟨t, iob, ht, -⟩
  obtain ⟨e, he⟩ := writeResponse_error w hw response cb arg results
  rw [he] at ht
  cases ht

/-- `200 OK` without headers or body. -/
def okResponse : HttpMessage :=
  { httpMessageNew ⟨false, 200, .get⟩ with
    reason := ⟨ascii "OK", strategyMinSize, true, by decide, strategyMinSize_le, fun _ => rfl⟩ }

theorem writeIdle_init : ConnectionWorld.init.WriteIdle := ⟨rfl, rfl, rfl, rfl, rfl⟩

theorem response_never_written_ok :
    ¬WriteLaw .init okResponse (some 0) (some 0) [.written 19] :=
  (response_never_written .init writeIdle_init okResponse (some 0) (some 0) (by simp)
    [.written 19]).1

theorem okResponse_write_aborts :
    ConnectionWorld.writeResponse .init okResponse (some 0) (some 0) [.written 19] =
      .error (.assertion "cref->write_state == WRITE_STATE_IDLE") := by
  obtain ⟨iob, c, hser, -⟩ := httpMessageSerialize_holds okResponse [] rfl bufferChainNew_holds
    (by decide)
  exact writeResponse_asserts .init writeIdle_init okResponse iob hser _ _ (by simp) _

end CHttp
