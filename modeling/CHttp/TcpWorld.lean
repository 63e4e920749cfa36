import CHttp.TcpStream

/-! A `TcpStream` on a kqueue run loop, with the client that reads and writes, the functions
posted, and the socket. -/
namespace CHttp

/-- The filters of a `RunloopStream`: whether each is registered, with its callback set. -/
structure KqueueStream where
  readArmed : Bool
  writeArmed : Bool
  deriving DecidableEq, Repr

def KqueueStream.runloopStreamInit : KqueueStream := ⟨false, false⟩

/-- `runloop_stream_arm_read` with `read_ready_callback`. `kqh_reader_register` asks neither
for EV_ONESHOT nor for EV_DISPATCH, so the filter stays. -/
def KqueueStream.runloopStreamArmRead (athis : KqueueStream) : KqueueStream :=
  { athis with readArmed := true }

/-- Whether it goes on to `write`. -/
def wrtrCb (ctx : TcpStream) : Res (TcpStream × Bool) :=
  match ctx.writer.writeState with
  | .eagain => do
    let ctx := { ctx with writer := { ctx.writer with writeState := .ready } }
    tcpTryWrite ctx
    .ok (ctx, true)
  | .initial | .ready | .error | .stopped => .ok (ctx, false)

inductive TcpCall where
  | returned
  | read
  | write
  deriving DecidableEq, Repr

/-- The stream, its filters, the buffers of the pending operations, where the thread is,
how often `postable_try_write` is queued, and the history: the client numbers its calls. -/
structure TcpWorld where
  stream : TcpStream
  filters : KqueueStream
  input : Option IOBuffer
  output : Option IOBuffer
  call : TcpCall
  posted : ℕ
  reads : List ℕ
  delivered : List ℕ
  writes : List ℕ
  completed : List ℕ
  deriving DecidableEq, Repr

def tcpStreamNew (malloced : TcpStream) : TcpWorld where
  stream := tcpStreamInit malloced
  filters := KqueueStream.runloopStreamInit
  input := none
  output := none
  call := .returned
  posted := 0
  reads := []
  delivered := []
  writes := []
  completed := []

inductive TcpEvent where
  | read (cb : ℕ) (iob : IOBuffer)
  | write (cb : ℕ) (iob : IOBuffer)
  | readReturns (r : TcpReadResult)
  | writeReturns (r : TcpWriteResult)
  | runPosted
  | readReady
  | writeReady
  deriving DecidableEq, Repr

/-- The data lies inside the block. -/
def IOBuffer.WellFormed (iob : IOBuffer) : Prop :=
  (iob.mem.length : ℤ) = iob.bufferCapacity+1 ∧
    ((iob.bufferPtr+iob.bufferRemaining : ℕ) : ℤ) ≤ iob.bufferCapacity

instance (iob : IOBuffer) : Decidable iob.WellFormed :=
  inferInstanceAs (Decidable (_ ∧ _))

theorem IOBuffer.WellFormed.queues {iob : IOBuffer} (h : iob.WellFormed) :
    ∃ c, iob.Queues c (iobufferData iob) := by
  obtain ⟨hlen, hin⟩ := h
  obtain ⟨c, hc⟩ := Int.eq_ofNat_of_zero_le (show 0 ≤ iob.bufferCapacity by omega)
  exact ⟨c, by omega, hc, by omega, rfl⟩

/-- Data and room of the buffers in use. -/
def TcpWorld.room (w : TcpWorld) : ℤ := (w.input.map iobufferSpaceLen).getD 0

def TcpWorld.data (w : TcpWorld) : ℕ := (w.output.map iobufferDataLen).getD 0

def TcpWorld.Enabled (w : TcpWorld) : TcpEvent → Prop
  | .read cb iob => w.call = .returned ∧ (∀ i ∈ w.reads, i ∈ w.delivered) ∧ cb ∉ w.reads ∧
      iob.WellFormed ∧ 0 < iobufferSpaceLen iob
  | .write cb iob => w.call = .returned ∧ (∀ i ∈ w.writes, i ∈ w.completed) ∧ cb ∉ w.writes ∧
      iob.WellFormed
  | .readReturns (.bytes d) => w.call = .read ∧ d ≠ [] ∧ (d.length : ℤ) ≤ w.room
  | .readReturns _ => w.call = .read
  | .writeReturns (.wrote n) => w.call = .write ∧ 0 < n ∧ n ≤ w.data
  | .writeReturns _ => w.call = .write
  | .runPosted => w.call = .returned ∧ 0 < w.posted
  | .readReady => w.call = .returned ∧ w.filters.readArmed = true
  | .writeReady => w.call = .returned ∧ w.filters.writeArmed = true

instance TcpWorld.decidableEnabled (w : TcpWorld) (e : TcpEvent) : Decidable (w.Enabled e) :=
  match e with
  | .read cb iob => inferInstanceAs (Decidable (w.call = .returned ∧
      (∀ i ∈ w.reads, i ∈ w.delivered) ∧ cb ∉ w.reads ∧ iob.WellFormed ∧ 0 < iobufferSpaceLen iob))
  | .write cb iob => inferInstanceAs (Decidable (w.call = .returned ∧
      (∀ i ∈ w.writes, i ∈ w.completed) ∧ cb ∉ w.writes ∧ iob.WellFormed))
  | .readReturns (.bytes d) => inferInstanceAs (Decidable
      (w.call = .read ∧ d ≠ [] ∧ (d.length : ℤ) ≤ w.room))
  | .readReturns (.eof _) | .readReturns .eagain | .readReturns (.failed _) =>
    inferInstanceAs (Decidable (w.call = .read))
  | .writeReturns (.wrote n) => inferInstanceAs (Decidable
      (w.call = .write ∧ 0 < n ∧ n ≤ w.data))
  | .writeReturns (.nothing _) | .writeReturns .eagain | .writeReturns (.failed _) =>
    inferInstanceAs (Decidable (w.call = .write))
  | .runPosted => inferInstanceAs (Decidable (w.call = .returned ∧ 0 < w.posted))
  | .readReady => inferInstanceAs (Decidable (w.call = .returned ∧ w.filters.readArmed = true))
  | .writeReady => inferInstanceAs (Decidable (w.call = .returned ∧ w.filters.writeArmed = true))

/-- The callback that `tcp_read` was given last is the one that is set. -/
def TcpWorld.readReturned (w : TcpWorld) (r : TcpStream × IOBuffer × Option ℤ) : TcpWorld :=
  match r.2.2 with
  | some _ => { w with
      stream := r.1
      input := some r.2.1
      call := .returned
      delivered := w.delivered ++ w.reads.getLast?.toList }
  | none => { w with
      stream := r.1
      input := some r.2.1
      call := .returned
      filters := KqueueStream.runloopStreamArmRead w.filters }

def TcpWorld.writeReturned (w : TcpWorld) (r : TcpStream × IOBuffer × TcpWriteEnd) : TcpWorld :=
  match r.2.2 with
  | .callback _ => { w with
      stream := r.1
      output := some r.2.1
      call := .returned
      completed := w.completed ++ w.writes.getLast?.toList }
  | .post => { w with
      stream := r.1
      output := some r.2.1
      call := .returned
      posted := w.posted+1 }
  | .stall => { w with
      stream := r.1
      output := some r.2.1
      call := .returned }

def TcpWorld.exec (w : TcpWorld) : TcpEvent → Res TcpWorld
  | .read cb iob => do
    let (stream, reading) ← tcpRead w.stream iob
    .ok { w with
      stream := stream
      input := some iob
      reads := w.reads ++ [cb]
      call := if reading then .read else .returned }
  | .write cb iob => do
    let stream ← tcpWrite w.stream
    .ok { w with
      stream := stream
      output := some iob
      writes := w.writes ++ [cb]
      call := .write }
  | .readReturns result =>
    match w.input with
    | none => .error .nullPointer
    | some iob => do
      let r ← tcpReadReturns w.stream iob result
      .ok (w.readReturned r)
  | .writeReturns result =>
    match w.output with
    | none => .error .nullPointer
    | some iob => do
      let r ← tcpWriteReturns w.stream iob result
      .ok (w.writeReturned r)
  | .runPosted => do
    tcpTryWrite w.stream
    .ok { w with posted := w.posted-1, call := .write }
  | .readReady => do
    let (stream, reading) ← readReadyCallback w.stream
    .ok { w with stream := stream, call := if reading then .read else .returned }
  | .writeReady => do
    let (stream, writing) ← wrtrCb w.stream
    .ok { w with stream := stream, call := if writing then .write else .returned }

def tcpMachine : Machine TcpWorld TcpEvent Fault := ⟨TcpWorld.Enabled, TcpWorld.exec⟩

instance tcpMachine.decidableEnabled (w : TcpWorld) (e : TcpEvent) :
    Decidable (tcpMachine.enabled w e) :=
  inferInstanceAs (Decidable (w.Enabled e))

/-- A write that has not completed is queued again, or armed after EAGAIN. -/
def TcpWorld.Resumable (w : TcpWorld) : Prop :=
  w.call = .returned → w.stream.writer.outputBuffer = true →
    0 < w.posted ∨ (w.stream.writer.writeState = .eagain ∧ w.filters.writeArmed = true)

/-- `write` does not return EAGAIN. -/
def TcpEvent.Unblocked : TcpEvent → Prop
  | .writeReturns r => r ≠ .eagain
  | _ => True

instance (e : TcpEvent) : Decidable e.Unblocked :=
  match e with
  | .writeReturns r => inferInstanceAs (Decidable (r ≠ .eagain))
  | .read _ _ | .write _ _ | .readReturns _ | .runPosted | .readReady | .writeReady =>
    inferInstanceAs (Decidable True)

/-- What else is known of the writer while writes can resume: nothing ever arms the write
filter, and `postable_try_write` is queued once at most. -/
structure TcpWorld.Writing (w : TcpWorld) : Prop where
  unarmed : w.filters.writeArmed = false
  once : w.posted ≤ 1
  idle : w.stream.writer.outputBuffer = false → w.posted = 0
  inWrite : w.call = .write → w.stream.writer.outputBuffer = true ∧ w.posted = 0
  inRead : w.call = .read → w.stream.writer.outputBuffer = true → 0 < w.posted

section inversion

variable {tcp tcp' : TcpStream}

theorem invokeReadCb_writer (h : invokeReadCb tcp = .ok tcp') : tcp'.writer = tcp.writer := by
  rw [invokeReadCb, cAssert_bind_eq_ok] at h
  obtain rfl := Except.ok.inj h.2
  rfl

theorem tcpReadReturns_writer {iob : IOBuffer} {result : TcpReadResult}
    {r : TcpStream × IOBuffer × Option ℤ} (h : tcpReadReturns tcp iob result = .ok r) :
    r.1.writer = tcp.writer := by
  cases result with
  | bytes d =>
    obtain ⟨_, -, h⟩ := (bind_eq_ok _ _ _).mp h
    obtain ⟨_, -, h⟩ := (bind_eq_ok _ _ _).mp h
    obtain ⟨tcp', hcb, h⟩ := (bind_eq_ok _ _ _).mp h
    obtain rfl := Except.ok.inj h
    exact (invokeReadCb_writer hcb).trans rfl
  | eof errno | failed errno =>
    obtain ⟨tcp', hcb, h⟩ := (bind_eq_ok _ _ _).mp h
    obtain rfl := Except.ok.inj h
    exact invokeReadCb_writer hcb
  | eagain =>
    obtain rfl := Except.ok.inj h
    rfl

theorem tcpWrite_inv (h : tcpWrite tcp = .ok tcp') :
    tcp.writer.outputBuffer = false ∧
      tcp' = { tcp with writer := { tcp.writer with outputBuffer := true, writeCb := true } } := by
  obtain ⟨pending, hpending, h⟩ := (bind_eq_ok _ _ _).mp h
  rw [isWritePending, cAssert_bind_eq_ok] at hpending
  obtain rfl := Except.ok.inj hpending.2
  rw [cAssert_bind_eq_ok, Bool.not_eq_true'] at h
  obtain ⟨_, -, hok⟩ := (bind_eq_ok _ _ _).mp h.2
  obtain rfl := Except.ok.inj hok
  exact ⟨h.1, rfl⟩

theorem tcpTryWrite_inv (h : tcpTryWrite tcp = .ok ()) : tcp.writer.outputBuffer = true := by
  rw [tcpTryWrite] at h
  split_ifs at h with hb
  exact hb

theorem tcpInvokeWriteCallback_inv (h : tcpInvokeWriteCallback tcp = .ok tcp') :
    tcp'.writer.outputBuffer = false := by
  rw [tcpInvokeWriteCallback] at h
  split_ifs at h
  obtain rfl := Except.ok.inj h
  rfl

/-- How `try_write` ends, and what it does to the pending write. -/
theorem tcpWriteReturns_inv {iob : IOBuffer} {result : TcpWriteResult}
    {r : TcpStream × IOBuffer × TcpWriteEnd} (h : tcpWriteReturns tcp iob result = .ok r) :
    match r.2.2 with
    | .callback _ => r.1.writer.outputBuffer = false ∧ result ≠ .eagain
    | .post => r.1.writer.outputBuffer = tcp.writer.outputBuffer ∧ result ≠ .eagain
    | .stall => r.1.writer.outputBuffer = tcp.writer.outputBuffer ∧ result = .eagain := by
  cases result with
  | wrote n =>
    obtain ⟨iob', -, h⟩ := (bind_eq_ok _ _ _).mp h
    dsimp only at h
    split_ifs at h
    · obtain ⟨tcp', hcb, h⟩ := (bind_eq_ok _ _ _).mp h
      obtain rfl := Except.ok.inj h
      exact ⟨tcpInvokeWriteCallback_inv hcb, nofun⟩
    · obtain rfl := Except.ok.inj h
      exact ⟨rfl, nofun⟩
  | nothing errno | failed errno =>
    obtain ⟨tcp', hcb, h⟩ := (bind_eq_ok _ _ _).mp h
    obtain rfl := Except.ok.inj h
    exact ⟨tcpInvokeWriteCallback_inv hcb, nofun⟩
  | eagain =>
    obtain rfl := Except.ok.inj h
    exact ⟨rfl, rfl⟩

end inversion

theorem TcpWorld.call_of_readReturns {w : TcpWorld} {r : TcpReadResult}
    (he : w.Enabled (.readReturns r)) : w.call = .read := by
  cases r with
  | bytes d => exact he.1
  | eof errno | failed errno => exact he
  | eagain => exact he

theorem TcpWorld.call_of_writeReturns {w : TcpWorld} {r : TcpWriteResult}
    (he : w.Enabled (.writeReturns r)) : w.call = .write := by
  cases r with
  | wrote n => exact he.1
  | nothing errno | failed errno => exact he
  | eagain => exact he

/-- A step that leaves the writer alone, between calls or inside `read`. -/
structure TcpWorld.WriterKept (w t : TcpWorld) : Prop where
  before : w.call ≠ .write
  writer : t.stream.writer = w.stream.writer
  output : t.output = w.output
  posted : t.posted = w.posted
  writes : t.writes = w.writes
  armed : t.filters.writeArmed = w.filters.writeArmed
  after : t.call ≠ .write

section writerKept

variable {w t : TcpWorld}

theorem TcpWorld.WriterKept.read {cb : ℕ} {iob : IOBuffer} (he : w.Enabled (.read cb iob))
    (hx : w.exec (.read cb iob) = .ok t) : w.WriterKept t := by
  obtain ⟨⟨stream, reading⟩, hread, hok⟩ := (bind_eq_ok _ _ _).mp hx
  obtain rfl := Except.ok.inj hok
  refine ⟨by rw [he.1]; nofun, (tcpRead_inv hread).2, rfl, rfl, rfl, rfl, ?_⟩
  dsimp only
  split_ifs <;> nofun

theorem TcpWorld.WriterKept.readReturns {result : TcpReadResult}
    (he : w.Enabled (.readReturns result)) (hx : w.exec (.readReturns result) = .ok t) :
    w.WriterKept t := by
  have hcall : w.call ≠ .write := by
    rw [w.call_of_readReturns he]
    nofun
  rw [TcpWorld.exec] at hx
  split at hx
  · cases hx
  · obtain ⟨r, hr, hok⟩ := (bind_eq_ok _ _ _).mp hx
    obtain rfl := Except.ok.inj hok
    have hwriter := tcpReadReturns_writer hr
    obtain ⟨stream, iob', called⟩ := r
    cases called with
    | some error => exact ⟨hcall, hwriter, rfl, rfl, rfl, rfl, nofun⟩
    | none => exact ⟨hcall, hwriter, rfl, rfl, rfl, rfl, nofun⟩

theorem TcpWorld.WriterKept.readReady (he : w.Enabled .readReady) (hx : w.exec .readReady = .ok t) :
    w.WriterKept t := by
  obtain ⟨⟨stream, reading⟩, hread, hok⟩ := (bind_eq_ok _ _ _).mp hx
  obtain rfl := Except.ok.inj hok
  obtain ⟨state, rfl⟩ := readReadyCallback_inv hread
  refine ⟨by rw [he.1]; nofun, rfl, rfl, rfl, rfl, rfl, ?_⟩
  dsimp only
  split_ifs <;> nofun

end writerKept

theorem TcpWorld.Writing.frame {w t : TcpWorld} (hw : w.Writing) (hp : w.Resumable)
    (h : w.WriterKept t) : t.Resumable ∧ t.Writing := by
  have hqueued : w.stream.writer.outputBuffer = true → 0 < w.posted := by
    intro hb
    cases hc : w.call with
    | returned =>
      rcases hp hc hb with hq | ⟨-, ha⟩
      · exact hq
      · rw [hw.unarmed] at ha
        cases ha
    | read => exact hw.inRead hc hb
    | write => exact absurd hc h.before
  refine ⟨fun _ hb => .inl ?_, ⟨by rw [h.armed, hw.unarmed], by rw [h.posted]; exact hw.once, ?_,
    fun hc => absurd hc h.after, fun _ hb => ?_⟩⟩
  · rw [h.writer] at hb
    rw [h.posted]
    exact hqueued hb
  · intro hb
    rw [h.writer] at hb
    rw [h.posted]
    exact hw.idle hb
  · rw [h.writer] at hb
    rw [h.posted]
    exact hqueued hb

/-- The end of `try_write`. -/
theorem writeReturned_resumable {w : TcpWorld} (hw : w.Writing) (hcall : w.call = .write)
    (iob : IOBuffer) (result : TcpWriteResult) (r : TcpStream × IOBuffer × TcpWriteEnd)
    (hr : tcpWriteReturns w.stream iob result = .ok r) :
    Machine.HoldsIff TcpWorld.Resumable TcpWorld.Writing (w.writeReturned r) (result ≠ .eagain) := by
  obtain ⟨hbuffer, hposted⟩ := hw.inWrite hcall
  have hinv := tcpWriteReturns_inv hr
  obtain ⟨stream, iob', next⟩ := r
  cases next with
  | callback error =>
    refine .of_holds ⟨fun _ hb => ?_, hw.unarmed, hw.once, fun _ => hposted, nofun, nofun⟩ hinv.2
    rw [TcpWorld.writeReturned, hinv.1] at hb
    cases hb
  | post =>
    refine .of_holds ⟨fun _ _ => .inl (Nat.succ_pos _), hw.unarmed, ?_, fun hb => ?_, nofun, nofun⟩
      hinv.2
    · show w.posted+1 ≤ 1
      omega
    · have hb' : stream.writer.outputBuffer = false := hb
      rw [hinv.1, hbuffer] at hb'
      cases hb'
  | stall =>
    refine .of_not (fun hp => ?_) (not_not.mpr hinv.2)
    rcases hp rfl (hinv.1.trans hbuffer) with hq | ⟨-, ha⟩
    · exact absurd hq (by show ¬0 < w.posted; omega)
    · exact Bool.false_ne_true (hw.unarmed.symm.trans ha)

theorem resumable_step (w t : TcpWorld) (e : TcpEvent) (hw : w.Writing) (hp : w.Resumable)
    (he : w.Enabled e) (hx : w.exec e = .ok t) :
    Machine.HoldsIff TcpWorld.Resumable TcpWorld.Writing t e.Unblocked := by
  cases e with
  | read cb iob => exact .of_holds (hw.frame hp (.read he hx)) trivial
  | write cb iob =>
    obtain ⟨stream, hwrite, hok⟩ := (bind_eq_ok _ _ _).mp hx
    obtain rfl := Except.ok.inj hok
    obtain ⟨hidle, rfl⟩ := tcpWrite_inv hwrite
    have hposted := hw.idle hidle
    exact .of_holds ⟨nofun, hw.unarmed, hw.once, fun _ => hposted, fun _ => ⟨rfl, hposted⟩, nofun⟩
      trivial
  | readReturns result => exact .of_holds (hw.frame hp (.readReturns he hx)) trivial
  | writeReturns result =>
    have hcall := w.call_of_writeReturns he
    rw [TcpWorld.exec] at hx
    split at hx
    · cases hx
    · obtain ⟨r, hr, hok⟩ := (bind_eq_ok _ _ _).mp hx
      obtain rfl := Except.ok.inj hok
      exact writeReturned_resumable hw hcall _ result r hr
  | runPosted =>
    obtain ⟨_, htry, hok⟩ := (bind_eq_ok _ _ _).mp hx
    obtain rfl := Except.ok.inj hok
    have hbuffer := tcpTryWrite_inv htry
    have honce := hw.once
    have hposted : w.posted-1 = 0 := by omega
    exact .of_holds ⟨nofun, hw.unarmed, (Nat.sub_le _ _).trans honce, fun _ => hposted,
      fun _ => ⟨hbuffer, hposted⟩, nofun⟩
      trivial
  | readReady => exact .of_holds (hw.frame hp (.readReady he hx)) trivial
  | writeReady =>
    have harmed := he.2
    rw [hw.unarmed] at harmed
    cases harmed

/-- Every write that has not completed can resume, exactly when the stream's memory had no
output buffer in it and `write` never returns EAGAIN. -/
theorem tcp_write_resumes_iff (malloced : TcpStream) (es : List TcpEvent) (w : TcpWorld)
    (h : tcpMachine.Run (tcpStreamNew malloced) es w) :
    tcpMachine.Always TcpWorld.Resumable (tcpStreamNew malloced) es ↔
      malloced.writer.outputBuffer = false ∧
        (tcpMachine.restrict fun _ e => e.Unblocked).Run (tcpStreamNew malloced) es w := by
  cases hb : malloced.writer.outputBuffer with
  | true =>
    refine iff_of_false (fun halways => ?_) (fun hr => Bool.false_ne_true hr.1.symm)
    rcases halways [] es _ rfl (.nil _) rfl hb with hq | ⟨hstate, -⟩
    · exact absurd hq (Nat.lt_irrefl 0)
    · cases hstate
  | false =>
    have hstart : (tcpStreamNew malloced).Resumable := by
      intro _ hb'
      rw [tcpStreamNew, tcpStreamInit, hb] at hb'
      cases hb'
    have hwriting : (tcpStreamNew malloced).Writing := ⟨rfl, Nat.zero_le 1, fun _ => rfl, nofun, nofun⟩
    have hiff := h.always_iff (fun s e t hj hp he hx => resumable_step s t e hj hp he hx) hwriting hstart
    rw [hiff]
    exact ⟨fun hr => ⟨rfl, hr⟩, fun hr => hr.2⟩

/-- Memory that is all zero. -/
def zeroTcpStream : TcpStream := ⟨⟨.initial, false, false⟩, ⟨.initial, false, false⟩⟩

/-- Three bytes to be written. -/
def threeBytes : IOBuffer := ⟨[some 97, some 98, some 99, some 0], 3, 0, 3⟩

theorem tcp_write_in_two_parts :
    ∃ w, tcpMachine.Run (tcpStreamNew zeroTcpStream)
        [.write 1 threeBytes, .writeReturns (.wrote 2), .runPosted, .writeReturns (.wrote 1)] w ∧
      tcpMachine.Always TcpWorld.Resumable (tcpStreamNew zeroTcpStream)
        [.write 1 threeBytes, .writeReturns (.wrote 2), .runPosted, .writeReturns (.wrote 1)] := by
  have hrun : ∃ w, (tcpMachine.restrict fun _ e => e.Unblocked).Run (tcpStreamNew zeroTcpStream)
      [.write 1 threeBytes, .writeReturns (.wrote 2), .runPosted, .writeReturns (.wrote 1)] w :=
    Machine.exists_run_of_isSome (by decide)
  obtain ⟨w, hrun⟩ := hrun
  exact ⟨w, hrun.of_restrict, (tcp_write_resumes_iff _ _ w hrun.of_restrict).mpr ⟨rfl, hrun⟩⟩

/-- The socket's buffer is full once: the write is never tried again. -/
theorem tcp_write_stalls :
    ∃ w, tcpMachine.Run (tcpStreamNew zeroTcpStream) [.write 1 threeBytes, .writeReturns .eagain] w ∧
      w.call = .returned ∧ w.stream.writer.outputBuffer = true ∧ w.posted = 0 ∧
      w.stream.writer.writeState = .eagain ∧ w.filters.writeArmed = false :=
  Machine.exists_run_of_replay _ (by decide)

end CHttp
