import CHttp.EchoApp

/-! The end of an echo app's connection: `read` finds the end of the input or fails, and
the outcome passes through the message stream to the app's done callback. -/
namespace CHttp

/-- The app before the end of its connection: its read is posted, or a read or a write is
under way, whatever became of the writes so far. -/
structure EchoWorld.Alive (w : EchoWorld) (peer : Bytes) (rp : ReadPhase) : Prop where
  reads : w.world.ReadsAt peer rp
  turn : w.posted+(if rp = .idle then 0 else 1)+w.world.stream.writeCb.toList.length = 1
  tries : w.world.posted.count .postableTryWrite+(if w.world.call = .write then 1 else 0) ≤
    w.world.stream.writeCb.toList.length
  doneCb : w.doneCb = true
  done : w.done = []
  readNames : Numbered w.world.reads

/-- Nothing more happens. -/
def EchoWorld.Ended (w : EchoWorld) : Prop := ∀ e, ¬w.Enabled e

/-- The memory of the stream's reader was not zero, which stops the first read: no message
is ever asked for. -/
structure EchoWorld.Unread (w : EchoWorld) : Prop where
  set : w.world.stream.tcp.reader.inputBuffer = true ∨ w.world.stream.tcp.reader.readCb = true
  buffer : w.world.stream.inputBuffer = none
  list : w.world.stream.inputMessageList = []
  cb : w.world.stream.readCb = none
  posted : w.world.posted = []
  call : w.world.call ≠ .write

section ending

variable {κ : Type} {m : MsgStream κ} {cb : κ}

/-- The end of the input, or an error: it goes to the callback, unless it is 0, which is
taken for data. -/
theorem msgReadReturns_ends (h : m.ReadsAt .reading) (hcb : m.readCb = some cb)
    (r : TcpReadResult) (errno : ℤ) (hr : r = .eof errno ∨ r = .failed errno) :
    msgReadReturns m r =
      if errno = 0 then
        .error (.assertion "IOBuffer_data_len(msg_stream_ref->input_buffer) != 0")
      else .ok ({ m with
        tcp := { m.tcp with reader := { m.tcp.reader with inputBuffer := false, readCb := false } }
        readCb := none }, .readCallback cb none errno) := by
  obtain ⟨-, iob, hi⟩ := h.busy nofun
  have hempty : iobufferDataLen iob = 0 := (h.empty iob hi).remaining
  have hread : tcpReadReturns m.tcp iob r = .ok ({ m.tcp with
      reader := { m.tcp.reader with inputBuffer := false, readCb := false } }, iob, some errno) := by
    have hset : m.tcp.reader.readCb = true := h.callback
    rcases hr with rfl | rfl
    · simp only [tcpReadReturns, invokeReadCb, hset, cAssert_true, ok_bind]
    · simp only [tcpReadReturns, invokeReadCb, hset, cAssert_true, ok_bind]
  rw [msgReadReturns, hi]
  simp only [hread, ok_bind, msgTcpReadCallback]
  split_ifs with hz
  · simp only [hempty, ne_eq, not_true_eq_false, decide_false, cAssert_false, error_bind]
  · simp only [msgInvokeReadCallback, hcb]

theorem msgStreamWrite_started {msg : NewLineMsg} {r : MsgStream κ × StreamCall κ}
    (h : msgStreamWrite m msg cb = .ok r) : r.1.writeCb = some cb ∧ r.2 = .write := by
  rw [msgStreamWrite, cAssert_bind_eq_ok, cAssert_bind_eq_ok, cAssert_bind_eq_ok] at h
  obtain ⟨iob, -, h⟩ := (bind_eq_ok _ _ _).mp h.2.2.2
  obtain ⟨tcp, -, h⟩ := (bind_eq_ok _ _ _).mp h
  obtain rfl := Except.ok.inj h
  exact ⟨rfl, rfl⟩

/-- Whatever `write` returns, the callback is called or the write goes on. -/
theorem msgWriteReturns_cases {result : TcpWriteResult} {r : MsgStream κ × StreamCall κ}
    (h : msgWriteReturns m result = .ok r) :
    (∃ cb error, m.writeCb = some cb ∧ r.1.writeCb = none ∧ r.2 = .writeCallback cb error) ∨
    (r.1.writeCb = m.writeCb ∧ (r.2 = .post .postableTryWrite ∨ r.2 = .returned)) := by
  unfold msgWriteReturns at h
  split at h
  · cases h
  · obtain ⟨⟨tcp, iob', next⟩, -, h⟩ := (bind_eq_ok _ _ _).mp h
    cases next with
    | callback error =>
      left
      simp only [msgTcpWriteCallback, msgInvokeWriteCallback] at h
      split at h
      · cases h
      · next wcb hcb =>
        obtain rfl := Except.ok.inj h
        exact ⟨wcb, error, hcb, rfl, rfl⟩
    | post =>
      obtain rfl := Except.ok.inj h
      exact .inr ⟨rfl, .inl rfl⟩
    | stall =>
      obtain rfl := Except.ok.inj h
      exact .inr ⟨rfl, .inr rfl⟩

end ending

section alive

variable {w t : EchoWorld} {peer : Bytes} {rp : ReadPhase}

theorem EchoWorld.Alive.alone_reading (h : w.Alive peer rp) (hp : rp ≠ .idle) :
    w.posted = 0 ∧ w.world.stream.writeCb = none := by
  have hturn := h.turn
  rw [if_neg hp] at hturn
  cases hcb : w.world.stream.writeCb with
  | none => exact ⟨by omega, rfl⟩
  | some cb =>
    rw [hcb, Option.toList_some, List.length_singleton] at hturn
    omega

theorem EchoWorld.Alive.alone_posted (h : w.Alive peer rp) (hp : 0 < w.posted) :
    w.posted = 1 ∧ rp = .idle ∧ w.world.stream.writeCb = none := by
  have hturn := h.turn
  split_ifs at hturn with hr
  · refine ⟨by omega, hr, ?_⟩
    rw [← Option.toList_eq_nil_iff, ← List.length_eq_zero_iff]
    omega
  · omega

/-- With no write under way none is tried. -/
theorem EchoWorld.Alive.no_tries (h : w.Alive peer rp) (hcb : w.world.stream.writeCb = none) :
    w.world.posted.count .postableTryWrite = 0 ∧ w.world.call ≠ .write := by
  have htries := h.tries
  rw [hcb, Option.toList_none, List.length_nil] at htries
  split_ifs at htries with hcall
  · omega
  · exact ⟨by omega, hcall⟩

/-- With a write under way it is tried or posted once at most. -/
theorem EchoWorld.Alive.one_try (h : w.Alive peer rp) (hcall : w.world.call = .write) :
    w.world.posted.count .postableTryWrite = 0 ∧ w.world.stream.writeCb.isSome = true := by
  have htries := h.tries
  rw [if_pos hcall] at htries
  cases hcb : w.world.stream.writeCb with
  | none =>
    rw [hcb, Option.toList_none, List.length_nil] at htries
    omega
  | some cb =>
    rw [hcb, Option.toList_some, List.length_singleton] at htries
    exact ⟨by omega, rfl⟩

/-- The app starts the write of a response. -/
theorem alive_answers (u : StreamWorld) (hr : u.ReadsAt peer .idle) (cb : ℕ) (msg : NewLineMsg)
    (hcall : u.call = .readCallback cb (some msg) 0)
    (htries : u.posted.count .postableTryWrite = 0) (hnames : Numbered u.reads)
    (hx : EchoWorld.react ⟨u, 0, true, []⟩ = .ok t) : t.Alive peer .idle := by
  simp only [EchoWorld.react, hcall, EchoWorld.msgReadCallback, ne_eq, not_true_eq_false,
    if_false] at hx
  obtain ⟨response, -, hx⟩ := (bind_eq_ok _ _ _).mp hx
  obtain ⟨v, hwrite, hx⟩ := (bind_eq_ok _ _ _).mp hx
  obtain rfl := Except.ok.inj hx
  obtain ⟨hread, -⟩ := reads_keep hr _ (by rw [hcall]; simp) rfl hwrite
  have hreads : v.reads = u.reads := by
    rw [(exec_calls hwrite).1]
    exact List.append_nil _
  obtain ⟨⟨m, call⟩, hmsg, hv⟩ := (bind_eq_ok _ _ _).mp hwrite
  obtain rfl := Except.ok.inj hv
  obtain ⟨hcb, rfl⟩ : m.writeCb = some u.writes.length ∧ call = .write := msgStreamWrite_started hmsg
  refine ⟨hread, ?_, ?_, rfl, rfl, hreads ▸ hnames⟩
  · show 0+0+m.writeCb.toList.length = 1
    rw [hcb]
    rfl
  · show u.posted.count .postableTryWrite+1 ≤ m.writeCb.toList.length
    rw [htries, hcb]
    rfl

/-- What the app makes of a step of reading. -/
theorem alive_read (h : w.Alive peer rp) (u : StreamWorld) (rp' : ReadPhase)
    (hcb : w.world.stream.writeCb = none) (hr : u.ReadsAt peer rp')
    (hstep : MsgReadStep w.world u rp') (hkeep : w.world.KeepsWriting u) (hnames : Numbered u.reads)
    (hx : EchoWorld.react { w with world := u, posted := 0 } = .ok t) :
    ∃ rp', t.Alive peer rp' := by
  obtain ⟨htries, -⟩ := h.no_tries hcb
  rw [← hkeep.posted] at htries
  rw [h.doneCb, h.done] at hx
  have hne := hstep.call_ne
  cases hstep with
  | delivers cb msg hcall hdelivered =>
    exact ⟨.idle, alive_answers u hr cb msg hcall htries hnames hx⟩
  | proceeds phase hp hcall hdelivered =>
    rw [react_reading rp' hcall] at hx
    obtain rfl := Except.ok.inj hx
    have hnone : u.stream.writeCb = none :=
      (congrArg (fun p => p.2.1) hkeep.stream).trans hcb
    refine ⟨rp', hr, ?_, ?_, rfl, rfl, hnames⟩
    · show 0+(if rp' = .idle then 0 else 1)+u.stream.writeCb.toList.length = 1
      rw [if_neg hp, hnone]
      rfl
    · show u.posted.count .postableTryWrite+(if u.call = .write then 1 else 0) ≤ _
      rw [if_neg hne, htries]
      exact Nat.zero_le _

theorem alive_postableRead (h : w.Alive peer rp) (he : w.Enabled .postableRead)
    (hx : w.exec .postableRead = .ok t) : ∃ rp', t.Alive peer rp' := by
  obtain ⟨hfree, hposted⟩ := he
  obtain ⟨hone, rfl, hcb⟩ := h.alone_posted hposted
  have hnow := h.reads.history.reads
  rw [h.reads.stream.idle.mp rfl, Option.toList_none, List.append_nil] at hnow
  have henabled : w.world.Enabled (.read w.world.reads.length) :=
    ⟨hfree, fun i hi => hnow ▸ hi, h.readNames.fresh⟩
  obtain ⟨u, rp', hread, hr, hstep, hkeep⟩ := reads_read h.reads _ henabled
  have hnames : Numbered u.reads := by
    rw [(exec_calls hread).1]
    exact h.readNames.snoc
  rw [EchoWorld.exec, hread, ok_bind, hone] at hx
  exact alive_read h u rp' hcb hr hstep hkeep hnames hx

/-- What the app makes of a result of `write`: when the write has completed it posts its
next read. -/
theorem alive_writeReturns (h : w.Alive peer rp) (result : TcpWriteResult) (u : StreamWorld)
    (he : w.world.Enabled (.writeReturns result)) (hu : w.world.exec (.writeReturns result) = .ok u)
    (hr : u.ReadsAt peer rp) (hnames : Numbered u.reads)
    (hx : EchoWorld.react { w with world := u } = .ok t) : t.Alive peer rp := by
  have hturn := h.turn
  obtain ⟨htries, hsome⟩ := h.one_try (StreamWorld.call_of_writeReturns he)
  obtain ⟨⟨m, call⟩, hreturns, hu⟩ := (bind_eq_ok _ _ _).mp hu
  obtain rfl := Except.ok.inj hu
  rcases msgWriteReturns_cases hreturns with ⟨cb, error, hcb, hnone, hcall⟩ | ⟨hcb, hcall⟩
  · obtain rfl : call = .writeCallback cb error := hcall
    obtain rfl := Except.ok.inj hx
    rw [hcb, Option.toList_some, List.length_singleton] at hturn
    refine ⟨hr, ?_, ?_, h.doneCb, h.done, hnames⟩
    · show w.posted+1+(if rp = .idle then 0 else 1)+m.writeCb.toList.length = 1
      rw [show m.writeCb = none from hnone, Option.toList_none, List.length_nil]
      omega
    · show w.world.posted.count .postableTryWrite+0 ≤ _
      rw [htries]
      exact Nat.zero_le _
  · have hone : m.writeCb.toList.length = 1 := by
      obtain ⟨cb, hcb'⟩ := Option.isSome_iff_exists.mp hsome
      rw [show m.writeCb = some cb from hcb.trans hcb', Option.toList_some, List.length_singleton]
    rw [← show m.writeCb = w.world.stream.writeCb from hcb] at hturn
    rcases hcall with hcall | hcall
    · obtain rfl : call = .post .postableTryWrite := hcall
      obtain rfl := Except.ok.inj hx
      refine ⟨hr, hturn, ?_, h.doneCb, h.done, hnames⟩
      show List.count StreamPosted.postableTryWrite (w.world.posted ++ [.postableTryWrite])+0 ≤
        m.writeCb.toList.length
      rw [List.count_append, htries, hone]
      exact le_rfl
    · obtain rfl : call = .returned := hcall
      obtain rfl := Except.ok.inj hx
      refine ⟨hr, hturn, ?_, h.doneCb, h.done, hnames⟩
      show w.world.posted.count .postableTryWrite+0 ≤ _
      rw [htries]
      exact Nat.zero_le _

/-- The posted write is tried again. -/
theorem alive_tryWrite (h : w.Alive peer rp) (u : StreamWorld)
    (he : w.world.Enabled (.runPosted .postableTryWrite))
    (hu : w.world.exec (.runPosted .postableTryWrite) = .ok u) (hr : u.ReadsAt peer rp)
    (hnames : Numbered u.reads) (hx : EchoWorld.react { w with world := u } = .ok t) :
    t.Alive peer rp := by
  obtain ⟨r, hrun, hu⟩ := (bind_eq_ok _ _ _).mp hu
  obtain rfl := Except.ok.inj hu
  obtain ⟨-, -, hrun⟩ := (bind_eq_ok _ _ _).mp hrun
  obtain rfl := Except.ok.inj hrun
  obtain rfl := Except.ok.inj hx
  have htries := h.tries
  rw [if_neg he.1.2] at htries
  refine ⟨hr, h.turn, ?_, h.doneCb, h.done, hnames⟩
  show (w.world.posted.erase .postableTryWrite).count .postableTryWrite+1 ≤
    w.world.stream.writeCb.toList.length
  have hcount := List.count_pos_iff.mpr he.2
  rw [List.count_erase_self]
  omega

/-- What the app makes of a step of writing. -/
theorem alive_write (h : w.Alive peer rp) (e : StreamEvent) (hw : e.ofWriting = true)
    (he : w.Enabled (.stream e)) (hx : w.exec (.stream e) = .ok t) : t.Alive peer rp := by
  obtain ⟨he, hc⟩ := he
  obtain ⟨u, hu, hreact⟩ := (bind_eq_ok _ _ _).mp hx
  obtain ⟨hr, -⟩ := reads_keep h.reads e (StreamWorld.call_ne_read e he hw) hw hu
  have hnames : Numbered u.reads := by
    rw [(exec_calls hu).1, StreamEvent.startsRead_of_library hc, List.append_nil]
    exact h.readNames
  cases e with
  | writeReturns result => exact alive_writeReturns h result u he hu hr hnames hreact
  | runPosted f =>
    cases f with
    | postableRead => cases hw
    | postableTryWrite => exact alive_tryWrite h u he hu hr hnames hreact
  | write cb msg => cases hc
  | read cb => cases hw
  | readReturns r => cases hw
  | readReady => cases hw

/-- What the app makes of the end of its input: the pending read's callback is given the
error, the app is done, and nothing is left to happen. An error that is 0 fails an
assertion of the message reader. -/
theorem echo_ends (h : w.Alive peer rp) (hcall : w.world.call = .read) (cb : ℕ)
    (hcb : w.world.stream.readCb = some cb) (r : TcpReadResult) (errno : ℤ)
    (hr : r = .eof errno ∨ r = .failed errno) :
    (errno = 0 ∧ w.exec (.stream (.readReturns r)) =
      .error (.assertion "IOBuffer_data_len(msg_stream_ref->input_buffer) != 0")) ∨
    (errno ≠ 0 ∧ ∃ t, w.exec (.stream (.readReturns r)) = .ok t ∧
      t.world.delivered = w.world.delivered ++ [⟨cb, none, errno⟩] ∧ t.done = [errno] ∧ t.Ended ∧
      t.world.written = w.world.written) := by
  obtain rfl := h.reads.call.mp hcall
  obtain ⟨hposted, hwrite⟩ := h.alone_reading nofun
  obtain ⟨htries, -⟩ := h.no_tries hwrite
  have hreads := h.reads.posted_zero nofun
  have hreturns := msgReadReturns_ends h.reads.stream hcb r errno hr
  by_cases hz : errno = 0
  · left
    rw [if_pos hz] at hreturns
    refine ⟨hz, ?_⟩
    simp only [EchoWorld.exec, StreamWorld.exec, hreturns, error_bind]
  · right
    rw [if_neg hz] at hreturns
    refine ⟨hz, ?_⟩
    simp only [EchoWorld.exec, StreamWorld.exec, hreturns, ok_bind, EchoWorld.react,
      StreamWorld.after, EchoWorld.msgReadCallback, ne_eq, hz, not_false_eq_true, if_true,
      EchoWorld.invokeDoneCallback, h.doneCb, h.done, List.nil_append]
    refine ⟨_, rfl, rfl, rfl, ?_, rfl⟩
    intro e he
    cases e with
    | postableRead => exact absurd he.2 (hposted ▸ Nat.lt_irrefl 0)
    | stream e =>
      obtain ⟨he, hc⟩ := he
      cases e with
      | read cb => cases hc
      | write cb msg => cases hc
      | readReturns r => cases StreamWorld.call_of_readReturns he
      | writeReturns r => cases StreamWorld.call_of_writeReturns he
      | readReady => cases he.2.1
      | runPosted f =>
        have hcount := List.count_pos_iff.mpr he.2
        cases f with
        | postableRead => exact absurd hcount (hreads ▸ Nat.lt_irrefl 0)
        | postableTryWrite => exact absurd hcount (htries ▸ Nat.lt_irrefl 0)

theorem StreamEvent.reading_or_ends (e : StreamEvent) (hw : ¬e.ofWriting = true) :
    e.Reading ∨ ∃ r errno, e = .readReturns r ∧ (r = .eof errno ∨ r = .failed errno) := by
  cases e with
  | readReturns r =>
    cases r with
    | bytes d => exact .inl trivial
    | eagain => exact .inl trivial
    | eof errno => exact .inr ⟨_, errno, rfl, .inl rfl⟩
    | failed errno => exact .inr ⟨_, errno, rfl, .inr rfl⟩
  | read cb => exact .inl (StreamEvent.reading_of_plain _ trivial hw)
  | readReady => exact .inl (StreamEvent.reading_of_plain _ trivial hw)
  | write cb msg => exact absurd rfl hw
  | writeReturns r => exact absurd rfl hw
  | runPosted f => exact .inl (StreamEvent.reading_of_plain _ trivial hw)

/-- What the app makes of a step of reading that does not end its input. -/
theorem alive_reading (h : w.Alive peer rp) (e : StreamEvent) (hr : e.Reading)
    (he : w.Enabled (.stream e)) (hx : w.exec (.stream e) = .ok t) : ∃ rp', t.Alive peer rp' := by
  obtain ⟨he, hc⟩ := he
  obtain ⟨hposted, hcb⟩ := h.alone_reading (h.reads.busy e hr hc he)
  obtain ⟨u, hu, hx⟩ := (bind_eq_ok _ _ _).mp hx
  obtain ⟨rp', hat, hstep, hkeep⟩ := reads_advance h.reads e hr he hu
  have hnames : Numbered u.reads := by
    rw [(exec_calls hu).1, StreamEvent.startsRead_of_library hc, List.append_nil]
    exact h.readNames
  rw [hposted] at hx
  exact alive_read h u rp' hcb hat hstep hkeep hnames hx

theorem alive_step (h : w.Alive peer rp) (e : EchoEvent) (he : w.Enabled e)
    (hx : w.exec e = .ok t) : (∃ rp', t.Alive peer rp') ∨ t.Ended := by
  cases e with
  | postableRead => exact .inl (alive_postableRead h he hx)
  | stream e =>
    by_cases hw : e.ofWriting = true
    · exact .inl ⟨rp, alive_write h e hw he hx⟩
    · rcases e.reading_or_ends hw with hr | ⟨r, errno, rfl, hr⟩
      · exact .inl (alive_reading h e hr he hx)
      · right
        have hcall := StreamWorld.call_of_readReturns he.1
        obtain rfl := h.reads.call.mp hcall
        obtain ⟨cb, hcb⟩ := h.reads.stream.readCb_some nofun
        rcases echo_ends h hcall cb hcb r errno hr with ⟨-, hfails⟩ | ⟨-, t', hx', -, -, hended, -⟩
        · cases hx.symm.trans hfails
        · obtain rfl := Except.ok.inj (hx.symm.trans hx')
          exact hended

/-- Without its memory in order the stream never gets to ask for a message. -/
theorem unread_step (h : w.Unread) (e : EchoEvent) (he : w.Enabled e) (hx : w.exec e = .ok t) :
    t.Unread := by
  cases e with
  | postableRead =>
    exfalso
    obtain ⟨u, hu, -⟩ := (bind_eq_ok _ _ _).mp hx
    obtain ⟨r, hread, -⟩ := (bind_eq_ok _ _ _).mp hu
    rw [msgStreamRead, cAssert_bind_eq_ok] at hread
    obtain ⟨iob, -, hread⟩ := (bind_eq_ok _ _ _).mp hread.2
    simp only [h.list, msgTryRead] at hread
    obtain ⟨⟨tcp, reading⟩, htcp, -⟩ := (bind_eq_ok _ _ _).mp hread
    obtain ⟨⟨hbuf, hcb⟩, -⟩ := tcpRead_inv htcp
    rcases h.set with hset | hset
    · cases hbuf.symm.trans hset
    · cases hcb.symm.trans hset
  | stream e =>
    obtain ⟨he, hc⟩ := he
    obtain ⟨u, hu, hx⟩ := (bind_eq_ok _ _ _).mp hx
    cases e with
    | read cb => cases hc
    | write cb msg => cases hc
    | writeReturns result => exact absurd (StreamWorld.call_of_writeReturns he) h.call
    | runPosted f =>
      have hmem := he.2
      rw [h.posted] at hmem
      cases hmem
    | readReturns result =>
      simp only [StreamWorld.exec, msgReadReturns, h.buffer, error_bind, reduceCtorEq] at hu
    | readReady =>
      obtain ⟨r, hready, hu⟩ := (bind_eq_ok _ _ _).mp hu
      obtain ⟨⟨tcp, reading⟩, htcp, hready⟩ := (bind_eq_ok _ _ _).mp hready
      obtain ⟨state, rfl⟩ := readReadyCallback_inv htcp
      obtain rfl := Except.ok.inj hready
      obtain rfl := Except.ok.inj hu
      cases reading with
      | false =>
        obtain rfl := Except.ok.inj hx
        exact ⟨h.set, h.buffer, h.list, h.cb, h.posted, by rintro ⟨⟩⟩
      | true =>
        obtain rfl := Except.ok.inj hx
        exact ⟨h.set, h.buffer, h.list, h.cb, h.posted, by rintro ⟨⟩⟩

end alive

/-- Where a run of the app can be. -/
def EchoWorld.Reachable (w : EchoWorld) (peer : Bytes) : Prop :=
  (∃ rp, w.Alive peer rp) ∨ w.Ended ∨ w.Unread

theorem echoAppRun_reachable (malloced : TcpStream) (m : MsgStream ℕ)
    (hinit : msgStreamInit ℕ malloced = .ok m) (peer : Bytes) :
    (echoAppRun m peer).Reachable peer := by
  by_cases hset : malloced.reader.inputBuffer = true ∨ malloced.reader.readCb = true
  · right; right
    obtain ⟨mp, -, hinit⟩ := (bind_eq_ok _ _ _).mp hinit
    obtain rfl := Except.ok.inj hinit
    exact ⟨hset, rfl, rfl, rfl, rfl, nofun⟩
  · left
    rw [not_or, Bool.not_eq_true, Bool.not_eq_true] at hset
    have hreads := streamWorld_init malloced hset.1 hset.2 m hinit peer
    obtain ⟨mp, -, hinit⟩ := (bind_eq_ok _ _ _).mp hinit
    obtain rfl := Except.ok.inj hinit
    exact ⟨.idle, hreads, rfl, le_rfl, rfl, rfl, nofun⟩

theorem echo_reachable (malloced : TcpStream) (m : MsgStream ℕ)
    (hinit : msgStreamInit ℕ malloced = .ok m) (peer : Bytes) (es : List EchoEvent) (w : EchoWorld)
    (h : echoMachine.Run (echoAppRun m peer) es w) : w.Reachable peer := by
  refine h.keeps (I := fun w => w.Reachable peer) ?_
    (echoAppRun_reachable malloced m hinit peer)
  rintro u e v (⟨rp, halive⟩ | hended | hunread) he hx
  · rcases alive_step halive e he hx with hv | hv
    · exact .inl hv
    · exact .inr (.inl hv)
  · exact absurd he (hended e)
  · exact .inr (.inr (unread_step hunread e he hx))

/-- The end of the connection, reported by the step from `w` to `t`: the callback `cb`, not
called before, is given no message and an error, the done callback is called, and neither
is called again. -/
structure EchoWorld.EndReported (w t : EchoWorld) (cb : ℕ) (error : ℤ) : Prop where
  error_ne : error ≠ 0
  first : cb ∉ w.world.delivered.map Delivery.cb
  delivered : t.world.delivered = w.world.delivered ++ [⟨cb, none, error⟩]
  done : w.done = [] ∧ t.done = [error]
  last : ∀ es u, echoMachine.Run t es u → u.world.delivered = t.world.delivered ∧ u.done = t.done

theorem EchoWorld.Ended.run_eq {t u : EchoWorld} (h : t.Ended) (es : List EchoEvent)
    (hrun : echoMachine.Run t es u) : u = t := by
  cases hrun with
  | nil => rfl
  | cons he hx _ => exact absurd he (h _)

/-- When `read` finds the end of the input, or fails, the end is reported up to the app
exactly when the `errno` it leaves is not 0. -/
theorem echo_end_reported_iff (malloced : TcpStream) (m : MsgStream ℕ)
    (hinit : msgStreamInit ℕ malloced = .ok m) (peer : Bytes) (es : List EchoEvent) (w : EchoWorld)
    (h : echoMachine.Run (echoAppRun m peer) es w) (cb : ℕ)
    (hcb : w.world.stream.readCb = some cb) (hcall : w.world.call = .read) (r : TcpReadResult)
    (errno : ℤ) (hr : r = .eof errno ∨ (r = .failed errno ∧ errno ≠ 0)) :
    (∃ t error, w.exec (.stream (.readReturns r)) = .ok t ∧ w.EndReported t cb error) ↔
      errno ≠ 0 := by
  obtain ⟨rp, halive⟩ : ∃ rp, w.Alive peer rp := by
    rcases echo_reachable malloced m hinit peer es w h with halive | hended | hunread
    · exact halive
    · exact absurd (show w.Enabled (.stream (.readReturns .eagain)) from ⟨hcall, rfl⟩) (hended _)
    · cases hunread.cb.symm.trans hcb
  have hfirst : cb ∉ w.world.delivered.map Delivery.cb := by
    have hnd := halive.reads.history.nodup
    rw [halive.reads.history.reads, hcb, Option.toList_some] at hnd
    exact List.disjoint_right.mp (List.disjoint_of_nodup_append hnd) (List.mem_singleton.mpr rfl)
  rcases echo_ends halive hcall cb hcb r errno (hr.imp_right And.left) with
    ⟨hz, hfails⟩ | ⟨hne, t, hx, hdelivered, hdone, hended, -⟩
  · refine iff_of_false ?_ (not_not_intro hz)
    rintro ⟨t, error, hx, -⟩
    cases hx.symm.trans hfails
  · refine iff_of_true ⟨t, errno, hx, hne, hfirst, hdelivered, ⟨halive.done, hdone⟩, ?_⟩ hne
    intro es' u hrun
    rw [hended.run_eq es' hrun]
    exact ⟨rfl, rfl⟩

/-- The peer resets the connection after part of a line. -/
theorem echo_end_reported_reset :
    ∃ m w, msgStreamInit ℕ ⟨⟨.ready, false, false⟩, ⟨.ready, false, false⟩⟩ = .ok m ∧
      echoMachine.Run (echoAppRun m [104, 105]) [.postableRead,
        .stream (.readReturns (.bytes [104, 105])), .stream (.runPosted .postableRead)] w ∧
      ∃ t error, w.exec (.stream (.readReturns (.failed 104))) = .ok t ∧
        w.EndReported t 0 error := by
  have hrun : ∃ w, echoMachine.Run (echoAppRun
        ⟨⟨⟨.initial, false, false⟩, ⟨.initial, false, false⟩⟩,
          ⟨⟨⟨List.replicate 4097 none, 4096, 0, 0⟩⟩⟩, none, none, [], none, none⟩ [104, 105])
      [.postableRead, .stream (.readReturns (.bytes [104, 105])),
        .stream (.runPosted .postableRead)] w ∧
      w.world.stream.readCb = some 0 ∧ w.world.call = .read :=
    Machine.exists_run_of_replay _ (by decide +kernel)
  obtain ⟨w, hrun, hcb, hcall⟩ := hrun
  exact ⟨_, w, rfl, hrun, (echo_end_reported_iff ⟨⟨.ready, false, false⟩, ⟨.ready, false, false⟩⟩ _
    rfl _ _ w hrun 0 hcb hcall _ 104 (.inr ⟨rfl, by decide⟩)).mpr (by decide)⟩

/-- The peer closes the connection at once, and no call has failed before. -/
theorem echo_end_asserts :
    ∃ m w, msgStreamInit ℕ ⟨⟨.ready, false, false⟩, ⟨.ready, false, false⟩⟩ = .ok m ∧
      echoMachine.Run (echoAppRun m []) [.postableRead] w ∧
      w.world.stream.readCb = some 0 ∧ w.world.call = .read ∧
      w.exec (.stream (.readReturns (.eof 0))) =
        .error (.assertion "IOBuffer_data_len(msg_stream_ref->input_buffer) != 0") := by
  have hrun : ∃ w, echoMachine.Run (echoAppRun
        ⟨⟨⟨.initial, false, false⟩, ⟨.initial, false, false⟩⟩,
          ⟨⟨⟨List.replicate 4097 none, 4096, 0, 0⟩⟩⟩, none, none, [], none, none⟩ [])
      [.postableRead] w ∧ w.world.stream.readCb = some 0 ∧ w.world.call = .read ∧
      w.exec (.stream (.readReturns (.eof 0))) =
        .error (.assertion "IOBuffer_data_len(msg_stream_ref->input_buffer) != 0") :=
    Machine.exists_run_of_replay _ (by decide +kernel)
  obtain ⟨w, hrun, hend⟩ := hrun
  exact ⟨_, w, rfl, hrun, hend⟩

end CHttp
