import CHttp.TcpWorld

/-! Reads of a `TcpStream` and the readiness events that its read filter reports. -/
namespace CHttp

/-- A `tcp_read` whose callback has not been called. -/
def TcpWorld.ReadPending (w : TcpWorld) : Prop := ∃ i ∈ w.reads, i ∉ w.delivered

instance (w : TcpWorld) : Decidable w.ReadPending :=
  inferInstanceAs (Decidable (∃ i ∈ w.reads, i ∉ w.delivered))

/-- The reader's pointers are set exactly while a `tcp_read` is pending, and no callback was
called twice. -/
structure TcpWorld.ReadsOnce (w : TcpWorld) : Prop where
  inputBuffer : w.stream.reader.inputBuffer = true ↔ w.ReadPending
  readCb : w.stream.reader.readCb = true ↔ w.ReadPending
  once : w.delivered.Nodup

/-- Calls of `tcp_read`, results of `read`, and readiness events. -/
def TcpEvent.OfReads : TcpEvent → Prop
  | .read _ _ | .readReturns _ | .readReady => True
  | .write _ _ | .writeReturns _ | .runPosted | .writeReady => False

/-- A readiness event finds a `tcp_read` pending. -/
def TcpEvent.Awaited (w : TcpWorld) : TcpEvent → Prop
  | .readReady => w.ReadPending
  | _ => True

instance (w : TcpWorld) (e : TcpEvent) : Decidable (e.Awaited w) :=
  match e with
  | .readReady => inferInstanceAs (Decidable w.ReadPending)
  | .read _ _ | .write _ _ | .readReturns _ | .writeReturns _ | .runPosted | .writeReady =>
    inferInstanceAs (Decidable True)

/-- No `tcp_read` is pending. -/
structure TcpWorld.Idle (w : TcpWorld) : Prop where
  inputBuffer : w.stream.reader.inputBuffer = false
  readCb : w.stream.reader.readCb = false
  delivered : w.reads = w.delivered
  call : w.call ≠ .read

/-- The last `tcp_read` is pending. -/
structure TcpWorld.Awaits (w : TcpWorld) : Prop where
  inputBuffer : w.stream.reader.inputBuffer = true
  readCb : w.stream.reader.readCb = true
  delivered : ∃ i, w.reads = w.delivered ++ [i]
  input : ∃ iob, w.input = some iob ∧ iob.WellFormed

structure TcpWorld.Reads (w : TcpWorld) : Prop where
  live : w.stream.reader.readState.live = true
  names : w.reads.Nodup
  phase : w.Idle ∨ w.Awaits

theorem TcpWorld.Idle.not_pending {w : TcpWorld} (h : w.Idle) : ¬w.ReadPending := by
  rintro ⟨i, hi, hd⟩
  exact hd (h.delivered ▸ hi)

theorem TcpWorld.Awaits.pending {w : TcpWorld} (h : w.Awaits) (hn : w.reads.Nodup) :
    w.ReadPending := by
  obtain ⟨i, hi⟩ := h.delivered
  rw [hi] at hn
  refine ⟨i, by rw [hi]; exact List.mem_append_right _ List.mem_cons_self, fun hmem => ?_⟩
  exact List.disjoint_of_nodup_append hn hmem List.mem_cons_self

theorem TcpWorld.Reads.once {w : TcpWorld} (h : w.Reads) : w.ReadsOnce := by
  have hn := h.names
  rcases h.phase with hi | ha
  · have hp := hi.not_pending
    refine ⟨iff_of_false (by rw [hi.inputBuffer]; exact Bool.false_ne_true) hp,
      iff_of_false (by rw [hi.readCb]; exact Bool.false_ne_true) hp, ?_⟩
    rw [← hi.delivered]
    exact hn
  · have hp := ha.pending hn
    refine ⟨iff_of_true ha.inputBuffer hp, iff_of_true ha.readCb hp, ?_⟩
    obtain ⟨i, hi⟩ := ha.delivered
    rw [hi] at hn
    exact hn.of_append_left

/-- Bytes read into a buffer with room for them. -/
theorem iobufferFillSpace_wellFormed (iob : IOBuffer) (d : Bytes) (h : iob.WellFormed) (hne : d ≠ [])
    (hroom : (d.length : ℤ) ≤ iobufferSpaceLen iob) :
    ∃ filled iob', iobufferFillSpace iob (d.map some) = .ok filled ∧
      iobufferCommit filled d.length = .ok iob' ∧ iob'.WellFormed := by
  obtain ⟨c, hq⟩ := h.queues
  rw [hq.space] at hroom
  obtain ⟨filled, hfill, hq', hptr, -⟩ := iobufferFillSpace_spec iob c (iobufferData iob)
    (d.map some) hq (by rw [List.length_map]; omega)
  obtain ⟨iob', hcommit, hlen, hcap, hptr', hrem, -⟩ := iobufferCommit_spec filled c d.length
    (iobufferData iob) hq' (List.length_pos_iff.mpr hne) (by omega)
  refine ⟨filled, iob', hfill, hcommit, ?_, ?_⟩
  · rw [hlen, hcap]
    exact Nat.cast_succ c
  · rw [hcap, hptr', hrem, hptr]
    exact_mod_cast (by omega)

/-- `try_read` after `read`: EAGAIN leaves the read pending, anything else completes it. -/
theorem tcpReadReturns_reader (tcp : TcpStream) (iob : IOBuffer) (result : TcpReadResult)
    (hlive : tcp.reader.readState.live = true) (hcb : tcp.reader.readCb = true) (h : iob.WellFormed)
    (hroom : ∀ d, result = .bytes d → d ≠ [] ∧ (d.length : ℤ) ≤ iobufferSpaceLen iob) :
    ∃ tcp' iob' called, tcpReadReturns tcp iob result = .ok (tcp', iob', called) ∧
      iob'.WellFormed ∧ tcp'.reader.readState.live = true ∧
      match called with
      | none => tcp'.reader.inputBuffer = tcp.reader.inputBuffer ∧ tcp'.reader.readCb = true
      | some _ => tcp'.reader.inputBuffer = false ∧ tcp'.reader.readCb = false := by
  cases result with
  | bytes d =>
    obtain ⟨hne, hlen⟩ := hroom d rfl
    obtain ⟨filled, iob', hfill, hcommit, hwf⟩ := iobufferFillSpace_wellFormed iob d h hne hlen
    refine ⟨{ tcp with reader := ⟨.ready, false, false⟩ }, iob', some 0, ?_, hwf, rfl, rfl, rfl⟩
    simp only [tcpReadReturns, hfill, ok_bind, hcommit, invokeReadCb, hcb, cAssert_true]
  | eof errno | failed errno =>
    refine ⟨{ tcp with reader := { tcp.reader with inputBuffer := false, readCb := false } }, iob,
      some errno, ?_, h, hlive, rfl, rfl⟩
    simp only [tcpReadReturns, invokeReadCb, hcb, cAssert_true, ok_bind]
  | eagain =>
    exact ⟨{ tcp with reader := { tcp.reader with readState := .eagain } }, iob, none, rfl, h, rfl,
      rfl, hcb⟩

/-- A readiness event with no read pending fails the assertion of `try_read`. -/
theorem readReadyCallback_idle (tcp : TcpStream) (hb : tcp.reader.inputBuffer = false)
    (hl : tcp.reader.readState.live = true) :
    readReadyCallback tcp = .error (.assertion "iob != NULL") := by
  rcases (TcpReadState.live_iff _).mp hl with hs | hs | hs
  · simp only [readReadyCallback, hs, tcpTryRead, hb, cAssert_false, error_bind]
  · simp only [readReadyCallback, hs, tcpTryRead, hb, cAssert_false, error_bind]
  · simp only [readReadyCallback, hs, tcpTryRead, hb, cAssert_false, error_bind]

/-- `read` has returned to a pending `tcp_read`. -/
theorem readReturned_reads (w : TcpWorld) (h : w.Reads) (ha : w.Awaits) (result : TcpReadResult)
    (hroom : ∀ d, result = .bytes d → d ≠ [] ∧ (d.length : ℤ) ≤ w.room) :
    ∃ t, w.exec (.readReturns result) = .ok t ∧ t.Reads := by
  obtain ⟨iob, hinput, hwf⟩ := ha.input
  obtain ⟨i, hreads⟩ := ha.delivered
  have hspace : w.room = iobufferSpaceLen iob := by rw [TcpWorld.room, hinput]; rfl
  rw [hspace] at hroom
  obtain ⟨tcp', iob', called, hreturns, hwf', hlive, hcalled⟩ := tcpReadReturns_reader w.stream iob
    result h.live ha.readCb hwf hroom
  refine ⟨w.readReturned (tcp', iob', called), ?_, ?_⟩
  · simp only [TcpWorld.exec, hinput, hreturns, ok_bind]
  · cases called with
    | none =>
      exact ⟨hlive, h.names, .inr ⟨hcalled.1.trans ha.inputBuffer, hcalled.2, ⟨i, hreads⟩, iob', rfl, hwf'⟩⟩
    | some error =>
      refine ⟨hlive, h.names, .inl ⟨hcalled.1, hcalled.2, ?_, by rintro ⟨⟩⟩⟩
      show w.reads = w.delivered ++ w.reads.getLast?.toList
      rw [hreads, List.getLast?_concat]
      rfl

/-- What a step does to the reads: a readiness event that nothing waits for fails, and
everything else goes through. -/
theorem tcpReads_step (w : TcpWorld) (h : w.Reads) (e : TcpEvent) (hof : e.OfReads) (he : w.Enabled e) :
    OkIff (w.exec e) TcpWorld.Reads (e.Awaited w) := by
  cases e with
  | read cb iob =>
    obtain ⟨-, hall, hfresh, hwf, hspace⟩ := he
    have hidle : w.Idle := by
      rcases h.phase with hi | ha
      · exact hi
      · obtain ⟨i, hi, hd⟩ := ha.pending h.names
        exact absurd (hall i hi) hd
    have hread := tcpRead_reads w.stream iob hidle.inputBuffer hidle.readCb h.live hspace.ne'
    have hx : w.exec (.read cb iob) = .ok { w with
        stream := { w.stream with
          reader := { w.stream.reader with inputBuffer := true, readCb := true } }
        input := some iob
        reads := w.reads ++ [cb]
        call := .read } := by
      rw [TcpWorld.exec, hread, ok_bind]
      rfl
    refine .of_ok hx ⟨h.live, nodup_snoc h.names hfresh, .inr ?_⟩ trivial
    exact ⟨rfl, rfl, ⟨cb, congrArg (· ++ [cb]) hidle.delivered⟩, iob, rfl, hwf⟩
  | readReturns result =>
    have hcall := w.call_of_readReturns he
    rcases h.phase with hi | ha
    · exact absurd hcall hi.call
    · have hroom : ∀ d, result = .bytes d → d ≠ [] ∧ (d.length : ℤ) ≤ w.room := by
        rintro d rfl
        exact he.2
      obtain ⟨t, hx, ht⟩ := readReturned_reads w h ha result hroom
      exact .of_ok hx ht trivial
  | readReady =>
    rcases h.phase with hi | ha
    · have hx : w.exec .readReady = .error (.assertion "iob != NULL") := by
        rw [TcpWorld.exec, readReadyCallback_idle w.stream hi.inputBuffer h.live, error_bind]
      exact .of_error hx hi.not_pending
    · have hready := readReadyCallback_reads w.stream ha.inputBuffer h.live
      have hx : w.exec .readReady = .ok { w with
          stream := { w.stream with reader := { w.stream.reader with readState := .ready } }
          call := .read } := by
        rw [TcpWorld.exec, hready, ok_bind]
        rfl
      refine .of_ok hx ⟨rfl, h.names, .inr ?_⟩ (ha.pending h.names)
      exact ⟨ha.inputBuffer, ha.readCb, ha.delivered, ha.input⟩
  | write | writeReturns | runPosted | writeReady => exact hof.elim

/-- Reads, results and readiness events, each one possible where those before it lead, go
through with the reader's pointers set exactly while a read is pending and each callback called
at most once, exactly when both pointers were NULL in the stream's memory and every readiness
event finds a read pending. -/
theorem tcp_reads_tolerant_iff (malloced : TcpStream) (es : List TcpEvent)
    (hes : ∀ e ∈ es, e.OfReads) :
    tcpMachine.Performs TcpWorld.ReadsOnce (tcpStreamNew malloced) es ↔
      (malloced.reader.inputBuffer = false ∧ malloced.reader.readCb = false) ∧
        Machine.Admits tcpMachine.next (fun w e => w.Enabled e ∧ e.Awaited w)
          (tcpStreamNew malloced) es := by
  by_cases hidle : malloced.reader.inputBuffer = false ∧ malloced.reader.readCb = false
  · have hreads : (tcpStreamNew malloced).Reads :=
      ⟨rfl, List.nodup_nil, .inl ⟨hidle.1, hidle.2, rfl, nofun⟩⟩
    rw [and_iff_right hidle]
    refine Machine.performs_iff_admits_next (J := fun w es => w.Reads ∧ ∀ e ∈ es, e.OfReads)
      (fun w es h => h.1.once) ?_ _ es ⟨hreads, hes⟩
    rintro w e es ⟨h, hof⟩ he
    have hstep := tcpReads_step w h e (hof e List.mem_cons_self) he
    exact ⟨hstep.iff, fun t hx => ⟨hstep.result t hx, fun e' hmem => hof e' (List.mem_cons_of_mem _ hmem)⟩⟩
  · refine iff_of_false ?_ (fun hr => hidle hr.1)
    rintro ⟨w, -, halways⟩
    have hstart : (tcpStreamNew malloced).ReadsOnce := halways [] es _ rfl (.nil _)
    have hnone : ¬(tcpStreamNew malloced).ReadPending := by rintro ⟨i, hi, -⟩; cases hi
    exact hidle ⟨Bool.eq_false_of_not_eq_true (hstart.inputBuffer.not.mpr hnone),
      Bool.eq_false_of_not_eq_true (hstart.readCb.not.mpr hnone)⟩

/-- Room for four bytes. -/
def roomForFour : IOBuffer := ⟨[none, none, none, none, none], 4, 0, 0⟩

/-- A read that waits for its data. -/
theorem tcp_reads_after_wait :
    tcpMachine.Performs TcpWorld.ReadsOnce (tcpStreamNew zeroTcpStream)
      [.read 1 roomForFour, .readReturns .eagain, .readReady, .readReturns (.bytes [97, 98])] := by
  refine (tcp_reads_tolerant_iff zeroTcpStream _ ?_).mpr ⟨⟨rfl, rfl⟩, ?_⟩
  · simp [TcpEvent.OfReads]
  · decide

/-- More data is reported after the read has completed. -/
theorem tcp_reads_not_awaited :
    ∃ w, tcpMachine.Run (tcpStreamNew zeroTcpStream)
        [.read 1 roomForFour, .readReturns .eagain, .readReady, .readReturns (.bytes [97, 98])] w ∧
      w.Enabled .readReady ∧ w.exec .readReady = .error (.assertion "iob != NULL") :=
  Machine.exists_run_of_replay _ (by decide)

end CHttp
