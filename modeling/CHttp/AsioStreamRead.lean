import CHttp.AsioStream

/-! Reads on an `AsioStream` over whole runs, whatever the user's callbacks do. -/
namespace CHttp

/-- Control is in `try_read`, between the call of `read` and its return. -/
def AsioControl.reading : AsioControl → Bool
  | .inRead _ _ _ => true
  | _ => false

/-- The user's callbacks that have not returned. -/
def AsioControl.running : AsioControl → List AsioCallback
  | .user running _ => running
  | .inRead _ running _ => running
  | .inWrite running _ => running
  | .atEpollin => []
  | .atEpollout => []

@[simp] theorem leave_reading (running : List AsioCallback) (handling : Bool) :
    (AsioControl.leave running handling).reading = false := by
  unfold AsioControl.leave
  split_ifs <;> rfl

@[simp] theorem leave_running (running : List AsioCallback) (handling : Bool) :
    (AsioControl.leave running handling).running = running := by
  unfold AsioControl.leave
  split_ifs with h
  · exact h.1.symm
  · rfl

/-- The `i`-th read waits for the descriptor, with its own callback and argument. -/
structure AsioStream.ReadWaiting (cref : AsioStream) (i : ℕ) : Prop where
  state : cref.readState = .eagain
  callback : cref.readCallback = some i
  arg : cref.readCallbackArg = some (.read i)
  armed : cref.runloopStream.epollin = true ∧ cref.runloopStream.readPostableCb = true

def AsioEvent.isRead : AsioEvent → Bool
  | .callRead _ _ | .readReturns _ => true
  | _ => false

/-- Reads complete as issued: each callback at most once and with its own argument, a
read still outstanding outside `try_read` waits, none outstanding means that the stream
is idle, and neither `asio_stream_read` nor `try_read` fails. -/
structure AsioWorld.ReadSound (w : AsioWorld) : Prop where
  once : (w.readCalls.map AsioCall.call).Nodup
  own : ∀ c ∈ w.readCalls, c.arg = some (.read c.call)
  pending : ∀ i, w.outstandingRead = some i → w.control.reading = false → w.asio.ReadWaiting i
  idle : w.outstandingRead = none → w.asio.readState = .idle
  returns : ∀ e : AsioEvent, e.isRead = true → w.Enabled e → ∃ t, w.exec e = .ok t

/-- When an event leaves reads as they should be: `read` gives data or EAGAIN, a read
callback does not return while the read it issued is waiting, and the write side meets
EAGAIN, or is told of EPOLLOUT while waiting, only when a read is outstanding. -/
def AsioEvent.ReadSafe (w : AsioWorld) : AsioEvent → Prop
  | .readReturns r => r.positive = true ∨ r = .eagain
  | .writeReturns r => r = .eagain → w.outstandingRead ≠ none
  | .ret => (∃ running handling, w.control = .user (.read :: running) handling) →
      w.outstandingRead = none
  | .handler => w.control = .atEpollout → w.asio.Misdirected → w.outstandingRead ≠ none
  | _ => True

/-- What else is known of the reads as long as they are sound. -/
structure AsioWorld.ReadKnown (w : AsioWorld) : Prop where
  fresh : ∀ c ∈ w.readCalls, c.call < w.reads
  issued : ∀ i, w.outstandingRead = some i → i < w.reads ∧ i ∉ w.readCalls.map AsioCall.call
  reading : w.control.reading = true → w.asio.readState ≠ .idle ∧
    ∃ i, w.outstandingRead = some i ∧ w.asio.readCallback = some i ∧
      w.asio.readCallbackArg = some (.read i)
  stale : w.outstandingRead = none → w.asio.readCallback ≠ none → .read ∈ w.control.running

/-- Reading cannot fail if an idle stream says so and a callback is there to be called. -/
theorem read_returns (w : AsioWorld) (hidle : w.outstandingRead = none → w.asio.readState = .idle)
    (hcb : w.control.reading = true → w.asio.readCallback ≠ none) (e : AsioEvent)
    (her : e.isRead = true) (he : w.Enabled e) : ∃ t, w.exec e = .ok t := by
  cases e with
  | callRead buffer maxLength =>
    obtain ⟨⟨running, handling, hc⟩, ho, hb, hl⟩ := he
    exact ⟨_, by simp only [AsioWorld.exec, hc, asioStreamRead, hidle ho, hb, hl, decide_true,
      cAssert_true, ok_bind]; rfl⟩
  | readReturns r =>
    obtain ⟨path, running, handling, hc⟩ := he
    obtain ⟨i, hi⟩ := Option.ne_none_iff_exists'.mp (hcb (by rw [hc]; rfl))
    by_cases hr : r = .eagain
    · exact ⟨_, by simp only [AsioWorld.exec, hc, hr, asioTryRead, ok_bind]; rfl⟩
    · obtain ⟨count, status, heq⟩ := asioTryRead_eq w.asio r hr
      exact ⟨_, by simp only [AsioWorld.exec, hc, heq, hi, callThrough, ok_bind]; rfl⟩
  | callWrite => cases her
  | writeReturns => cases her
  | ret => cases her
  | ready => cases her
  | handler => cases her

/-- In `try_read` data may come, and it needs a callback. -/
theorem AsioWorld.ReadSound.callback {w : AsioWorld} (h : w.ReadSound)
    (hr : w.control.reading = true) : w.asio.readCallback ≠ none := by
  intro hnone
  cases hc : w.control with
  | inRead path running handling =>
    obtain ⟨t, hx⟩ := h.returns (.readReturns (.count 1)) rfl ⟨path, running, handling, hc⟩
    simp [AsioWorld.exec, hc, asioTryRead, callThrough, hnone] at hx
  | user => rw [hc] at hr; cases hr
  | inWrite => rw [hc] at hr; cases hr
  | atEpollin => rw [hc] at hr; cases hr
  | atEpollout => rw [hc] at hr; cases hr

/-- The fields that reads depend on. -/
structure AsioReadView where
  readState : AsioReadState
  readCallback : Option ℕ
  readCallbackArg : Option AsioArg
  epollin : Bool
  readPostableCb : Bool
  reads : ℕ
  outstandingRead : Option ℕ
  readCalls : List AsioCall

def AsioWorld.readView (w : AsioWorld) : AsioReadView :=
  ⟨w.asio.readState, w.asio.readCallback, w.asio.readCallbackArg, w.asio.runloopStream.epollin,
    w.asio.runloopStream.readPostableCb, w.reads, w.outstandingRead, w.readCalls⟩

/-- A step outside `try_read` that keeps those fields keeps everything about reads. -/
theorem AsioWorld.ReadSound.frame {w t : AsioWorld} (hp : w.ReadSound) (hj : w.ReadKnown)
    (hv : t.readView = w.readView) (hw : w.control.reading = false)
    (ht : t.control.reading = false)
    (hrun : .read ∈ w.control.running → .read ∈ t.control.running) :
    t.ReadSound ∧ t.ReadKnown := by
  simp only [AsioWorld.readView, AsioReadView.mk.injEq] at hv
  obtain ⟨hstate, hcb, harg, hin, hpost, hreads, ho, hcalls⟩ := hv
  have hidle : t.outstandingRead = none → t.asio.readState = .idle := by
    rw [ho, hstate]
    exact hp.idle
  have hnot : t.control.reading ≠ true := by rw [ht]; decide
  refine ⟨⟨by rw [hcalls]; exact hp.once, by rw [hcalls]; exact hp.own, ?_, hidle,
    read_returns t hidle fun hr => absurd hr hnot⟩, ?_, ?_, fun hr => absurd hr hnot, ?_⟩
  · intro i hi _
    obtain ⟨h1, h2, h3, h4⟩ := hp.pending i (ho ▸ hi) hw
    exact ⟨by rw [hstate, h1], by rw [hcb, h2], by rw [harg, h3], by rw [hin, hpost]; exact h4⟩
  · rw [hcalls, hreads]
    exact hj.fresh
  · rw [ho, hcalls, hreads]
    exact hj.issued
  · rw [ho, hcb]
    exact fun hn hc => hrun (hj.stale hn hc)

section step

variable {w t : AsioWorld}

/-- A read enters `try_read` with its own callback and argument. -/
theorem readSound_enter (hp : w.ReadSound) (hj : w.ReadKnown) (i : ℕ)
    (hcalls : t.readCalls = w.readCalls) (hreads : w.reads ≤ t.reads)
    (hin : t.control.reading = true) (hs : t.asio.readState ≠ .idle)
    (ho : t.outstandingRead = some i) (hcb : t.asio.readCallback = some i)
    (harg : t.asio.readCallbackArg = some (.read i)) (hi : i < t.reads)
    (hnew : i ∉ w.readCalls.map AsioCall.call) : t.ReadSound ∧ t.ReadKnown := by
  have hsome : t.outstandingRead ≠ none := by rw [ho]; simp
  refine ⟨⟨by rw [hcalls]; exact hp.once, by rw [hcalls]; exact hp.own, ?_,
    fun hn => absurd hn hsome, ?_⟩, ?_, ?_, fun _ => ⟨hs, i, ho, hcb, harg⟩,
    fun hn => absurd hn hsome⟩
  · intro j _ hr
    rw [hin] at hr
    cases hr
  · exact read_returns t (fun hn => absurd hn hsome) (fun _ => by rw [hcb]; simp)
  · intro c hc
    rw [hcalls] at hc
    exact (hj.fresh c hc).trans_le hreads
  · intro j hj'
    obtain rfl := Option.some.inj (ho.symm.trans hj')
    exact ⟨hi, by rwa [hcalls]⟩

/-- A step that keeps the history of reads and leaves `i` waiting. -/
theorem readSound_wait (hp : w.ReadSound) (hj : w.ReadKnown) (i : ℕ)
    (hcalls : t.readCalls = w.readCalls) (hreads : t.reads = w.reads)
    (hout : t.control.reading = false) (hw : w.outstandingRead = some i)
    (ho : t.outstandingRead = some i) (hwait : t.asio.ReadWaiting i) :
    t.ReadSound ∧ t.ReadKnown := by
  have hsome : t.outstandingRead ≠ none := by rw [ho]; simp
  have hnot : t.control.reading ≠ true := by rw [hout]; decide
  refine ⟨⟨by rw [hcalls]; exact hp.once, by rw [hcalls]; exact hp.own, ?_,
    fun hn => absurd hn hsome, read_returns t (fun hn => absurd hn hsome) fun hr => absurd hr hnot⟩,
    by rw [hcalls, hreads]; exact hj.fresh, by rw [ho, ← hw, hcalls, hreads]; exact hj.issued,
    fun hr => absurd hr hnot, fun hn => absurd hn hsome⟩
  intro j hj' _
  obtain rfl := Option.some.inj (ho.symm.trans hj')
  exact hwait

/-- A waiting read goes back into `try_read`, whatever becomes of its arming. -/
theorem readSound_resume (hp : w.ReadSound) (hj : w.ReadKnown) (i : ℕ)
    (hv : t.readView = { w.readView with
      epollin := t.asio.runloopStream.epollin
      readPostableCb := t.asio.runloopStream.readPostableCb })
    (hw : w.control.reading = false) (ht : t.control.reading = true) (ho : w.outstandingRead = some i) :
    t.ReadSound ∧ t.ReadKnown := by
  simp only [AsioWorld.readView, AsioReadView.mk.injEq] at hv
  obtain ⟨hstate, hcb, harg, -, -, hreads, hout, hcalls⟩ := hv
  have hwait := hp.pending i ho hw
  obtain ⟨hlt, hnew⟩ := hj.issued i ho
  refine readSound_enter hp hj i hcalls hreads.ge ht ?_ (hout.trans ho) (hcb.trans hwait.callback)
    (harg.trans hwait.arg) (hreads ▸ hlt) hnew
  rw [hstate, hwait.state]
  decide

/-- The read callback returns and is cleared: with a read outstanding again, its callback is
lost. -/
theorem readSound_retRead (hp : w.ReadSound) (hj : w.ReadKnown)
    (hv : t.readView = { w.readView with readCallback := none })
    (ht : t.control.reading = false) :
    Machine.HoldsIff AsioWorld.ReadSound AsioWorld.ReadKnown t (w.outstandingRead = none) := by
  simp only [AsioWorld.readView, AsioReadView.mk.injEq] at hv
  obtain ⟨hstate, hcb, -, -, -, hreads, hout, hcalls⟩ := hv
  have hnot : t.control.reading ≠ true := by rw [ht]; decide
  rcases Option.eq_none_or_eq_some w.outstandingRead with ho | ⟨i, ho⟩
  · have hnone : t.outstandingRead = none := hout.trans ho
    have hidle : t.outstandingRead = none → t.asio.readState = .idle :=
      fun _ => hstate.trans (hp.idle ho)
    refine .of_holds ⟨⟨by rw [hcalls]; exact hp.once, by rw [hcalls]; exact hp.own, ?_, hidle,
      read_returns t hidle fun hr => absurd hr hnot⟩, by rw [hcalls, hreads]; exact hj.fresh, ?_,
      fun hr => absurd hr hnot, fun _ hsome => absurd hcb hsome⟩ ho
    · intro i hi
      cases hnone.symm.trans hi
    · intro i hi
      cases hnone.symm.trans hi
  · refine .of_not (fun hp' => ?_) (by rw [ho]; simp)
    cases hcb.symm.trans (hp'.pending i (hout.trans ho) ht).callback

theorem readSound_readCalls (hp : w.ReadSound) (hj : w.ReadKnown) (r : IoResult)
    (path : AsioPath) (running : List AsioCallback) (handling : Bool) (i : ℕ) (count status : ℤ)
    (hc : w.control = .inRead path running handling) (hi : w.asio.readCallback = some i)
    (ht : t = { w with
      asio := { w.asio with readState := if r.positive then .idle else w.asio.readState }
      control := .user (.read :: running) handling
      readCalls := w.readCalls ++ [⟨i, w.asio.readCallbackArg, count, status⟩]
      outstandingRead := if w.outstandingRead = some i then none else w.outstandingRead
      crossings := w.crossings ++ path.crosses .readCallbackCalled }) :
    Machine.HoldsIff AsioWorld.ReadSound AsioWorld.ReadKnown t (r.positive = true) := by
  obtain ⟨hs, j, ho, hcb, harg⟩ := hj.reading (by rw [hc]; rfl)
  obtain rfl := Option.some.inj (hi.symm.trans hcb)
  obtain ⟨hlt, hnew⟩ := hj.issued i ho
  have hnone : t.outstandingRead = none := by rw [ht]; exact if_pos ho
  have hcalls : t.readCalls = w.readCalls ++ [⟨i, some (.read i), count, status⟩] := by
    rw [ht, ← harg]
  have hnot : t.control.reading ≠ true := by rw [ht]; exact Bool.false_ne_true
  refine ⟨⟨fun hp' => ?_, fun hpos => ⟨?_, ?_, ?_, ?_, ?_⟩⟩, fun _ => ⟨?_, ?_, ?_, ?_⟩⟩
  · by_contra hpos
    have hidle := hp'.idle hnone
    rw [ht] at hidle
    exact hs (by simpa only [hpos, if_false, Bool.false_eq_true] using hidle)
  · rw [hcalls, List.map_append, List.map_singleton]
    exact nodup_snoc hp.once hnew
  · intro c hc'
    rw [hcalls, List.mem_append, List.mem_singleton] at hc'
    rcases hc' with hc' | rfl
    · exact hp.own c hc'
    · rfl
  · intro j hj'
    rw [hnone] at hj'
    cases hj'
  · intro _
    rw [ht]
    exact if_pos hpos
  · refine read_returns t (fun _ => ?_) fun hr => absurd hr hnot
    rw [ht]
    exact if_pos hpos
  · intro c hc'
    rw [hcalls, List.mem_append, List.mem_singleton] at hc'
    rw [ht]
    rcases hc' with hc' | rfl
    · exact hj.fresh c hc'
    · exact hlt
  · intro j hj'
    rw [hnone] at hj'
    cases hj'
  · exact fun hr => absurd hr hnot
  · intro _ _
    rw [ht]
    exact List.mem_cons_self

/-- One step from a state with sound reads: they stay sound exactly when it is safe. -/
theorem readSound_step (hp : w.ReadSound) (hj : w.ReadKnown) (e : AsioEvent) (h : AsioStep w e t) :
    Machine.HoldsIff AsioWorld.ReadSound AsioWorld.ReadKnown t (e.ReadSafe w) := by
  have notOut : w.control = .atEpollin → (AsioEvent.handler.ReadSafe w) := by
    intro hc hc'
    rw [hc] at hc'
    cases hc'
  cases h with
  | callRead buffer maxLength running handling hc ho hi =>
    refine .of_holds (readSound_enter hp hj w.reads rfl (Nat.le_succ _) rfl (by simp) rfl rfl rfl
      (Nat.lt_succ_self _) fun hmem => ?_) trivial
    obtain ⟨c, hc', hcall⟩ := List.mem_map.mp hmem
    exact absurd (hj.fresh c hc') (by omega)
  | callWrite buffer length running handling hc ho hi =>
    exact .of_holds (hp.frame hj rfl (by rw [hc]; rfl) rfl (by rw [hc]; exact id)) trivial
  | readEagain path running handling hc =>
    obtain ⟨hs, i, ho, hcb, harg⟩ := hj.reading (by rw [hc]; rfl)
    exact .of_holds (readSound_wait hp hj i rfl rfl (leave_reading _ _) ho ho
      ⟨rfl, hcb, harg, rfl, rfl⟩) (.inr rfl)
  | readCalls r path running handling i count status hc hr hi =>
    have hcalls := readSound_readCalls hp hj r path running handling i count status hc hi rfl
    exact hcalls.congr ⟨.inl, fun hor => hor.resolve_right hr⟩
  | writeEagain running handling hc =>
    rcases Option.eq_none_or_eq_some w.outstandingRead with ho | ⟨i, ho⟩
    · refine .of_not (fun hp' => ?_) (fun hsafe => hsafe rfl ho)
      exact absurd (hp'.idle ho) (by simp [writeEagain])
    · have hwait := hp.pending i ho (by rw [hc]; rfl)
      exact .of_holds (readSound_wait hp hj i rfl rfl (leave_reading _ _) ho ho
        ⟨rfl, hwait.callback, hwait.arg, hwait.armed⟩) (fun _ => by rw [ho]; simp)
  | writeCalls r running handling i count status hc hr hi =>
    exact .of_holds (hp.frame hj rfl (by rw [hc]; rfl) rfl
      (by rw [hc]; exact fun hm => List.mem_cons_of_mem _ hm)) fun he => absurd he hr
  | retRead running handling hc =>
    exact .congr (readSound_retRead hp hj rfl (leave_reading _ _))
      ⟨fun ho _ => ho, fun hsafe => hsafe ⟨running, handling, hc⟩⟩
  | retWrite running handling hc =>
    refine .of_holds (hp.frame hj rfl (by rw [hc]; rfl) (leave_reading _ _) ?_) ?_
    · rw [hc, leave_running]
      exact fun hm => List.mem_of_ne_of_mem (by decide) hm
    · rintro ⟨running', handling', hc'⟩
      rw [hc] at hc'
      cases hc'
  | ready writable hc =>
    exact .of_holds (hp.frame hj rfl (by rw [hc]; rfl) rfl (by rw [hc]; exact id)) trivial
  | epollinRead hc hs hcb =>
    rcases Option.eq_none_or_eq_some w.outstandingRead with ho | ⟨i, ho⟩
    · rw [hp.idle ho] at hs
      cases hs
    · exact .of_holds (readSound_resume hp hj i rfl (by rw [hc]; rfl) rfl ho) (notOut hc)
  | epollinReset hc hs hcb =>
    rcases Option.eq_none_or_eq_some w.outstandingRead with ho | ⟨i, ho⟩
    · rw [hp.idle ho] at hs
      cases hs
    · rw [(hp.pending i ho (by rw [hc]; rfl)).callback] at hcb
      cases hcb
  | epollinSkip hc =>
    exact .of_holds (hp.frame hj rfl (by rw [hc]; rfl) rfl (by rw [hc]; exact id)) (notOut hc)
  | epolloutRead hc hm =>
    rcases Option.eq_none_or_eq_some w.outstandingRead with ho | ⟨i, ho⟩
    · refine .of_not (fun hp' => ?_) (fun hsafe => hsafe hc hm ho)
      have hstale : w.asio.readCallback = none := by
        by_contra hcb
        have hmem := hj.stale ho hcb
        rw [hc] at hmem
        cases hmem
      exact hp'.callback rfl hstale
    · exact .of_holds (readSound_resume hp hj i rfl (by rw [hc]; rfl) rfl ho)
        fun _ _ => by rw [ho]; simp
  | epolloutReset hc hs hcb =>
    exact .of_holds (hp.frame hj rfl (by rw [hc]; rfl) rfl (by rw [hc]; exact id))
      fun _ hm => absurd hcb hm.2.2.2
  | epolloutSkip hc hm =>
    exact .of_holds (hp.frame hj rfl (by rw [hc]; rfl) rfl (by rw [hc]; exact id))
      fun _ hm' => absurd hm' hm

end step

theorem readSound_init (malloced : AsioStream) :
    (AsioWorld.init malloced).ReadSound ∧ (AsioWorld.init malloced).ReadKnown := by
  refine ⟨⟨List.nodup_nil, nofun, nofun, fun _ => rfl, read_returns _ (fun _ => rfl) nofun⟩,
    nofun, nofun, nofun, fun _ hcb => absurd rfl hcb⟩

/-- Reads complete as issued throughout a run exactly when every event of it is safe. -/
theorem asio_read_iff (malloced : AsioStream) (es : List AsioEvent) (w : AsioWorld)
    (h : asioMachine.Run (.init malloced) es w) :
    asioMachine.Always AsioWorld.ReadSound (.init malloced) es ↔
      (asioMachine.restrict fun u e => e.ReadSafe u).Run (.init malloced) es w := by
  obtain ⟨hp, hj⟩ := readSound_init malloced
  refine h.always_iff ?_ hj hp
  intro u e t hj hp he hx
  exact readSound_step hp hj e (asio_step u t e he hx)

/-- A read that waits once and then gets data. -/
theorem asio_read_waits :
    ∃ w, asioMachine.Run (.init default) [.callRead (some 0) 100, .readReturns .eagain,
        .ready false, .handler, .readReturns (.count 5), .ret] w ∧
      asioMachine.Always AsioWorld.ReadSound (.init default) [.callRead (some 0) 100,
        .readReturns .eagain, .ready false, .handler, .readReturns (.count 5), .ret] := by
  have hrun : (asioMachine.restrict fun u e => e.ReadSafe u).Run (.init default)
      [.callRead (some 0) 100, .readReturns .eagain, .ready false, .handler,
        .readReturns (.count 5), .ret] _ :=
    .cons ⟨by decide, trivial⟩ rfl <| .cons ⟨by decide, .inr rfl⟩ rfl <|
      .cons ⟨by decide, trivial⟩ rfl <| .cons ⟨by decide, nofun⟩ rfl <|
      .cons ⟨by decide, .inl rfl⟩ rfl <| .cons ⟨by decide, fun _ => rfl⟩ rfl <| .nil _
  exact ⟨_, hrun.of_restrict, (asio_read_iff default _ _ hrun.of_restrict).mpr hrun⟩

/-- A read issued inside a read callback and left waiting: when the callback returns,
`try_read` clears the callback of the new read, and EPOLLIN then drops it. -/
theorem asio_nested_read_lost :
    ∃ w, asioMachine.Run (.init default) [.callRead (some 0) 100, .readReturns (.count 5),
        .callRead (some 0) 100, .readReturns .eagain, .ret, .ready false, .handler] w ∧
      w.outstandingRead = some 1 ∧ w.asio.readCallback = none ∧ w.asio.readState = .idle :=
  Machine.exists_run_of_replay _ (by decide)

/-- After the end of file the next read aborts. -/
example :
    ∃ w, asioMachine.Run (.init default) [.callRead (some 0) 100, .readReturns (.count 0), .ret] w ∧
      w.outstandingRead = none ∧ w.exec (.callRead (some 0) 100) =
        .error (.assertion "connection_ref->read_state == READ_STATE_IDLE") :=
  Machine.exists_run_of_replay _ (by decide)

end CHttp
