import CHttp.TcpWorld

/-! What `try_write` does with the bytes of a `tcp_write`, over every sequence of results of
`write`. The attempts come from `tcp_write`, from `postable_try_write` and from `wrtr_cb`,
which is run here whether or not the write filter is armed. -/
namespace CHttp

/-- The error of a `write` that failed for good. -/
def TcpWriteResult.errno : TcpWriteResult → Option ℤ
  | .failed errno => some errno
  | .wrote _ | .nothing _ | .eagain => none

def TcpWriteEnd.error : TcpWriteEnd → Option ℤ
  | .callback error => some error
  | .post | .stall => none

/-- A stream with its loop, and the account of the last `tcp_write`: its data, the bytes that
`write` accepted, the errors that `write` returned and those that the callback was given. -/
structure TcpWriteLedger where
  world : TcpWorld
  content : List Cell
  accepted : List Cell
  failures : List ℤ
  callbacks : List ℤ
  deriving DecidableEq, Repr

def tcpWriteLedgerNew (malloced : TcpStream) : TcpWriteLedger :=
  ⟨tcpStreamNew malloced, [], [], [], []⟩

/-- `write` returns a positive count of what it was offered, EAGAIN, or another error. -/
def TcpWriteLedger.Enabled (l : TcpWriteLedger) : TcpEvent → Prop
  | .writeReturns (.nothing _) => False
  | .writeReturns (.failed errno) => l.world.call = .write ∧ errno ≠ 0
  | .writeReady => l.world.call = .returned
  | e => l.world.Enabled e

instance TcpWriteLedger.decidableEnabled (l : TcpWriteLedger) (e : TcpEvent) :
    Decidable (l.Enabled e) :=
  match e with
  | .writeReturns (.nothing _) => inferInstanceAs (Decidable False)
  | .writeReturns (.failed errno) => inferInstanceAs (Decidable (l.world.call = .write ∧ errno ≠ 0))
  | .writeReady => inferInstanceAs (Decidable (l.world.call = .returned))
  | .writeReturns (.wrote n) => inferInstanceAs (Decidable (l.world.Enabled (.writeReturns (.wrote n))))
  | .writeReturns .eagain => inferInstanceAs (Decidable (l.world.Enabled (.writeReturns .eagain)))
  | .read cb iob => inferInstanceAs (Decidable (l.world.Enabled (.read cb iob)))
  | .write cb iob => inferInstanceAs (Decidable (l.world.Enabled (.write cb iob)))
  | .readReturns r => inferInstanceAs (Decidable (l.world.Enabled (.readReturns r)))
  | .runPosted => inferInstanceAs (Decidable (l.world.Enabled .runPosted))
  | .readReady => inferInstanceAs (Decidable (l.world.Enabled .readReady))

def TcpWriteLedger.exec (l : TcpWriteLedger) : TcpEvent → Res TcpWriteLedger
  | .write cb iob => do
    let world ← l.world.exec (.write cb iob)
    .ok ⟨world, iobufferData iob, [], [], []⟩
  | .writeReturns result =>
    match l.world.output with
    | none => .error .nullPointer
    | some iob => do
      let r ← tcpWriteReturns l.world.stream iob result
      .ok { l with
        world := l.world.writeReturned r
        accepted := l.accepted ++ (iobufferData iob).take result.count
        failures := l.failures ++ result.errno.toList
        callbacks := l.callbacks ++ r.2.2.error.toList }
  | e => do
    let world ← l.world.exec e
    .ok { l with world := world }

def tcpWriteMachine : Machine TcpWriteLedger TcpEvent Fault :=
  ⟨TcpWriteLedger.Enabled, TcpWriteLedger.exec⟩

instance (l : TcpWriteLedger) (e : TcpEvent) : Decidable (tcpWriteMachine.enabled l e) :=
  inferInstanceAs (Decidable (l.Enabled e))

/-- The callback is still to come, and the data left follows what was accepted. -/
structure TcpWriteLedger.Pending (l : TcpWriteLedger) : Prop where
  outputBuffer : l.world.stream.writer.outputBuffer = true
  writeCb : l.world.stream.writer.writeCb = true
  callbacks : l.callbacks = []
  failures : l.failures = []
  bytes : ∃ iob c rest, l.world.output = some iob ∧ iob.Queues c rest ∧
    l.accepted ++ rest = l.content

/-- The callback was given 0 for all of the data, or the error that `write` returned. -/
def TcpWriteLedger.Reported (l : TcpWriteLedger) : Prop :=
  (l.callbacks = [0] ∧ l.accepted = l.content) ∨
    ∃ errno, errno ≠ 0 ∧ l.failures = [errno] ∧ l.callbacks = [errno]

/-- Where the writer is, between two steps. In `unused` its pointers are what malloc left. -/
inductive TcpWriteLedger.Known (l : TcpWriteLedger) : Prop where
  | unused (hcall : l.world.call ≠ .write) (hposted : l.world.posted = 0)
      (hstate : l.world.stream.writer.writeState = .initial) (hwrites : l.world.writes = [])
      (hcallbacks : l.callbacks = [])
  | trying (hcall : l.world.call = .write) (hposted : l.world.posted = 0) (h : l.Pending)
  | queued (hcall : l.world.call ≠ .write) (hposted : l.world.posted = 1)
      (hstate : l.world.stream.writer.writeState = .ready) (h : l.Pending)
  | blocked (hcall : l.world.call ≠ .write) (hposted : l.world.posted = 0)
      (hstate : l.world.stream.writer.writeState = .eagain) (h : l.Pending)
  | completed (hcall : l.world.call ≠ .write) (hposted : l.world.posted = 0)
      (hstate : l.world.stream.writer.writeState ≠ .eagain)
      (houtput : l.world.stream.writer.outputBuffer = false)
      (hcb : l.world.stream.writer.writeCb = false) (h : l.Reported)

section step

variable {l t : TcpWriteLedger}

theorem TcpWriteLedger.Pending.frame {world : TcpWorld} (h : l.Pending)
    (hk : l.world.WriterKept world) : TcpWriteLedger.Pending { l with world := world } := by
  refine ⟨by rw [hk.writer]; exact h.outputBuffer, by rw [hk.writer]; exact h.writeCb, h.callbacks,
    h.failures, ?_⟩
  rw [hk.output]
  exact h.bytes

/-- A step on the side of the reader. -/
theorem TcpWriteLedger.Known.frame {world : TcpWorld} (h : l.Known)
    (hk : l.world.WriterKept world) : TcpWriteLedger.Known { l with world := world } := by
  cases h with
  | unused _ hposted hstate hwrites hcallbacks =>
    exact .unused hk.after (hk.posted.trans hposted) (by rw [hk.writer]; exact hstate)
      (hk.writes.trans hwrites) hcallbacks
  | trying hcall => exact absurd hcall hk.before
  | queued _ hposted hstate h =>
    exact .queued hk.after (hk.posted.trans hposted) (by rw [hk.writer]; exact hstate) (h.frame hk)
  | blocked _ hposted hstate h =>
    exact .blocked hk.after (hk.posted.trans hposted) (by rw [hk.writer]; exact hstate) (h.frame hk)
  | completed _ hposted hstate houtput hcb h =>
    exact .completed hk.after (hk.posted.trans hposted) (by rw [hk.writer]; exact hstate)
      (by rw [hk.writer]; exact houtput) (by rw [hk.writer]; exact hcb) h

/-- A `tcp_write` that gets through its assertions. -/
theorem TcpWriteLedger.Known.write {cb : ℕ} {iob : IOBuffer} (h : l.Known)
    (he : l.Enabled (.write cb iob)) (hx : l.exec (.write cb iob) = .ok t) : t.Known := by
  obtain ⟨world, hworld, hok⟩ := (bind_eq_ok _ _ _).mp hx
  obtain rfl := Except.ok.inj hok
  obtain ⟨stream, hwrite, hok⟩ := (bind_eq_ok _ _ _).mp hworld
  obtain rfl := Except.ok.inj hok
  obtain ⟨hidle, rfl⟩ := tcpWrite_inv hwrite
  have hposted : l.world.posted = 0 := by
    cases h with
    | unused _ hposted | completed _ hposted => exact hposted
    | trying _ _ h | queued _ _ _ h | blocked _ _ _ h =>
      rw [h.outputBuffer] at hidle
      cases hidle
  obtain ⟨c, hq⟩ := IOBuffer.WellFormed.queues he.2.2.2
  exact .trying rfl hposted ⟨rfl, rfl, rfl, rfl, iob, c, _, rfl, hq, rfl⟩

/-- The end of an attempt: all of the data is out, the rest is queued, or the attempt is
left for the socket to become ready. -/
theorem TcpWriteLedger.Pending.writeReturns (h : l.Pending) (hposted : l.world.posted = 0)
    {result : TcpWriteResult} (he : l.Enabled (.writeReturns result)) :
    ∃ t, l.exec (.writeReturns result) = .ok t ∧ t.Known := by
  obtain ⟨hbuffer, hcb, hcallbacks, hfailures, iob, c, rest, hiob, hq, hbytes⟩ := h
  have hexec : ∀ r, tcpWriteReturns l.world.stream iob result = .ok r →
      l.exec (.writeReturns result) = .ok { l with
        world := l.world.writeReturned r
        accepted := l.accepted ++ (iobufferData iob).take result.count
        failures := l.failures ++ result.errno.toList
        callbacks := l.callbacks ++ r.2.2.error.toList } := by
    intro r hr
    simp only [TcpWriteLedger.exec, hiob, hr, ok_bind]
  cases result with
  | wrote n =>
    have hn : n ≤ rest.length := by
      have hle := he.2.2
      rwa [TcpWorld.data, hiob, Option.map_some, Option.getD_some, iobufferDataLen, hq.remaining] at hle
    have htaken : l.accepted ++ (iobufferData iob).take n ++ rest.drop n = l.content := by
      rw [hq.data, List.append_assoc, List.take_append_drop, hbytes]
    obtain ⟨iob', hq', hreturns⟩ := tcpWriteReturns_wrote l.world.stream iob c n rest hcb hq hn
    split_ifs at hreturns with hlast
    · refine ⟨_, hexec _ hreturns, .completed (by rintro ⟨⟩) hposted (by rintro ⟨⟩) rfl rfl
        (.inl ⟨?_, ?_⟩)⟩
      · rw [hcallbacks]
        rfl
      · rw [hlast, List.append_nil] at htaken
        exact htaken
    · refine ⟨_, hexec _ hreturns, .queued (by rintro ⟨⟩) (congrArg (·+1) hposted) rfl
        ⟨hbuffer, hcb, ?_, ?_, iob', c, rest.drop n, rfl, hq', htaken⟩⟩
      · rw [hcallbacks]
        rfl
      · rw [hfailures]
        rfl
  | nothing errno => exact he.elim
  | eagain =>
    refine ⟨_, hexec _ rfl, .blocked (by rintro ⟨⟩) hposted rfl
      ⟨hbuffer, hcb, ?_, ?_, iob, c, rest, rfl, hq, ?_⟩⟩
    · rw [hcallbacks]
      rfl
    · rw [hfailures]
      rfl
    · show l.accepted ++ [] ++ rest = l.content
      rw [List.append_nil, hbytes]
  | failed errno =>
    have hreturns : tcpWriteReturns l.world.stream iob (.failed errno) =
        .ok ({ l.world.stream with writer := ⟨.error, false, false⟩ }, iob, .callback errno) := by
      simp only [tcpWriteReturns, tcpInvokeWriteCallback, hcb, if_true, ok_bind]
    refine ⟨_, hexec _ hreturns, .completed (by rintro ⟨⟩) hposted (by rintro ⟨⟩) rfl rfl
      (.inr ⟨errno, he.2, ?_, ?_⟩)⟩
    · rw [hfailures]
      rfl
    · rw [hcallbacks]
      rfl

theorem TcpWriteLedger.Pending.tryWrite (h : l.Pending) (s : TcpWriteState) (p : ℕ) :
    TcpWriteLedger.Pending { l with world := { l.world with
      stream := { l.world.stream with writer := { l.world.stream.writer with writeState := s } }
      posted := p
      call := .write } } :=
  ⟨h.outputBuffer, h.writeCb, h.callbacks, h.failures, h.bytes⟩

/-- A posted attempt goes ahead: it is posted only while a write is pending. -/
theorem TcpWriteLedger.Known.runPosted (h : l.Known) (he : l.Enabled .runPosted) :
    ∃ t, l.exec .runPosted = .ok t ∧ t.Known := by
  have hpos := he.2
  cases h with
  | unused _ hposted | trying _ hposted | blocked _ hposted | completed _ hposted =>
    rw [hposted] at hpos
    cases hpos
  | queued _ hposted _ h =>
    have htry : tcpTryWrite l.world.stream = .ok () := by
      rw [tcpTryWrite, if_pos h.outputBuffer]
    refine ⟨_, ?_, .trying rfl (show l.world.posted-1 = 0 by omega)
      (h.tryWrite l.world.stream.writer.writeState (l.world.posted-1))⟩
    simp only [TcpWriteLedger.exec, TcpWorld.exec, htry, ok_bind]

theorem wrtrCb_idle (ctx : TcpStream) (hs : ctx.writer.writeState ≠ .eagain) :
    wrtrCb ctx = .ok (ctx, false) := by
  rw [wrtrCb]
  split
  · exact absurd ‹_› hs
  iterate 4 rfl

/-- `wrtr_cb` tries again after EAGAIN and does nothing otherwise. -/
theorem TcpWriteLedger.Known.writeReady (h : l.Known) (he : l.Enabled .writeReady) :
    ∃ t, l.exec .writeReady = .ok t ∧ t.Known := by
  have hcall : l.world.call = .returned := he
  have hidle : l.world.stream.writer.writeState ≠ .eagain →
      ∃ t, l.exec .writeReady = .ok t ∧ t.Known := by
    intro hs
    have hx : l.exec .writeReady = .ok { l with world := { l.world with call := .returned } } := by
      simp only [TcpWriteLedger.exec, TcpWorld.exec, wrtrCb_idle _ hs, ok_bind, Bool.false_eq_true,
        if_false]
    have hreturned : l.world.call ≠ .write := by
      rw [hcall]
      decide
    exact ⟨_, hx, h.frame ⟨hreturned, rfl, rfl, rfl, rfl, rfl, by rintro ⟨⟩⟩⟩
  cases h with
  | unused _ _ hstate | queued _ _ hstate => exact hidle (by rw [hstate]; decide)
  | completed _ _ hstate => exact hidle hstate
  | trying htrying => cases hcall.symm.trans htrying
  | blocked _ hposted hstate h =>
    have hcb : wrtrCb l.world.stream = .ok ({ l.world.stream with
        writer := { l.world.stream.writer with writeState := .ready } }, true) := by
      simp only [wrtrCb, hstate, tcpTryWrite, h.outputBuffer, if_true, ok_bind]
    have hpending := h.tryWrite .ready l.world.posted
    refine ⟨_, ?_, .trying rfl ?_ hpending⟩
    · simp only [TcpWriteLedger.exec, TcpWorld.exec, hcb, ok_bind, if_true]
    · exact hposted

/-- What the events of the writer need to go through; `tcp_write` has its assertions. -/
def TcpEvent.OfWriter : TcpEvent → Prop
  | .writeReturns _ | .runPosted | .writeReady => True
  | .read _ _ | .write _ _ | .readReturns _ | .readReady => False

theorem TcpWriteLedger.Known.writerStep (h : l.Known) {e : TcpEvent} (hw : e.OfWriter)
    (he : l.Enabled e) : ∃ t, l.exec e = .ok t ∧ t.Known := by
  cases e with
  | writeReturns result =>
    have hcall : l.world.call = .write := by
      cases result with
      | nothing errno => exact he.elim
      | wrote n | failed errno => exact he.1
      | eagain => exact he
    cases h with
    | trying _ hposted h => exact h.writeReturns hposted he
    | unused hne | queued hne | blocked hne | completed hne => exact absurd hcall hne
  | runPosted => exact h.runPosted he
  | writeReady => exact h.writeReady he
  | read | write | readReturns | readReady => exact hw.elim

theorem TcpWriteLedger.Known.step (h : l.Known) (e : TcpEvent) (he : l.Enabled e)
    (hx : l.exec e = .ok t) : t.Known := by
  cases e with
  | write cb iob => exact h.write he hx
  | read cb iob =>
    obtain ⟨world, hworld, hok⟩ := (bind_eq_ok _ _ _).mp hx
    obtain rfl := Except.ok.inj hok
    exact h.frame (.read he hworld)
  | readReturns result =>
    obtain ⟨world, hworld, hok⟩ := (bind_eq_ok _ _ _).mp hx
    obtain rfl := Except.ok.inj hok
    exact h.frame (.readReturns he hworld)
  | readReady =>
    obtain ⟨world, hworld, hok⟩ := (bind_eq_ok _ _ _).mp hx
    obtain rfl := Except.ok.inj hok
    exact h.frame (.readReady he hworld)
  | writeReturns | runPosted | writeReady =>
    obtain ⟨t', hx', hknown⟩ := h.writerStep (by exact trivial) he
    obtain rfl := Except.ok.inj (hx.symm.trans hx')
    exact hknown

end step

/-- Until its callback runs, a write has lost no byte; the callback runs once at most, with
0 only for all of the data; one attempt is queued at most, every attempt goes through, and
after the callback the next `tcp_write` does. -/
structure TcpWriteLedger.Intact (l : TcpWriteLedger) : Prop where
  bytes : l.world.writes ≠ [] → l.callbacks = [] →
    ∃ iob, l.world.output = some iob ∧ l.accepted ++ iobufferData iob = l.content
  reported : l.callbacks = [] ∨ l.Reported
  queued : l.world.posted ≤ 1
  attempts : ∀ e : TcpEvent, e.OfWriter → l.Enabled e → ∃ t, l.exec e = .ok t
  cleared : l.callbacks ≠ [] → l.world.stream.writer.outputBuffer = false ∧
    l.world.stream.writer.writeCb = false ∧ ∃ tcp, tcpWrite l.world.stream = .ok tcp

theorem TcpWriteLedger.Pending.intact {l : TcpWriteLedger} (h : l.Pending)
    (hposted : l.world.posted ≤ 1)
    (hattempts : ∀ e : TcpEvent, e.OfWriter → l.Enabled e → ∃ t, l.exec e = .ok t) : l.Intact := by
  refine ⟨fun _ _ => ?_, .inl h.callbacks, hposted, hattempts, fun hne => absurd h.callbacks hne⟩
  obtain ⟨iob, c, rest, hiob, hq, hbytes⟩ := h.bytes
  exact ⟨iob, hiob, by rw [hq.data, hbytes]⟩

theorem TcpWriteLedger.Known.intact {l : TcpWriteLedger} (h : l.Known) : l.Intact := by
  have hattempts : ∀ e : TcpEvent, e.OfWriter → l.Enabled e → ∃ t, l.exec e = .ok t := by
    intro e hw he
    obtain ⟨t, hx, -⟩ := h.writerStep hw he
    exact ⟨t, hx⟩
  cases h with
  | unused _ hposted _ hwrites hcallbacks =>
    exact ⟨fun hne => absurd hwrites hne, .inl hcallbacks, hposted.trans_le (Nat.zero_le 1), hattempts,
      fun hne => absurd hcallbacks hne⟩
  | trying _ hposted h | blocked _ hposted _ h =>
    exact h.intact (hposted.trans_le (Nat.zero_le 1)) hattempts
  | queued _ hposted _ h => exact h.intact hposted.le hattempts
  | completed _ hposted _ houtput hcb h =>
    refine ⟨fun _ hnil => ?_, .inr h, hposted.trans_le (Nat.zero_le 1), hattempts,
      fun _ => ⟨houtput, hcb, _, tcpWrite_writes _ houtput hcb⟩⟩
    rcases h with ⟨hcallbacks, -⟩ | ⟨errno, -, -, hcallbacks⟩
    · cases hnil.symm.trans hcallbacks
    · cases hnil.symm.trans hcallbacks

/-- In every state that a stream can reach, whatever `write` returns and whatever malloc had
left in the stream, the writes are intact. -/
theorem tcp_write_intact (malloced : TcpStream) (es : List TcpEvent) (l : TcpWriteLedger)
    (h : tcpWriteMachine.Run (tcpWriteLedgerNew malloced) es l) : l.Intact := by
  have hnew : (tcpWriteLedgerNew malloced).Known := .unused nofun rfl rfl rfl rfl
  have hknown : l.Known := h.keeps (fun s e t hs he hx => hs.step e he hx) hnew
  exact hknown.intact

/-- EAGAIN, an attempt from `wrtr_cb` that takes two bytes, and a posted one for the third. -/
theorem tcp_write_intact_three :
    ∃ l, tcpWriteMachine.Run (tcpWriteLedgerNew zeroTcpStream)
        [.write 1 threeBytes, .writeReturns .eagain, .writeReady, .writeReturns (.wrote 2), .runPosted,
          .writeReturns (.wrote 1)] l ∧
      l.callbacks = [0] ∧ l.accepted = [some 97, some 98, some 99] ∧ l.Intact := by
  obtain ⟨l, hrun, hcallbacks, haccepted⟩ : ∃ l, tcpWriteMachine.Run (tcpWriteLedgerNew zeroTcpStream)
      [.write 1 threeBytes, .writeReturns .eagain, .writeReady, .writeReturns (.wrote 2), .runPosted,
        .writeReturns (.wrote 1)] l ∧
      l.callbacks = [0] ∧ l.accepted = [some 97, some 98, some 99] :=
    Machine.exists_run_of_replay _ (by decide)
  exact ⟨l, hrun, hcallbacks, haccepted, tcp_write_intact _ _ l hrun⟩

end CHttp
