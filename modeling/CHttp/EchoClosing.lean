import CHttp.EchoEnd
import CHttp.EchoRounds

/-! An echo app whose peer has read all answers and closed the connection: `read` comes to the
end of the input, and the app is done. -/
namespace CHttp

/-- The app has not called its done callback. -/
structure EchoWorld.Running (w : EchoWorld) : Prop where
  doneCb : w.doneCb = true
  done : w.done = []

/-- What can happen when the peer has closed the connection: besides the rest `read` finds the
end of the input, and leaves any `errno`, or it fails. -/
def EchoEvent.Parting : EchoEvent → Prop
  | .stream (.readReturns (.eof _)) => True
  | .stream (.readReturns (.failed errno)) => errno ≠ 0
  | e => e.Plain

/-- What the socket really does then: the end of the input comes right behind the last byte,
and some call has left an `errno` before. -/
def EchoWorld.TruthfulEnd (w : EchoWorld) : EchoEvent → Prop
  | .stream (.readReturns .eagain) | .stream (.readReturns (.failed _)) => False
  | .stream (.readReturns (.eof errno)) => w.world.incoming = [] ∧ errno ≠ 0
  | .stream (.writeReturns .eagain) => False
  | e => e.Plain

instance EchoEvent.decidableParting (e : EchoEvent) : Decidable e.Parting :=
  match e with
  | .stream (.readReturns (.failed errno)) => inferInstanceAs (Decidable (errno ≠ 0))
  | .postableRead | .stream (.readReturns (.eof _)) => inferInstanceAs (Decidable True)
  | .stream (.read _) | .stream (.write _ _) | .stream (.runPosted _) | .stream .readReady
  | .stream (.readReturns (.bytes _)) | .stream (.readReturns .eagain)
  | .stream (.writeReturns (.wrote _)) | .stream (.writeReturns .eagain) =>
    inferInstanceAs (Decidable (True ∧ True))
  | .stream (.writeReturns (.nothing _)) | .stream (.writeReturns (.failed _)) =>
    inferInstanceAs (Decidable (True ∧ False))

instance EchoWorld.decidableTruthfulEnd (w : EchoWorld) (e : EchoEvent) :
    Decidable (w.TruthfulEnd e) :=
  match e with
  | .stream (.readReturns (.eof errno)) =>
    inferInstanceAs (Decidable (w.world.incoming = [] ∧ errno ≠ 0))
  | .stream (.readReturns .eagain) | .stream (.readReturns (.failed _))
  | .stream (.writeReturns .eagain) => inferInstanceAs (Decidable False)
  | .postableRead => inferInstanceAs (Decidable True)
  | .stream (.read _) | .stream (.write _ _) | .stream (.runPosted _) | .stream .readReady
  | .stream (.readReturns (.bytes _)) | .stream (.writeReturns (.wrote _)) =>
    inferInstanceAs (Decidable (True ∧ True))
  | .stream (.writeReturns (.nothing _)) | .stream (.writeReturns (.failed _)) =>
    inferInstanceAs (Decidable (True ∧ False))

/-- All lines of the peer are answered, and the app has only the end of its input to find. -/
structure EchoWorld.Closing (w : EchoWorld) (peer : Bytes) (rp : ReadPhase) : Prop where
  echoes : w.Echoes peer rp .idle []
  answered : w.world.written = ((completeLines peer).flatMap echoLine).map some
  running : w.Running

/-- The app has found it, and is done. -/
structure EchoWorld.Over (w : EchoWorld) (peer : Bytes) : Prop where
  ended : w.Ended
  answered : w.world.written = ((completeLines peer).flatMap echoLine).map some
  reported : ∃ errno, errno ≠ 0 ∧ w.done = [errno]

/-- The work that a phase of a read stands for when only the end is to come. -/
def ReadPhase.parting : ReadPhase → ℕ
  | .idle => 0
  | .reading => 1
  | .waiting => 2
  | .posted => 3

def EchoWorld.partingWork (w : EchoWorld) (rp : ReadPhase) : ℕ :=
  4*w.world.incoming.length+5*w.posted+rp.parting

/-- The app is on its way out, with so much work left at most. -/
def EchoWorld.Leaves (w : EchoWorld) (peer : Bytes) (r : ℕ) : Prop :=
  (∃ rp, w.Closing peer rp ∧ w.partingWork rp = r) ∨ (w.Over peer ∧ r = 0)

section closing

variable {w t : EchoWorld} {u : StreamWorld} {peer : Bytes} {rp rp' : ReadPhase} {wp : WritePhase}
  {rest : List Cell}

theorem EchoWorld.Echoes.alive (h : w.Echoes peer rp wp rest) (hrunning : w.Running) :
    w.Alive peer rp := by
  have hcb : w.world.stream.writeCb.toList.length = if wp = .idle then 0 else 1 := by
    by_cases hidle : wp = .idle
    · rw [if_pos hidle, h.writes.stream.idle.mp hidle]
      rfl
    · obtain ⟨cb, hcb⟩ := h.writes.stream.writeCb_some hidle
      rw [if_neg hidle, hcb]
      rfl
  refine ⟨h.reads, ?_, ?_, hrunning.doneCb, hrunning.done, h.readNames⟩
  · rw [hcb]
    exact h.turn
  · rw [hcb, h.writes.posted]
    have hcall := h.writes.call
    cases wp with
    | writing =>
      rw [if_pos (hcall.mpr rfl)]
      decide
    | idle | posted | stalled =>
      rw [if_neg fun hc => absurd (hcall.mp hc) (by decide)]
      decide

/-- A plain event does not make the app done. -/
theorem alive_plain (h : w.Alive peer rp) (e : EchoEvent) (hp : e.Plain) (he : w.Enabled e)
    (hx : w.exec e = .ok t) : ∃ rp', t.Alive peer rp' := by
  cases e with
  | postableRead => exact alive_postableRead h he hx
  | stream e =>
    by_cases hw : e.ofWriting = true
    · exact ⟨rp, alive_write h e hw he hx⟩
    · exact alive_reading h e (e.reading_of_plain hp.1 hw) he hx

theorem EchoWorld.Echoes.stays_running (h : w.Echoes peer rp wp rest) (hrunning : w.Running)
    (e : EchoEvent) (hp : e.Plain) (he : w.Enabled e) (hx : w.exec e = .ok t) : t.Running := by
  obtain ⟨rp', ht⟩ := alive_plain (h.alive hrunning) e hp he hx
  exact ⟨ht.doneCb, ht.done⟩

/-- A server that has written as much as the answers to all lines has nothing more to write. -/
theorem EchoWorld.Echoes.closing (h : w.Echoes peer rp wp rest) (hrunning : w.Running)
    (hall : ((completeLines peer).flatMap echoLine).length ≤ w.world.written.length) :
    w.Closing peer rp := by
  have hprefix := h.written_prefix
  have hanswered : w.world.written = ((completeLines peer).flatMap echoLine).map some := by
    apply hprefix.eq_of_length_le
    rw [List.length_map]
    exact hall
  have hrest : rest = [] := by
    have hle := (handed_answers h.reads).length_le
    have hlen := h.rest_length
    rw [List.length_map] at hle
    exact List.length_eq_zero_iff.mp (by omega)
  have hidle : wp = .idle := by
    by_contra hne
    exact (h.writes.stream.unsent hne).1 hrest
  subst hidle hrest
  exact ⟨h, hanswered, hrunning⟩

/-- No message is left that could be handed over. -/
theorem EchoWorld.Closing.nothing_delivered (h : w.Closing peer rp) (hr : u.ReadsAt peer rp')
    (msg : NewLineMsg) : u.handed ≠ w.world.handed ++ [msg] := by
  intro hhanded
  have hle := (handed_answers hr).length_le
  have hlen := h.echoes.rest_length
  rw [h.answered, List.length_map, List.length_nil] at hlen
  rw [hhanded, List.map_append, List.flatten_append, List.length_append, List.length_map,
    List.map_singleton, List.flatten_singleton] at hle
  have hpos : 0 < (echoCells msg).length := by
    rw [echoCells, List.length_append, List.length_append]
    exact Nat.add_pos_left (Nat.add_pos_left (by decide) _) _
  omega

/-- What the app makes of a step of reading: nothing. -/
theorem EchoWorld.Closing.read (h : w.Closing peer rp) (hu : w.ReadsOn peer u rp') :
    (w.withRead u).react = .ok (w.withRead u) ∧ (w.withRead u).Closing peer rp' := by
  rcases hu.handed with ⟨-, cb, msg, -, hhanded⟩ | ⟨hp, hcall, hhanded⟩
  · exact absurd hhanded (h.nothing_delivered hu.reads msg)
  · obtain ⟨hreact, hechoes⟩ := h.echoes.read_on hu hp hcall hhanded
    exact ⟨hreact, hechoes, hu.keep.written.trans h.answered, h.running.doneCb, h.running.done⟩

theorem ReadPhase.parting_le (rp : ReadPhase) : rp.parting ≤ 3 := by
  cases rp <;> decide

/-- A step of reading that does not find EAGAIN brings the end nearer. -/
theorem EchoWorld.Closing.read_spends (h : w.Closing peer rp) (e : StreamEvent) (hr : e.Reading)
    (hc : e.byClient = false) (he : w.world.Enabled e) (hx : w.world.exec e = .ok u)
    (hat : u.ReadsAt peer rp') (hagain : e ≠ .readReturns .eagain) :
    4*u.incoming.length+rp'.parting < 4*w.world.incoming.length+rp.parting := by
  have hincoming := (exec_bytes hx).1
  cases e with
  | readReturns r =>
    cases r with
    | bytes d =>
      obtain ⟨hcall, hne, hprefix, -⟩ := he
      obtain rfl := h.echoes.reads.call.mp hcall
      have hpos := List.length_pos_iff.mpr hne
      have hle := hprefix.length_le
      have hlen : u.incoming.length = w.world.incoming.length-d.length := by
        rw [hincoming, List.length_drop]
        rfl
      have hparting := rp'.parting_le
      rw [show ReadPhase.reading.parting = 1 from rfl]
      omega
    | eagain => exact absurd rfl hagain
    | eof | failed => exact hr.elim
  | readReady =>
    obtain ⟨rfl, hcall⟩ := ready_spends h.echoes.reads he hx
    obtain rfl := hat.call.mp hcall
    rw [show u.incoming = w.world.incoming from hincoming]
    exact Nat.lt_succ_self _
  | runPosted f =>
    cases f with
    | postableRead =>
      obtain ⟨rfl, hcall⟩ := rerun_spends h.echoes.reads he hx
      obtain rfl := hat.call.mp hcall
      rw [show u.incoming = w.world.incoming from hincoming]
      exact Nat.add_lt_add_left (by decide) _
    | postableTryWrite => exact hr.elim
  | read | write => cases hc
  | writeReturns => exact hr.elim

/-- A plain event goes through, and the app remains on its way out. -/
theorem EchoWorld.Closing.plain (h : w.Closing peer rp)
    (hshort : ∀ line ∈ completeLines peer, line.length ≤ iobufferDefaultCapacity)
    (hlast : unfinishedLine peer = []) (e : EchoEvent) (hp : e.Plain) (he : w.Enabled e) :
    ∃ t rp', w.exec e = .ok t ∧ t.Closing peer rp' ∧
      (e ≠ .stream (.readReturns .eagain) → t.partingWork rp' < w.partingWork rp) := by
  cases e with
  | postableRead =>
    obtain ⟨⟨hone, rfl, -⟩, u, rp', hx, hu, hexec⟩ := h.echoes.posted_read he
    obtain ⟨hreact, hclosing⟩ := h.read hu
    refine ⟨w.withRead u, rp', hexec.trans hreact, hclosing, fun _ => ?_⟩
    have hincoming : u.incoming = w.world.incoming := (exec_bytes hx).1
    have hparting := rp'.parting_le
    show 4*u.incoming.length+5*0+rp'.parting < 4*w.world.incoming.length+5*w.posted+0
    rw [hincoming, hone]
    omega
  | stream e =>
    obtain ⟨he, hc⟩ := he
    have hw : ¬e.ofWriting = true := by
      intro hw
      exact h.echoes.writes.busy e hw hc he rfl
    have hr := e.reading_of_plain hp.1 hw
    obtain ⟨-, ⟨u, rp', hx, hu, hexec⟩ | ⟨-, hlong⟩⟩ := h.echoes.stream_read hshort e hr hc he
    · obtain ⟨hreact, hclosing⟩ := h.read hu
      refine ⟨w.withRead u, rp', hexec.trans hreact, hclosing, fun hagain => ?_⟩
      have hless := h.read_spends e hr hc he hx hu.reads fun hagain' => hagain (congrArg _ hagain')
      show 4*u.incoming.length+5*0+rp'.parting < 4*w.world.incoming.length+5*w.posted+rp.parting
      omega
    · rw [hlast] at hlong
      cases hlong

/-- The end of the input, or an error: the app is done, if it is told an `errno`. -/
theorem EchoWorld.Closing.ends (h : w.Closing peer rp) (r : TcpReadResult) (errno : ℤ)
    (hr : r = .eof errno ∨ r = .failed errno) (he : w.Enabled (.stream (.readReturns r))) :
    rp = .reading ∧
    ((errno = 0 ∧ w.exec (.stream (.readReturns r)) =
      .error (.assertion "IOBuffer_data_len(msg_stream_ref->input_buffer) != 0")) ∨
    (errno ≠ 0 ∧ ∃ t, w.exec (.stream (.readReturns r)) = .ok t ∧ t.Over peer)) := by
  have hcall := StreamWorld.call_of_readReturns he.1
  obtain rfl := h.echoes.reads.call.mp hcall
  obtain ⟨cb, hcb⟩ := h.echoes.reads.stream.readCb_some nofun
  refine ⟨rfl, ?_⟩
  rcases echo_ends (h.echoes.alive h.running) hcall cb hcb r errno hr with
    hunset | ⟨hset, t, hx, -, hdone, hended, hwritten⟩
  · exact .inl hunset
  · exact .inr ⟨hset, t, hx, hended, hwritten.trans h.answered, errno, hset, hdone⟩

/-- Where there is no `errno` the end of the input fails an assertion of the message reader. -/
theorem EchoWorld.Leaves.aborts {r : ℕ} (h : w.Leaves peer r)
    (he : w.Enabled (.stream (.readReturns (.eof 0)))) :
    w.exec (.stream (.readReturns (.eof 0))) =
      .error (.assertion "IOBuffer_data_len(msg_stream_ref->input_buffer) != 0") := by
  rcases h with ⟨rp, hclosing, -⟩ | ⟨hover, -⟩
  · obtain ⟨-, ⟨-, hfails⟩ | ⟨hne, -⟩⟩ := hclosing.ends (.eof 0) 0 (.inl rfl) he
    · exact hfails
    · exact absurd rfl hne
  · exact absurd he (hover.ended _)

/-- Everything else goes through, and with a truthful socket it leaves less work. -/
theorem EchoWorld.Leaves.step {r : ℕ} (h : w.Leaves peer r)
    (hshort : ∀ line ∈ completeLines peer, line.length ≤ iobufferDefaultCapacity)
    (hlast : unfinishedLine peer = []) (e : EchoEvent) (he : w.Enabled e) (hp : e.Parting)
    (hset : e ≠ .stream (.readReturns (.eof 0))) :
    ∃ t r', w.exec e = .ok t ∧ t.Leaves peer r' ∧ (w.TruthfulEnd e → r' < r) := by
  rcases h with ⟨rp, hclosing, rfl⟩ | ⟨hover, -⟩
  · have hends (result : TcpReadResult) (errno : ℤ) (hr : result = .eof errno ∨ result = .failed errno)
        (hne : errno ≠ 0) (he : w.Enabled (.stream (.readReturns result))) :
        ∃ t r', w.exec (.stream (.readReturns result)) = .ok t ∧ t.Leaves peer r' ∧
          r' < w.partingWork rp := by
      obtain ⟨rfl, ⟨hz, -⟩ | ⟨-, t, hx, hover⟩⟩ := hclosing.ends result errno hr he
      · exact absurd hz hne
      · exact ⟨t, 0, hx, .inr ⟨hover, rfl⟩, Nat.succ_pos _⟩
    have hplain (hp : e.Plain) (hagain : w.TruthfulEnd e → e ≠ .stream (.readReturns .eagain)) :
        ∃ t r', w.exec e = .ok t ∧ t.Leaves peer r' ∧ (w.TruthfulEnd e → r' < w.partingWork rp) := by
      obtain ⟨t, rp', hx, ht, hless⟩ := hclosing.plain hshort hlast e hp he
      exact ⟨t, _, hx, .inl ⟨rp', ht, rfl⟩, fun htruth => hless (hagain htruth)⟩
    cases e with
    | postableRead => exact hplain hp fun _ => nofun
    | stream e =>
      cases e with
      | readReturns result =>
        cases result with
        | bytes d => exact hplain hp fun _ => nofun
        | eagain => exact hplain hp fun htruth => htruth.elim
        | eof errno =>
          have hne : errno ≠ 0 := by
            rintro rfl
            exact hset rfl
          obtain ⟨t, r', hx, ht, hless⟩ := hends (.eof errno) errno (.inl rfl) hne he
          exact ⟨t, r', hx, ht, fun _ => hless⟩
        | failed errno =>
          obtain ⟨t, r', hx, ht, hless⟩ := hends (.failed errno) errno (.inr rfl) hp he
          exact ⟨t, r', hx, ht, fun _ => hless⟩
      | read | write | runPosted | readReady | writeReturns => exact hplain hp fun _ => nofun
  · exact absurd he (hover.ended e)

/-- With a truthful socket only an app that is done can go no further. -/
theorem EchoWorld.Leaves.goes_on {r : ℕ} (h : w.Leaves peer r)
    (hstuck : ∀ e, ¬(w.Enabled e ∧ e.Parting ∧ w.TruthfulEnd e)) : w.Over peer := by
  rcases h with ⟨rp, hclosing, -⟩ | ⟨hover, -⟩
  · exfalso
    by_cases hend : rp = .waiting ∨ rp = .reading ∧ w.world.incoming = []
    · have hreads := hclosing.echoes.reads
      rcases hend with rfl | ⟨rfl, hin⟩
      · have hfree : w.world.Free := ⟨fun hc => absurd (hreads.call.mp hc) (by decide),
          fun hc => absurd (hclosing.echoes.writes.call.mp hc) (by decide)⟩
        exact hstuck (.stream .readReady) ⟨⟨⟨hfree, hreads.stream.buffer, hreads.stream.callback⟩, rfl⟩,
          ⟨trivial, trivial⟩, trivial, trivial⟩
      · exact hstuck (.stream (.readReturns (.eof 1))) ⟨⟨hreads.call.mpr rfl, rfl⟩, trivial, hin,
          by decide⟩
    · rw [not_or, not_and] at hend
      obtain ⟨e, he, ht⟩ := echo_goes_on hclosing.echoes (by decide) fun hrp => absurd hrp hend.1
      refine hstuck e ⟨he, ?_⟩
      cases e with
      | postableRead => exact ⟨trivial, trivial⟩
      | stream e =>
        cases e with
        | readReturns result =>
          cases result with
          | bytes d => exact ⟨ht, ht⟩
          | eagain =>
            have hcall := StreamWorld.call_of_readReturns he.1
            exact absurd ht (hend.2 (hclosing.echoes.reads.call.mp hcall))
          | eof | failed => exact ht.1.elim
        | writeReturns result =>
          cases result with
          | wrote n => exact ⟨ht, ht⟩
          | eagain => exact ht.elim
          | nothing | failed => exact ht.2.elim
        | read | write | runPosted => exact ⟨ht, ht⟩
        | readReady => exact ⟨⟨trivial, trivial⟩, trivial, trivial⟩
  · exact hover

/-- The end is one step more than what the work of the round counts. -/
theorem EchoWorld.partingWork_le (w : EchoWorld) (b lines : ℕ) (rp : ReadPhase) (wp : WritePhase)
    (rest : List Cell) : w.partingWork rp ≤ w.work b lines rp wp rest+1 := by
  have hphase : rp.parting ≤ rp.work w.world.incoming+1 := by
    cases rp with
    | reading => exact Nat.le_add_left _ _
    | idle => exact Nat.zero_le _
    | waiting => exact le_rfl
    | posted => exact Nat.le_succ _
  rw [EchoWorld.partingWork, EchoWorld.work]
  omega

end closing

end CHttp
