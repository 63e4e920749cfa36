import CHttp.AsioStream

/-! Writes on an `AsioStream` over whole runs, interleaved with reads in any way. -/
namespace CHttp

/-- Control is in `try_write`, between the call of `write` and its return. -/
def AsioControl.writing : AsioControl → Bool
  | .inWrite _ _ => true
  | _ => false

/-- `handler` has not finished. -/
def AsioControl.handling : AsioControl → Bool
  | .user _ handling => handling
  | .inRead _ _ handling => handling
  | .inWrite _ handling => handling
  | .atEpollin => true
  | .atEpollout => true

@[simp] theorem leave_writing (running : List AsioCallback) (handling : Bool) :
    (AsioControl.leave running handling).writing = false := by
  unfold AsioControl.leave
  split_ifs <;> rfl

@[simp] theorem leave_handling (running : List AsioCallback) (handling : Bool) :
    (AsioControl.leave running handling).handling = handling := by
  unfold AsioControl.leave
  split_ifs with h
  · exact h.2.symm
  · rfl

theorem leave_ne_inRead (running r : List AsioCallback) (handling h : Bool) (path : AsioPath) :
    AsioControl.leave running handling ≠ .inRead path r h := by
  unfold AsioControl.leave
  split_ifs <;> nofun

/-- Writes are carried out by writes only: the write side has not touched reading, each
callback was called at most once and with its own argument, none outstanding means idle
and disarmed, and a write told that the descriptor is writable has been tried again by
the time the run loop has control. -/
structure AsioWorld.WriteSound (w : AsioWorld) : Prop where
  apart : w.crossings = []
  once : (w.writeCalls.map AsioCall.call).Nodup
  own : ∀ c ∈ w.writeCalls, c.arg = some (.write c.call)
  idle : w.outstandingWrite = none →
    w.asio.writeState = .idle ∧ w.asio.runloopStream.epollout = false
  offered : w.control = .user [] false → w.owed = false

/-- When an event leaves writes as they should be: `write` takes something, or gives
EAGAIN while a read is in that state anyway, and `handler` comes to EPOLLOUT with no
write waiting for it. -/
def AsioEvent.WriteSafe (w : AsioWorld) : AsioEvent → Prop
  | .writeReturns r => r.positive = true ∨ (r = .eagain ∧ w.asio.readState = .eagain)
  | .handler => w.control = .atEpollout → ¬w.asio.Misdirected ∧ w.owed = false
  | _ => True

/-- What else is known of the writes as long as they are sound. -/
structure AsioWorld.WriteKnown (w : AsioWorld) : Prop where
  fresh : ∀ c ∈ w.writeCalls, c.call < w.writes
  issued : ∀ j, w.outstandingWrite = some j → j < w.writes ∧ j ∉ w.writeCalls.map AsioCall.call
  writing : w.control.writing = true → w.owed = false ∧ w.asio.writeState = .active ∧
    w.asio.runloopStream.epollout = false ∧
    ∃ j, w.outstandingWrite = some j ∧ w.asio.writeCallback = some j ∧
      w.asio.writeCallbackArg = some (.write j)
  owed : w.owed = true → w.outstandingWrite ≠ none ∧ w.control.handling = true
  path : ∀ running handling, w.control ≠ .inRead .write running handling

/-- The fields that writes depend on outside `try_write`. -/
structure AsioWriteView where
  writeState : AsioWriteState
  epollout : Bool
  writes : ℕ
  outstandingWrite : Option ℕ
  writeCalls : List AsioCall
  crossings : List AsioCrossing
  owed : Bool

def AsioWorld.writeView (w : AsioWorld) : AsioWriteView :=
  ⟨w.asio.writeState, w.asio.runloopStream.epollout, w.writes, w.outstandingWrite, w.writeCalls,
    w.crossings, w.owed⟩

/-- The run loop has control only when `handler` is done, and then nothing is owed. -/
theorem offered_of_handling (w : AsioWorld) (h : w.owed = true → w.control.handling = true) :
    w.control = .user [] false → w.owed = false := by
  intro hc
  by_contra howed
  have hh := h (Bool.eq_true_of_not_eq_false howed)
  rw [hc] at hh
  cases hh

/-- A step that keeps those fields and stays out of `try_write` keeps writes as they are. -/
theorem AsioWorld.WriteSound.frame {w t : AsioWorld} (hp : w.WriteSound) (hj : w.WriteKnown)
    (hv : t.writeView = w.writeView) (ht : t.control.writing = false)
    (hh : t.control.handling = w.control.handling)
    (hpath : ∀ running handling, t.control ≠ .inRead .write running handling) :
    t.WriteSound ∧ t.WriteKnown := by
  simp only [AsioWorld.writeView, AsioWriteView.mk.injEq] at hv
  obtain ⟨hstate, hout, hwrites, ho, hcalls, hcross, howed⟩ := hv
  have howed' : t.owed = true → t.outstandingWrite ≠ none ∧ t.control.handling = true := by
    rw [howed, ho, hh]
    exact hj.owed
  refine ⟨⟨by rw [hcross]; exact hp.apart, by rw [hcalls]; exact hp.once,
    by rw [hcalls]; exact hp.own, by rw [ho, hstate, hout]; exact hp.idle,
    offered_of_handling t fun h => (howed' h).2⟩, by rw [hcalls, hwrites]; exact hj.fresh,
    by rw [ho, hcalls, hwrites]; exact hj.issued, ?_, howed', hpath⟩
  intro hw
  rw [ht] at hw
  cases hw

section step

variable {w t : AsioWorld}

theorem writeSound_callWrite (hp : w.WriteSound) (hj : w.WriteKnown) (buffer : Option ℕ)
    (length : ℤ) (running : List AsioCallback) (handling : Bool) (ho : w.outstandingWrite = none)
    (ht : t = { w with
      asio := { w.asio with
        writeBuffer := buffer
        writeBufferSize := length
        writeCallback := some w.writes
        writeCallbackArg := some (.write w.writes)
        writeState := .active }
      control := .inWrite running handling
      writes := w.writes+1
      outstandingWrite := some w.writes }) :
    t.WriteSound ∧ t.WriteKnown := by
  have howed : w.owed = false := by
    by_contra howed
    exact (hj.owed (Bool.eq_true_of_not_eq_false howed)).1 ho
  obtain ⟨-, hout⟩ := hp.idle ho
  subst ht
  refine ⟨⟨hp.apart, hp.once, hp.own, nofun, nofun⟩, fun c hc => ?_, fun j hj' => ?_,
    fun _ => ⟨howed, rfl, hout, w.writes, rfl, rfl, rfl⟩, fun h => ?_, nofun⟩
  · exact (hj.fresh c hc).trans (Nat.lt_succ_self _)
  · obtain rfl := Option.some.inj hj'
    refine ⟨Nat.lt_succ_self _, fun hmem => ?_⟩
    obtain ⟨c, hc, hcall⟩ := List.mem_map.mp hmem
    exact absurd (hj.fresh c hc) (by omega)
  · rw [howed] at h
    cases h

theorem writeSound_writeEagain (hp : w.WriteSound) (hj : w.WriteKnown)
    (running : List AsioCallback) (handling : Bool) (hc : w.control = .inWrite running handling)
    (ht : t = { w with
      asio := writeEagain w.asio
      control := .leave running handling
      crossings := w.crossings ++
        if .eagain = w.asio.readState then [] else [.readStateChanged] }) :
    Machine.HoldsIff AsioWorld.WriteSound AsioWorld.WriteKnown t (w.asio.readState = .eagain) := by
  obtain ⟨howed, -, -, j, ho, -, -⟩ := hj.writing (by rw [hc]; rfl)
  have hnotowed : ∀ {a : Prop}, w.owed = true → a := by
    intro a h
    rw [howed] at h
    cases h
  refine ⟨⟨fun hp' => ?_, fun hs => ?_⟩, fun _ => ?_⟩
  · have hcross := hp'.apart
    rw [ht] at hcross
    simp only [List.append_eq_nil_iff] at hcross
    by_contra hs
    rw [if_neg (fun h => hs h.symm)] at hcross
    cases hcross.2
  · subst ht
    refine ⟨by simp [hp.apart, hs], hp.once, hp.own, fun hn => ?_, fun _ => howed⟩
    rw [ho] at hn
    cases hn
  · subst ht
    refine ⟨hj.fresh, hj.issued, fun hw => ?_, fun h => hnotowed h,
      fun _ _ => leave_ne_inRead _ _ _ _ _⟩
    simp at hw

theorem writeSound_writeCalls (hp : w.WriteSound) (hj : w.WriteKnown) (r : IoResult)
    (running : List AsioCallback) (handling : Bool) (i : ℕ) (count status : ℤ)
    (hc : w.control = .inWrite running handling) (hi : w.asio.writeCallback = some i)
    (ht : t = { w with
      asio := { w.asio with writeState := if r.positive then .idle else w.asio.writeState }
      control := .user (.write :: running) handling
      writeCalls := w.writeCalls ++ [⟨i,
        if r.positive then w.asio.writeCallbackArg else w.asio.readCallbackArg, count, status⟩]
      outstandingWrite := if w.outstandingWrite = some i then none else w.outstandingWrite }) :
    Machine.HoldsIff AsioWorld.WriteSound AsioWorld.WriteKnown t (r.positive = true) := by
  obtain ⟨howed, hactive, hout, j, ho, hcb, harg⟩ := hj.writing (by rw [hc]; rfl)
  obtain rfl := Option.some.inj (hi.symm.trans hcb)
  obtain ⟨hlt, hnew⟩ := hj.issued i ho
  have hnone : t.outstandingWrite = none := by rw [ht]; exact if_pos ho
  refine ⟨⟨fun hp' => ?_, fun hpos => ?_⟩, fun _ => ⟨?_, ?_, ?_, ?_, ?_⟩⟩
  · by_contra hpos
    obtain ⟨hidle, -⟩ := hp'.idle hnone
    rw [ht] at hidle
    simp only [hpos, if_false, hactive] at hidle
    cases hidle
  · subst ht
    simp only [hpos, if_true]
    refine ⟨hp.apart, ?_, ?_, fun _ => ⟨rfl, hout⟩, nofun⟩
    · rw [List.map_append, List.map_singleton]
      exact nodup_snoc hp.once hnew
    · intro c hc'
      rcases List.mem_append.mp hc' with hc' | hc'
      · exact hp.own c hc'
      · rw [List.mem_singleton.mp hc']
        exact harg
  · intro c hc'
    rw [ht] at hc' ⊢
    rcases List.mem_append.mp hc' with hc' | hc'
    · exact hj.fresh c hc'
    · rw [List.mem_singleton.mp hc']
      exact hlt
  · intro j hj'
    rw [hnone] at hj'
    cases hj'
  · rw [ht]
    nofun
  · rw [ht]
    intro h
    rw [howed] at h
    cases h
  · rw [ht]
    nofun

/-- `handler` ends without having called `try_read`. -/
theorem writeSound_handled (hp : w.WriteSound) (hj : w.WriteKnown)
    (hcross : t.crossings = w.crossings) (hcalls : t.writeCalls = w.writeCalls)
    (hwrites : t.writes = w.writes) (ho : t.outstandingWrite = w.outstandingWrite)
    (howed : t.owed = w.owed) (hc : t.control = .user [] false)
    (hidle : w.outstandingWrite = none →
      t.asio.writeState = .idle ∧ t.asio.runloopStream.epollout = false) :
    Machine.HoldsIff AsioWorld.WriteSound AsioWorld.WriteKnown t (w.owed = false) := by
  refine ⟨⟨fun hp' => howed ▸ hp'.offered hc, fun h => ⟨by rw [hcross]; exact hp.apart,
    by rw [hcalls]; exact hp.once, by rw [hcalls]; exact hp.own, by rw [ho]; exact hidle,
    fun _ => howed.trans h⟩⟩, fun hp' => ⟨by rw [hcalls, hwrites]; exact hj.fresh,
    by rw [ho, hcalls, hwrites]; exact hj.issued, ?_, ?_, ?_⟩⟩
  · rw [hc]
    nofun
  · rw [hp'.offered hc]
    nofun
  · rw [hc]
    nofun

/-- One step from a state with sound writes: they stay sound exactly when it is safe. -/
theorem writeSound_step (hp : w.WriteSound) (hj : w.WriteKnown) (e : AsioEvent)
    (h : AsioStep w e t) :
    Machine.HoldsIff AsioWorld.WriteSound AsioWorld.WriteKnown t (e.WriteSafe w) := by
  have notOut : w.control = .atEpollin → (AsioEvent.handler.WriteSafe w) := by
    intro hc hc'
    rw [hc] at hc'
    cases hc'
  cases h with
  | callRead buffer maxLength running handling hc ho hi =>
    exact .of_holds (hp.frame hj rfl rfl (by rw [hc]; rfl) nofun) trivial
  | callWrite buffer length running handling hc ho hi =>
    exact .of_holds (writeSound_callWrite hp hj buffer length running handling ho rfl) trivial
  | readEagain path running handling hc =>
    exact .of_holds (hp.frame hj rfl (leave_writing _ _) (by rw [hc]; exact leave_handling _ _)
      fun _ _ => leave_ne_inRead _ _ _ _ _) trivial
  | readCalls r path running handling i count status hc hr hi =>
    cases path with
    | read =>
      refine .of_holds (hp.frame hj ?_ rfl (by rw [hc]; rfl) nofun) trivial
      simp only [AsioWorld.writeView, AsioPath.crosses, List.append_nil]
    | write => exact absurd hc (hj.path running handling)
  | writeEagain running handling hc =>
    have heagain := writeSound_writeEagain hp hj running handling hc rfl
    exact heagain.congr ⟨fun hs => .inr ⟨rfl, hs⟩, fun hor => hor.elim nofun And.right⟩
  | writeCalls r running handling i count status hc hr hi =>
    have hcalls := writeSound_writeCalls hp hj r running handling i count status hc hi rfl
    exact hcalls.congr ⟨.inl, fun hor => hor.resolve_right fun hand => hr hand.1⟩
  | retRead running handling hc =>
    exact .of_holds (hp.frame hj rfl (leave_writing _ _) (by rw [hc]; exact leave_handling _ _)
      fun _ _ => leave_ne_inRead _ _ _ _ _) trivial
  | retWrite running handling hc =>
    exact .of_holds (hp.frame hj rfl (leave_writing _ _) (by rw [hc]; exact leave_handling _ _)
      fun _ _ => leave_ne_inRead _ _ _ _ _) trivial
  | ready writable hc =>
    refine .of_holds ⟨⟨hp.apart, hp.once, hp.own, hp.idle, nofun⟩, hj.fresh, hj.issued, nofun,
      fun h => ⟨?_, rfl⟩, nofun⟩ trivial
    exact Option.isSome_iff_ne_none.mp (Bool.and_eq_true_iff.mp h).2
  | epollinRead hc hs hcb =>
    exact .of_holds (hp.frame hj rfl rfl (by rw [hc]; rfl) nofun) (notOut hc)
  | epollinReset hc hs hcb =>
    exact .of_holds (hp.frame hj rfl rfl (by rw [hc]; rfl) nofun) (notOut hc)
  | epollinSkip hc =>
    exact .of_holds (hp.frame hj rfl rfl (by rw [hc]; rfl) nofun) (notOut hc)
  | epolloutRead hc hm =>
    refine .of_not (fun hp' => ?_) fun hsafe => (hsafe hc).1 hm
    exact List.append_ne_nil_of_right_ne_nil _ (List.cons_ne_nil _ _) hp'.apart
  | epolloutReset hc hs hcb =>
    have hdone := writeSound_handled (t := { w with
        asio := { w.asio with writeState := .idle }, control := .user [] false })
      hp hj rfl rfl rfl rfl rfl rfl fun hn => ⟨rfl, (hp.idle hn).2⟩
    exact hdone.congr ⟨fun h _ => ⟨fun hm => hm.2.2.2 hcb, h⟩, fun hsafe => (hsafe hc).2⟩
  | epolloutSkip hc hm =>
    have hdone := writeSound_handled (t := { w with control := .user [] false })
      hp hj rfl rfl rfl rfl rfl rfl hp.idle
    exact hdone.congr ⟨fun h _ => ⟨hm, h⟩, fun hsafe => (hsafe hc).2⟩

end step

/-- Writes are carried out by writes only, throughout a run, exactly when every event of
it is safe. -/
theorem asio_write_iff (malloced : AsioStream) (es : List AsioEvent) (w : AsioWorld)
    (h : asioMachine.Run (.init malloced) es w) :
    asioMachine.Always AsioWorld.WriteSound (.init malloced) es ↔
      (asioMachine.restrict fun u e => e.WriteSafe u).Run (.init malloced) es w := by
  have hp : (AsioWorld.init malloced).WriteSound :=
    ⟨rfl, List.nodup_nil, nofun, fun _ => ⟨rfl, rfl⟩, fun _ => rfl⟩
  have hj : (AsioWorld.init malloced).WriteKnown := ⟨nofun, nofun, nofun, nofun, nofun⟩
  refine h.always_iff ?_ hj hp
  intro u e t hj hp he hx
  exact writeSound_step hp hj e (asio_step u t e he hx)

theorem asio_write_at_once :
    ∃ w, asioMachine.Run (.init default)
        [.callWrite (some 0) 5, .writeReturns (.count 3), .ret, .ready true, .handler, .handler] w ∧
      asioMachine.Always AsioWorld.WriteSound (.init default)
        [.callWrite (some 0) 5, .writeReturns (.count 3), .ret, .ready true, .handler, .handler] := by
  have hrun : (asioMachine.restrict fun u e => e.WriteSafe u).Run (.init default)
      [.callWrite (some 0) 5, .writeReturns (.count 3), .ret, .ready true, .handler, .handler] _ :=
    .cons ⟨by decide, trivial⟩ rfl <| .cons ⟨by decide, .inl rfl⟩ rfl <|
      .cons ⟨by decide, trivial⟩ rfl <| .cons ⟨by decide, trivial⟩ rfl <|
      .cons ⟨by decide, nofun⟩ rfl <| .cons ⟨by decide, fun _ => ⟨nofun, rfl⟩⟩ rfl <| .nil _
  exact ⟨_, hrun.of_restrict, (asio_write_iff default _ _ hrun.of_restrict).mpr hrun⟩

/-- EAGAIN changes the read state, and EPOLLOUT then leads to `read` instead of `write`. -/
theorem asio_write_turns_to_read :
    ∃ w, asioMachine.Run (.init default) [.callWrite (some 0) 5, .writeReturns .eagain,
        .ready true, .handler, .handler] w ∧
      w.crossings = [.readStateChanged, .readCalled] ∧ w.control = .inRead .write [] false ∧
      w.exec (.readReturns (.count 1)) = .error .nullPointer :=
  Machine.exists_run_of_replay _ (by decide)

/-- A failing write calls back with the argument of the read side and stays active. -/
example :
    ∃ w, asioMachine.Run (.init default)
        [.callRead (some 0) 100, .readReturns .eagain, .callWrite (some 1) 5,
          .writeReturns (.failed 104), .ret] w ∧
      w.writeCalls = [⟨0, some (.read 0), 0, 104⟩] ∧ w.exec (.callWrite (some 1) 5) =
        .error (.assertion "connection_ref->write_state == WRITE_STATE_IDLE") :=
  Machine.exists_run_of_replay _ (by decide)

end CHttp
