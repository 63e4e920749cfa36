import CHttp.Runloop

/-! A batch of ready events while its handlers register and deregister watchers. -/
namespace CHttp

/-- The events of the batch that the loop has not come to. -/
def RunloopControl.remaining : RunloopControl → List Watcher
  | .batch evs => evs
  | .handling _ rest => rest
  | _ => []

/-- Dispatch is robust: only registered watchers were called, each at most once in the
batch, and the next event is dispatched if its watcher is registered and skipped if not. -/
structure RunloopWorld.Robust (w : RunloopWorld) : Prop where
  registered : ∀ c ∈ w.batchCalls, c.registered = true
  once : (w.batchCalls.map HandlerCall.watcher).Nodup
  next : ∀ wr rest, w.control = .batch (wr :: rest) → ∃ t, w.exec .step = .ok t ∧
    (w.table.Registered wr → t.control = .handling wr rest) ∧
    (¬w.table.Registered wr → t.control = .batch rest ∧ t.batchCalls = w.batchCalls)

/-- When a handler returns, the watcher of the next event is registered. -/
def RunloopEvent.NextRegistered (w : RunloopWorld) : RunloopEvent → Prop
  | .ret => ∀ wr ∈ w.control.remaining.head?, w.table.Registered wr
  | _ => True

instance (w : RunloopWorld) (e : RunloopEvent) : Decidable (e.NextRegistered w) :=
  match e with
  | .ret => inferInstanceAs (Decidable (∀ wr ∈ w.control.remaining.head?, w.table.Registered wr))
  | .post _ | .register _ | .deregister _ | .close | .run | .step | .epollReturns _ =>
    inferInstanceAs (Decidable True)

/-- No event is both behind and ahead of the loop. -/
def RunloopWorld.Distinct (w : RunloopWorld) : Prop :=
  (w.batchCalls.map HandlerCall.watcher ++ w.control.remaining).Nodup

section step

variable {w t : RunloopWorld}

theorem exec_dispatch (wr : Watcher) (rest : List Watcher) (hc : w.control = .batch (wr :: rest))
    (hr : w.table.Registered wr) : w.exec .step = .ok { w with
      control := .handling wr rest
      batchCalls := w.batchCalls ++ [⟨wr, true⟩] } := by
  have hlookup := (fdTableLookup_eq_ok w.table wr.fd wr).mpr hr
  simp only [RunloopWorld.exec, hc, hlookup, ok_bind, hr, decide_true, cAssert_true]

/-- The loop does not skip: without its watcher in the table an event is fatal. -/
theorem exec_dispatch_fails (wr : Watcher) (rest : List Watcher)
    (hc : w.control = .batch (wr :: rest)) (hr : ¬w.table.Registered wr) :
    ∀ t, w.exec .step ≠ .ok t := by
  intro t hx
  have hstep := runloop_step_step w t (.inr (.inr ⟨_, hc⟩)) hx
  cases hstep with
  | exit hc' => rw [hc] at hc'; cases hc'
  | wait hc' => rw [hc] at hc'; cases hc'
  | drain hc' => rw [hc] at hc'; cases hc'
  | batchDone hc' => rw [hc] at hc'; cases hc'
  | drained hc' => rw [hc] at hc'; cases hc'
  | execute func readyList hc' => rw [hc] at hc'; cases hc'
  | dispatch wref rest' hc' hr' =>
    rw [hc] at hc'
    cases hc'
    exact hr hr'

/-- In front of an event the loop is robust exactly if its watcher is registered. -/
theorem robust_next_iff (hreg : ∀ c ∈ w.batchCalls, c.registered = true)
    (honce : (w.batchCalls.map HandlerCall.watcher).Nodup) (evs : List Watcher)
    (hc : w.control = .batch evs) :
    w.Robust ↔ ∀ wr ∈ evs.head?, w.table.Registered wr := by
  constructor
  · intro hrobust wr hmem
    obtain ⟨rest, rfl⟩ := List.head?_eq_some_iff.mp hmem
    by_contra hr
    obtain ⟨t, hx, -⟩ := hrobust.next wr rest hc
    exact exec_dispatch_fails wr rest hc hr t hx
  · intro hhead
    refine ⟨hreg, honce, fun wr rest hc' => ?_⟩
    have hr : w.table.Registered wr := by
      rw [hc] at hc'
      cases hc'
      exact hhead wr rfl
    exact ⟨_, exec_dispatch wr rest hc' hr, fun _ => rfl, fun hn => absurd hr hn⟩

/-- Away from the start of an event only the calls so far matter. -/
theorem robust_of_calls (hreg : ∀ c ∈ t.batchCalls, c.registered = true)
    (honce : (t.batchCalls.map HandlerCall.watcher).Nodup)
    (hc : ∀ evs, t.control ≠ .batch evs) : t.Robust :=
  ⟨hreg, honce, fun _ _ hc' => absurd hc' (hc _)⟩

theorem RunloopWorld.Distinct.once (h : w.Distinct) :
    (w.batchCalls.map HandlerCall.watcher).Nodup :=
  (List.nodup_append.mp h).1

/-- Steps that leave the batch as it is, or are done with it. -/
theorem robust_move (hp : w.Robust) (hj : w.Distinct) (hcalls : t.batchCalls = w.batchCalls)
    (hc : ∀ evs, t.control ≠ .batch evs)
    (hrem : t.control.remaining = w.control.remaining ∨ t.control.remaining = []) :
    t.Robust ∧ t.Distinct := by
  refine ⟨robust_of_calls ?_ ?_ hc, ?_⟩
  · rw [hcalls]
    exact hp.registered
  · rw [hcalls]
    exact hj.once
  · rcases hrem with hsame | hnil
    · rw [RunloopWorld.Distinct, hcalls, hsame]
      exact hj
    · rw [RunloopWorld.Distinct, hcalls, hnil, List.append_nil]
      exact hj.once

theorem RunloopControl.isUser_ne_batch {c : RunloopControl} (h : c.isUser = true)
    (evs : List Watcher) : c ≠ .batch evs := by
  rintro rfl
  cases h

/-- One step: the dispatch stays robust exactly when the watcher of the next event is
registered. -/
theorem robust_step (hp : w.Robust) (hj : w.Distinct) (e : RunloopEvent) (h : RunloopStep w e t) :
    Machine.HoldsIff RunloopWorld.Robust RunloopWorld.Distinct t (e.NextRegistered w) := by
  cases h with
  | post func readyList hu hroom hadd =>
    exact .of_holds (robust_move hp hj rfl (RunloopControl.isUser_ne_batch hu) (.inl rfl)) trivial
  | register wref hu hfree =>
    exact .of_holds (robust_move hp hj rfl (RunloopControl.isUser_ne_batch hu) (.inl rfl)) trivial
  | deregister wref hu hr =>
    exact .of_holds (robust_move hp hj rfl (RunloopControl.isUser_ne_batch hu) (.inl rfl)) trivial
  | close hu =>
    exact .of_holds (robust_move hp hj rfl (RunloopControl.isUser_ne_batch hu) (.inl rfl)) trivial
  | run hc => exact .of_holds (robust_move hp hj rfl nofun (.inr rfl)) trivial
  | exit hc ht hl => exact .of_holds (robust_move hp hj rfl nofun (.inr rfl)) trivial
  | wait hc hl => exact .of_holds (robust_move hp hj rfl nofun (.inr rfl)) trivial
  | drain hc => exact .of_holds (robust_move hp hj rfl nofun (.inr rfl)) trivial
  | epollStops r result hc => exact .of_holds (robust_move hp hj rfl nofun (.inr rfl)) trivial
  | epollEvents evs hc hne hnd hr =>
    have hnext : RunloopWorld.Robust { w with control := .batch evs, batchCalls := [] } := by
      refine (robust_next_iff (w := { w with control := .batch evs, batchCalls := [] }) nofun
        List.nodup_nil evs rfl).mpr ?_
      intro wr hmem
      exact hr wr (List.mem_of_mem_head? hmem)
    exact .of_holds ⟨hnext, hnd⟩ trivial
  | batchDone hc => exact .of_holds (robust_move hp hj rfl nofun (.inr rfl)) trivial
  | dispatch wref rest hc hr =>
    have hdistinct : (w.batchCalls.map HandlerCall.watcher ++ [wref] ++ rest).Nodup := by
      have hnodup : (w.batchCalls.map HandlerCall.watcher ++ w.control.remaining).Nodup := hj
      rw [hc] at hnodup
      rwa [List.append_assoc]
    have hd : RunloopWorld.Distinct { w with
        control := .handling wref rest
        batchCalls := w.batchCalls ++ [⟨wref, true⟩] } := by
      rw [RunloopWorld.Distinct, List.map_append]
      exact hdistinct
    refine .of_holds ⟨robust_of_calls ?_ hd.once nofun, hd⟩ trivial
    intro c hmem
    rcases List.mem_append.mp hmem with hold | hnew
    · exact hp.registered c hold
    · rw [List.mem_singleton.mp hnew]
  | handled wref rest hc =>
    have hd : RunloopWorld.Distinct { w with control := .batch rest } := by
      have hnodup : (w.batchCalls.map HandlerCall.watcher ++ w.control.remaining).Nodup := hj
      rw [hc] at hnodup
      exact hnodup
    have hnext := robust_next_iff (w := { w with control := .batch rest }) hp.registered hj.once
      rest rfl
    refine ⟨?_, fun _ => hd⟩
    rw [hnext, RunloopEvent.NextRegistered, hc]
    rfl
  | drained hc => exact .of_holds (robust_move hp hj rfl nofun (.inr rfl)) trivial
  | execute func readyList hc hremove =>
    exact .of_holds (robust_move hp hj rfl nofun (.inr rfl)) trivial
  | executedLast hc =>
    refine .of_holds (robust_move hp hj rfl nofun (.inr rfl)) ?_
    rw [RunloopEvent.NextRegistered, hc]
    nofun
  | executedMore hc =>
    refine .of_holds (robust_move hp hj rfl nofun (.inr rfl)) ?_
    rw [RunloopEvent.NextRegistered, hc]
    nofun

end step

/-- Dispatch is robust throughout a run exactly when the loop comes to every event of a
batch with its watcher registered. -/
theorem runloop_dispatch_iff (start : RunloopWorld) (hinit : runloopInit = .ok start)
    (es : List RunloopEvent) (w : RunloopWorld) (h : runloopMachine.Run start es w) :
    runloopMachine.Always RunloopWorld.Robust start es ↔
      (runloopMachine.restrict fun u e => e.NextRegistered u).Run start es w := by
  obtain ⟨readyList, -, hstart⟩ := (bind_eq_ok _ _ _).mp hinit
  obtain rfl := Except.ok.inj hstart
  refine h.always_iff (J := RunloopWorld.Distinct) ?_ List.nodup_nil
    (robust_of_calls nofun List.nodup_nil nofun)
  intro u e t hj hp he hx
  exact robust_step hp hj e (runloop_step u t e he hx)

/-- Two watchers, of which the first deregisters itself. -/
theorem runloop_dispatch_self :
    ∃ start w, runloopInit = .ok start ∧
      runloopMachine.Run start [.register ⟨1, 4⟩, .register ⟨2, 5⟩, .run, .step,
        .epollReturns (.events [⟨1, 4⟩, ⟨2, 5⟩]), .step, .deregister ⟨1, 4⟩, .ret, .step, .ret] w ∧
      runloopMachine.Always RunloopWorld.Robust start [.register ⟨1, 4⟩, .register ⟨2, 5⟩, .run,
        .step, .epollReturns (.events [⟨1, 4⟩, ⟨2, 5⟩]), .step, .deregister ⟨1, 4⟩, .ret, .step,
        .ret] := by
  have hrun : ∃ w, (runloopMachine.restrict fun u e => e.NextRegistered u).Run
      ⟨fdTableInit, ⟨2048, 0, 0, List.replicate 2049 none⟩, false, .before, [], [], []⟩
      [.register ⟨1, 4⟩, .register ⟨2, 5⟩, .run, .step, .epollReturns (.events [⟨1, 4⟩, ⟨2, 5⟩]),
        .step, .deregister ⟨1, 4⟩, .ret, .step, .ret] w :=
    Machine.exists_run_of_isSome (by decide +kernel)
  obtain ⟨w, hrun⟩ := hrun
  exact ⟨_, w, rfl, hrun.of_restrict, (runloop_dispatch_iff _ rfl _ w hrun.of_restrict).mpr hrun⟩

/-- The first handler deregisters the second watcher, and the loop aborts at its event. -/
theorem runloop_dispatch_aborts :
    ∃ start, runloopInit = .ok start ∧
      ∃ w, runloopMachine.Run start [.register ⟨1, 4⟩, .register ⟨2, 5⟩, .run, .step,
          .epollReturns (.events [⟨1, 4⟩, ⟨2, 5⟩]), .step, .deregister ⟨2, 5⟩, .ret] w ∧
        w.exec .step = .error (.assertion "this->entries[fd] != NULL") :=
  ⟨_, rfl, Machine.exists_run_of_replay _ (by decide +kernel)⟩

end CHttp
