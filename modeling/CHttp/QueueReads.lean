import CHttp.InterthreadPosts

/-! `runloop_queue_watcher_async_read`: one item of an eventfd queue for one callback. The
watcher is registered by the read and deregistered again before the callback is called, which
may start the next read. -/
namespace CHttp

/-- The run loop, a queue and its watcher with `read_cb` and `read_cb_arg`; `served` tells
whether the watcher's running handler has come to the callback. The rest is history: the
reads issued, the callbacks called with the functor each was given, what was added, and how
many announcements were read along with an earlier one. -/
structure QueueReader where
  loop : RunloopWorld
  queue : EventfdQueue Functor
  qw : Watcher
  read : Functor
  served : Bool
  issued : List Functor
  completed : List (Functor × Functor)
  added : List Functor
  merged : ℕ
  deriving DecidableEq, Repr

def runloopQueueWatcherAsyncRead (this : QueueReader) (cb : Functor) : Res QueueReader := do
  let table ← runloopRegister this.loop.table this.qw
  .ok { this with
    loop := { this.loop with table := table }
    read := cb
    issued := this.issued ++ [cb] }

/-- The callback is called with whatever the queue gave, also with an empty functor. -/
def onReadReadyPostable (qw : QueueReader) : Res QueueReader := do
  let (op, queue) ← runloopEventfdQueueRemove qw.queue
  let fn := op.getD ⟨none, none⟩
  let table ← runloopDeregister qw.loop.table qw.qw.fd
  match qw.read.f with
  | none => .error .nullPointer
  | some _ => .ok { qw with
      loop := { qw.loop with table := table }
      queue := queue
      read := ⟨none, none⟩
      served := true
      completed := qw.completed ++ [(qw.read, fn)]
      merged := qw.merged+(qw.queue.counter-1) }

inductive QueueReadEvent where
  | add (func : Functor)
  | asyncRead (cb : Functor)
  | loop (e : RunloopEvent)
  | readReady
  deriving DecidableEq, Repr

/-- The application has control, or the loop; not `on_read_ready_postable`. -/
def QueueReader.Free (r : QueueReader) : Prop :=
  r.loop.control.handles r.qw = true → r.served = true

instance QueueReader.decidableFree (r : QueueReader) : Decidable r.Free :=
  inferInstanceAs (Decidable (r.loop.control.handles r.qw = true → r.served = true))

/-- Other threads add while fewer than 1023 items are queued. The application reads with a
callback and with no read outstanding, and leaves the watcher's descriptor to it. -/
def QueueReader.Enabled (r : QueueReader) : QueueReadEvent → Prop
  | .add _ => functorListSize r.queue.list < 1023
  | .asyncRead cb => cb.f.isSome ∧ r.loop.control.isUser = true ∧ r.Free ∧
      r.loop.table.entries[r.qw.fd]? = some none
  | .loop e => r.loop.Enabled e ∧ r.Free ∧ e.tableFd ≠ some r.qw.fd ∧
      (e.reports r.qw = true → r.queue.Readable)
  | .readReady => r.loop.control.handles r.qw = true ∧ r.served = false

instance QueueReader.decidableEnabled (r : QueueReader) (e : QueueReadEvent) :
    Decidable (r.Enabled e) :=
  match e with
  | .add _ => inferInstanceAs (Decidable (functorListSize r.queue.list < 1023))
  | .asyncRead cb => inferInstanceAs (Decidable (cb.f.isSome ∧ r.loop.control.isUser = true ∧
      r.Free ∧ r.loop.table.entries[r.qw.fd]? = some none))
  | .loop e => inferInstanceAs (Decidable (r.loop.Enabled e ∧ r.Free ∧
      e.tableFd ≠ some r.qw.fd ∧ (e.reports r.qw = true → r.queue.Readable)))
  | .readReady => inferInstanceAs (Decidable
      (r.loop.control.handles r.qw = true ∧ r.served = false))

def QueueReader.exec (r : QueueReader) : QueueReadEvent → Res QueueReader
  | .add func => do
    let queue ← runloopEventfdQueueAdd r.queue func
    .ok { r with queue := queue, added := r.added ++ [func] }
  | .asyncRead cb => runloopQueueWatcherAsyncRead r cb
  | .loop e => do
    let loop ← r.loop.exec e
    .ok { r with loop := loop, served := e.served r.served }
  | .readReady => onReadReadyPostable r

def queueReadMachine : Machine QueueReader QueueReadEvent Fault :=
  ⟨QueueReader.Enabled, QueueReader.exec⟩

instance QueueReader.decidableMachine (r : QueueReader) (e : QueueReadEvent) :
    Decidable (queueReadMachine.enabled r e) :=
  inferInstanceAs (Decidable (r.Enabled e))

/-- The watcher's entry in the table: registered while a read is outstanding, whose callback
is the one that is stored. -/
def QueueReader.Waits (r : QueueReader) : Option Functor → Prop
  | none => r.loop.table.entries[r.qw.fd]? = some none
  | some cb => r.loop.table.Registered r.qw ∧ r.read = cb ∧ cb.f.isSome

/-- `xs` are queued and at most one read is `outstanding`. An event of the watcher that the
batch still has to serve is one that the counter announces, for a read that is outstanding. -/
structure QueueReader.Reads (r : QueueReader) (xs : List Functor) (outstanding : Option Functor) :
    Prop where
  loop : ∃ pending, r.loop.Ordered pending
  queue : r.queue.Backlog xs r.merged
  items : r.added = r.completed.map Prod.snd ++ xs
  reads : r.issued = r.completed.map Prod.fst ++ outstanding.toList
  waits : r.Waits outstanding
  served : r.served = true → r.loop.control.handles r.qw = true
  batch : r.loop.control.Announces r.served r.qw (0 < r.queue.counter ∧ outstanding.isSome)

section step

variable {r : QueueReader} {xs : List Functor} {outstanding : Option Functor}

theorem QueueReader.Reads.add (h : r.Reads xs outstanding) {func : Functor}
    (he : r.Enabled (.add func)) :
    ∃ t, r.exec (.add func) = .ok t ∧ t.Reads (xs ++ [func]) outstanding := by
  obtain ⟨queue, hadd, hqueue, hcounter⟩ := h.queue.add he func
  refine ⟨{ r with queue := queue, added := r.added ++ [func] },
    by rw [QueueReader.exec, hadd, ok_bind], h.loop, hqueue, ?_, h.reads, h.waits, h.served,
    h.batch.imp ?_⟩
  · show r.added ++ [func] = _
    rw [h.items, List.append_assoc]
  · rintro ⟨-, hout⟩
    show 0 < queue.counter ∧ _
    rw [hcounter]
    exact ⟨Nat.succ_pos _, hout⟩

/-- The watcher's descriptor is free, so the read that finds it so is the only one. -/
theorem QueueReader.Reads.asyncRead (h : r.Reads xs outstanding) {cb : Functor}
    (he : r.Enabled (.asyncRead cb)) :
    ∃ t, r.exec (.asyncRead cb) = .ok t ∧ t.Reads xs (some cb) := by
  obtain ⟨hf, huser, hfreeHandler, hfree⟩ := he
  have hnone : outstanding = none := by
    cases outstanding with
    | none => rfl
    | some cb' =>
      have hentry : r.loop.table.entries[r.qw.fd]? = some (some r.qw) := h.waits.1
      rw [hfree] at hentry
      cases hentry
  subst hnone
  obtain ⟨pending, hordered⟩ := h.loop
  have hs : RunloopStep r.loop (.register r.qw) { r.loop with
      table := ⟨r.loop.table.count+1, r.loop.table.entries.set r.qw.fd (some r.qw)⟩ } :=
    .register r.qw huser hfree
  obtain ⟨hlt, -⟩ := List.getElem?_eq_some_iff.mp hfree
  refine ⟨{ r with
      loop := { r.loop with
        table := ⟨r.loop.table.count+1, r.loop.table.entries.set r.qw.fd (some r.qw)⟩ }
      read := cb
      issued := r.issued ++ [cb] }, ?_,
    ⟨runloop_ordered_step hordered _ hs, h.queue, h.items, ?_, ⟨?_, rfl, hf⟩, h.served,
      h.batch.imp fun hb => ⟨hb.1, rfl⟩⟩⟩
  · rw [QueueReader.exec, runloopQueueWatcherAsyncRead, runloopRegister_ok _ _ hfree, ok_bind]
  · show r.issued ++ [cb] = _ ++ [cb]
    rw [h.reads, Option.toList_none, List.append_nil]
  · exact List.getElem?_set_self hlt

/-- An event of the loop itself, or of the application, away from the handler. -/
theorem QueueReader.Reads.loopStep (h : r.Reads xs outstanding) {e : RunloopEvent}
    {loop : RunloopWorld} (he : r.Enabled (.loop e)) (hx : r.loop.exec e = .ok loop) :
    ({ r with loop := loop, served := e.served r.served } : QueueReader).Reads xs outstanding := by
  obtain ⟨henabled, hfree, hfd, hreport⟩ := he
  have hs : RunloopStep r.loop e loop := runloop_step _ _ _ henabled hx
  have hentry : loop.table.entries[r.qw.fd]? = r.loop.table.entries[r.qw.fd]? := entry_step hs hfd
  obtain ⟨pending, hordered⟩ := h.loop
  refine ⟨runloop_ordered_step hordered e hs, h.queue, h.items, h.reads, ?_, ?_, ?_⟩
  · have hwaits := h.waits
    cases outstanding with
    | none => exact hentry.trans hwaits
    | some cb => exact ⟨hentry.trans hwaits.1, hwaits.2⟩
  · intro hserved
    have hold : r.served = true := by
      cases e with
      | ret => cases hserved
      | post | register | deregister | close | run | step | epollReturns => exact hserved
    show loop.control.handles r.qw = true
    rcases handles_step hs (h.served hold) with rfl | hsame
    · cases hserved
    · rw [hsame]
      exact h.served hold
  · refine h.batch.step hs ?_
    intro hrep
    refine ⟨hreport hrep, ?_⟩
    have hregistered : r.loop.table.entries[r.qw.fd]? = some (some r.qw) :=
      reports_registered henabled hrep
    have hwaits := h.waits
    cases outstanding with
    | none =>
      rw [show r.loop.table.entries[r.qw.fd]? = some none from hwaits] at hregistered
      cases hregistered
    | some cb => rfl

/-- The handler finds an item and a callback, and leaves the descriptor free. -/
theorem QueueReader.Reads.readReady (h : r.Reads xs outstanding) (he : r.Enabled .readReady) :
    ∃ t ys, r.exec .readReady = .ok t ∧ t.Reads ys none := by
  obtain ⟨hhandles, hserved⟩ := he
  have hbatch := h.batch
  rw [hserved] at hbatch
  obtain ⟨hcounter, hout⟩ := hbatch.handles hhandles
  obtain ⟨cb, rfl⟩ := Option.isSome_iff_exists.mp hout
  obtain ⟨hregistered, hread, hf⟩ := h.waits
  obtain ⟨f, hf⟩ := Option.isSome_iff_exists.mp hf
  obtain ⟨item, ys, queue, rfl, hremove, hqueue, hzero⟩ := h.queue.remove hcounter
  obtain ⟨pending, hordered⟩ := h.loop
  obtain ⟨rest, hc⟩ := RunloopControl.handles_eq hhandles
  have hs : RunloopStep r.loop (.deregister r.qw) { r.loop with
      table := ⟨r.loop.table.count-1, r.loop.table.entries.set r.qw.fd none⟩ } :=
    .deregister r.qw (by rw [hc]; rfl) hregistered
  obtain ⟨hlt, -⟩ := List.getElem?_eq_some_iff.mp hregistered
  refine ⟨{ r with
      loop := { r.loop with
        table := ⟨r.loop.table.count-1, r.loop.table.entries.set r.qw.fd none⟩ }
      queue := queue
      read := ⟨none, none⟩
      served := true
      completed := r.completed ++ [(cb, item)]
      merged := r.merged+(r.queue.counter-1) }, ys, ?_,
    ⟨runloop_ordered_step hordered _ hs, hqueue, ?_, ?_, ?_, fun _ => hhandles,
      hbatch.serve hhandles⟩⟩
  · simp only [QueueReader.exec, onReadReadyPostable, hremove, ok_bind,
      runloopDeregister_ok _ _ hregistered, hread, hf, Option.getD_some]
  · show r.added = (r.completed ++ [(cb, item)]).map Prod.snd ++ ys
    rw [h.items, List.map_append, List.append_assoc]
    rfl
  · show r.issued = (r.completed ++ [(cb, item)]).map Prod.fst ++ []
    rw [h.reads, List.map_append, List.append_nil]
    rfl
  · exact List.getElem?_set_self hlt

/-- An event of the watcher finds it registered when its turn comes. -/
theorem QueueReader.Reads.dispatched (h : r.Reads xs outstanding) {rest : List Watcher}
    (hc : r.loop.control = .batch (r.qw :: rest)) : r.loop.table.Registered r.qw := by
  have hbatch := h.batch
  rw [hc] at hbatch
  obtain ⟨-, hout⟩ := hbatch.announced List.mem_cons_self
  obtain ⟨cb, rfl⟩ := Option.isSome_iff_exists.mp hout
  exact h.waits.1

theorem QueueReader.Reads.step (h : r.Reads xs outstanding) (e : QueueReadEvent) (he : r.Enabled e)
    (t : QueueReader) (hx : r.exec e = .ok t) : ∃ xs' outstanding', t.Reads xs' outstanding' := by
  cases e with
  | add func =>
    obtain ⟨t', hx', ht⟩ := h.add he
    obtain rfl := Except.ok.inj (hx.symm.trans hx')
    exact ⟨_, _, ht⟩
  | asyncRead cb =>
    obtain ⟨t', hx', ht⟩ := h.asyncRead he
    obtain rfl := Except.ok.inj (hx.symm.trans hx')
    exact ⟨_, _, ht⟩
  | loop e =>
    obtain ⟨loop, hloop, hx⟩ := (bind_eq_ok _ _ _).mp hx
    obtain rfl := Except.ok.inj hx
    exact ⟨_, _, h.loopStep he hloop⟩
  | readReady =>
    obtain ⟨t', ys, hx', ht⟩ := h.readReady he
    obtain rfl := Except.ok.inj (hx.symm.trans hx')
    exact ⟨ys, none, ht⟩

end step

/-- Every step goes through, but for the dispatch of an event whose watcher, another one, is not
registered any more. The callbacks called are those of the reads, in order and once each, all
but the last one perhaps; the items they were given are the first ones added, in order and once
each. A readable queue wakes the loop for an outstanding read. If the loop sleeps and the queue
is not readable, exactly as many items are left in the queue as announcements were merged,
whether a read waits for one or not. -/
structure QueueReader.Completes (r : QueueReader) : Prop where
  goesOn : ∀ e, r.Enabled e → (e = .loop .step → r.loop.OthersRegistered r.qw) →
    ∃ t, r.exec e = .ok t
  reads : r.completed.map Prod.fst <+: r.issued
  atMostOne : r.issued.length ≤ r.completed.length+1
  items : r.completed.map Prod.snd <+: r.added
  size : functorListSize r.queue.list = r.queue.counter+r.merged
  wakes : r.loop.control = .waiting → r.completed.length < r.issued.length → r.queue.Readable →
    r.Enabled (.loop (.epollReturns (.events [r.qw])))
  atRest : r.loop.control = .waiting → ¬r.queue.Readable →
    r.completed.length+r.merged = r.added.length

theorem QueueReader.Reads.goes {r : QueueReader} {xs : List Functor} {outstanding : Option Functor}
    (h : r.Reads xs outstanding) (e : QueueReadEvent) (he : r.Enabled e)
    (hothers : e = .loop .step → r.loop.OthersRegistered r.qw) : ∃ t, r.exec e = .ok t := by
  cases e with
  | add func =>
    obtain ⟨t, hx, -⟩ := h.add he
    exact ⟨t, hx⟩
  | asyncRead cb =>
    obtain ⟨t, hx, -⟩ := h.asyncRead he
    exact ⟨t, hx⟩
  | loop e =>
    obtain ⟨pending, hordered⟩ := h.loop
    obtain ⟨loop, hloop⟩ := hordered.goes_beside he.1 r.qw (fun _ hc => h.dispatched hc)
      fun hstep => hothers (congrArg _ hstep)
    exact ⟨_, by rw [QueueReader.exec, hloop, ok_bind]⟩
  | readReady =>
    obtain ⟨t, -, hx, -⟩ := h.readReady he
    exact ⟨t, hx⟩

theorem QueueReader.Reads.completes {r : QueueReader} {xs : List Functor}
    {outstanding : Option Functor} (h : r.Reads xs outstanding) : r.Completes := by
  have hissued : r.issued.length = r.completed.length+outstanding.toList.length := by
    rw [h.reads, List.length_append, List.length_map]
  refine ⟨h.goes, ?_, ?_, ?_, h.queue.size, ?_, ?_⟩
  · rw [h.reads]
    exact List.prefix_append _ _
  · have hone : outstanding.toList.length ≤ 1 := by
      cases outstanding <;> simp
    omega
  · rw [h.items]
    exact List.prefix_append _ _
  · intro hc hless hreadable
    have hwaits := h.waits
    cases outstanding with
    | none =>
      rw [Option.toList_none, List.length_nil] at hissued
      omega
    | some cb =>
      have hlone : ∀ wref ∈ [r.qw], r.loop.table.Registered wref := by
        intro wref hmem
        obtain rfl := List.mem_singleton.mp hmem
        exact hwaits.1
      refine ⟨⟨hc, List.cons_ne_nil _ _, List.nodup_singleton _, hlone⟩, ?_, ?_, fun _ => hreadable⟩
      · intro hhandles
        rw [hc] at hhandles
        cases hhandles
      · simp [RunloopEvent.tableFd]
  · intro hc hquiet
    have hcounted := h.queue.counted
    rw [EventfdQueue.Readable] at hquiet
    rw [h.items, List.length_append, List.length_map]
    omega

end CHttp
