import CHttp.EventfdQueue
import CHttp.RunloopOrder

/-! An `InterthreadQueue` on a run loop, from `itqueue_add` in any thread to the execution of
the function in the run loop's thread, in every interleaving of the threads with the loop and
with what its other handlers and functions post themselves. -/
namespace CHttp

section backlog

variable {α : Type} {q : EventfdQueue α} {xs : List α} {merged : ℕ}

/-- The queue holds `xs`. The counter announces all of them but `merged`, which were added
while an earlier one was still to be read, and whose announcements went away with its. -/
structure EventfdQueue.Backlog (q : EventfdQueue α) (xs : List α) (merged : ℕ) : Prop where
  holds : q.list.Holds runloopMaxFds xs
  counted : xs.length = q.counter+merged

theorem EventfdQueue.Backlog.size (h : q.Backlog xs merged) :
    functorListSize q.list = q.counter+merged := by
  rw [functorListSize_eq h.holds, h.counted]

theorem EventfdQueue.Backlog.add (h : q.Backlog xs merged) (hroom : functorListSize q.list < 1023)
    (item : α) :
    ∃ q', runloopEventfdQueueAdd q item = .ok q' ∧ q'.Backlog (xs ++ [item]) merged ∧
      q'.counter = q.counter+1 := by
  have hfits : xs.length+1 < runloopMaxFds := by
    rw [functorListSize_eq h.holds] at hroom
    exact Nat.succ_lt_succ hroom
  obtain ⟨list, hadd, hholds⟩ := functorListAdd_holds h.holds hfits item
  refine ⟨⟨list, q.counter+1⟩, ?_, ⟨hholds, ?_⟩, rfl⟩
  · simp only [runloopEventfdQueueAdd, hadd, ok_bind]
  · rw [List.length_append, List.length_singleton, h.counted]
    exact Nat.add_right_comm _ _ _

/-- What the counter announced beyond the one item taken joins the merged ones. -/
theorem EventfdQueue.Backlog.remove (h : q.Backlog xs merged) (hcounter : 0 < q.counter) :
    ∃ item ys q', xs = item :: ys ∧ runloopEventfdQueueRemove q = .ok (some item, q') ∧
      q'.Backlog ys (merged+(q.counter-1)) ∧ q'.counter = 0 := by
  have hcounted := h.counted
  obtain ⟨item, ys, rfl⟩ : ∃ item ys, xs = item :: ys := by
    apply List.exists_cons_of_length_pos
    omega
  obtain ⟨list, hremove, hholds⟩ := functorListRemove_holds h.holds
  have hsize : functorListSize q.list > 0 := by
    rw [functorListSize_eq h.holds]
    exact Nat.succ_pos _
  refine ⟨item, ys, ⟨list, 0⟩, rfl, ?_, ⟨hholds, ?_⟩, rfl⟩
  · simp only [runloopEventfdQueueRemove, hsize, if_true, hremove, ok_bind]
  · rw [List.length_cons] at hcounted
    show ys.length = 0+(merged+(q.counter-1))
    omega

end backlog

/-- The events of the batch whose handlers have yet to do their work; `served` tells whether
the one that is running has done it. -/
def RunloopControl.ahead (served : Bool) : RunloopControl → List Watcher
  | .batch evs => evs
  | .handling wref rest => if served then rest else wref :: rest
  | _ => []

/-- The handler of `wref` is running. -/
def RunloopControl.handles (wref : Watcher) : RunloopControl → Bool
  | .handling other _ => other = wref
  | _ => false

theorem RunloopControl.handles_eq {c : RunloopControl} {wref : Watcher} (h : c.handles wref = true) :
    ∃ rest, c = .handling wref rest := by
  cases c with
  | handling other rest =>
    obtain rfl : other = wref := of_decide_eq_true h
    exact ⟨rest, rfl⟩
  | before | top | waiting | batch | draining | executing | exited => cases h

/-- Its code has control until it returns. -/
theorem handles_step {w t : RunloopWorld} {e : RunloopEvent} (hs : RunloopStep w e t) {qw : Watcher}
    (hc : w.control.handles qw = true) : e = .ret ∨ t.control = w.control := by
  obtain ⟨rest, hc⟩ := RunloopControl.handles_eq hc
  cases hs with
  | post | register | deregister | close => exact .inr rfl
  | handled => exact .inl rfl
  | executedLast | executedMore => exact .inl rfl
  | run hc' | exit hc' | wait hc' | drain hc' | epollStops _ _ hc' | epollEvents _ hc' | batchDone hc'
    | dispatch _ _ hc' | drained hc' | execute _ _ hc' =>
    rw [hc] at hc'
    cases hc'

/-- `epoll_wait` reports `wref`. -/
def RunloopEvent.reports (wref : Watcher) : RunloopEvent → Bool
  | .epollReturns (.events evs) => wref ∈ evs
  | _ => false

theorem reports_registered {w : RunloopWorld} {e : RunloopEvent} (he : w.Enabled e) {qw : Watcher}
    (hreports : e.reports qw = true) : w.table.Registered qw := by
  cases e with
  | epollReturns result =>
    cases result with
    | events evs => exact he.2.2.2 qw (of_decide_eq_true hreports)
    | interrupted | failed | none => cases hreports
  | post | register | deregister | close | run | step | ret => cases hreports

/-- A handler's work is forgotten when it returns. -/
def RunloopEvent.served (served : Bool) : RunloopEvent → Bool
  | .ret => false
  | _ => served

@[simp] theorem served_false (e : RunloopEvent) : e.served false = false := by
  cases e <;> rfl

/-- Only `epoll_wait` brings new events; every other step leaves some of those there were. -/
theorem ahead_step {w t : RunloopWorld} {e : RunloopEvent} (hs : RunloopStep w e t) (served : Bool) :
    (t.control.ahead (e.served served)).Sublist (w.control.ahead served) ∨
      ∃ evs, e = .epollReturns (.events evs) ∧ evs.Nodup ∧ t.control = .batch evs := by
  cases hs with
  | post | register | deregister | close => exact .inl (List.Sublist.refl _)
  | run | exit | wait | drain | epollStops | drained | execute | executedLast | executedMore =>
    exact .inl (List.nil_sublist _)
  | epollEvents evs hc hne hnd hr => exact .inr ⟨evs, rfl, hnd, rfl⟩
  | batchDone hc => exact .inl (List.nil_sublist _)
  | dispatch wref rest hc hr =>
    rw [hc]
    cases served with
    | false => exact .inl (List.Sublist.refl _)
    | true => exact .inl (List.sublist_cons_self wref rest)
  | handled wref rest hc =>
    rw [hc]
    cases served with
    | false => exact .inl (List.sublist_cons_self wref rest)
    | true => exact .inl (List.Sublist.refl _)

/-- The event to be dispatched next, if it is not one of `qw`, is that of a registered watcher. -/
def RunloopWorld.OthersRegistered (w : RunloopWorld) (qw : Watcher) : Prop :=
  ∀ wref rest, w.control = .batch (wref :: rest) → wref ≠ qw → w.table.Registered wref

/-- The loop goes on where also `qw` is registered when it is to be dispatched. -/
theorem RunloopWorld.Ordered.goes_beside {w : RunloopWorld} {pending : List Functor}
    (h : w.Ordered pending) {e : RunloopEvent} (he : w.Enabled e) (qw : Watcher)
    (hqw : ∀ rest, w.control = .batch (qw :: rest) → w.table.Registered qw)
    (hothers : e = .step → w.OthersRegistered qw) : ∃ t, w.exec e = .ok t := by
  apply h.goes he
  intro hstep wref rest hc
  by_cases heq : wref = qw
  · subst heq
    exact hqw rest hc
  · exact hothers hstep wref rest hc heq

/-- A batch has no event twice, and `a` holds if it still has one of `qw` to serve. -/
structure RunloopControl.Announces (c : RunloopControl) (served : Bool) (qw : Watcher) (a : Prop) :
    Prop where
  distinct : (c.ahead served).Nodup
  announced : qw ∈ c.ahead served → a

section announces

variable {c : RunloopControl} {served : Bool} {qw : Watcher} {a b : Prop}

theorem RunloopControl.Announces.imp (h : c.Announces served qw a) (hab : a → b) :
    c.Announces served qw b :=
  ⟨h.distinct, fun hmem => hab (h.announced hmem)⟩

theorem RunloopControl.Announces.step {w t : RunloopWorld} {e : RunloopEvent}
    (h : w.control.Announces served qw a) (hs : RunloopStep w e t)
    (hreport : e.reports qw = true → a) : t.control.Announces (e.served served) qw a := by
  rcases ahead_step hs served with hsub | ⟨evs, rfl, hnodup, hbatch⟩
  · exact ⟨hsub.nodup h.distinct, fun hmem => h.announced (hsub.subset hmem)⟩
  · rw [hbatch]
    exact ⟨hnodup, fun hmem => hreport (decide_eq_true hmem)⟩

/-- While the handler of `qw` has its work to do, `a` holds. -/
theorem RunloopControl.Announces.handles (h : c.Announces false qw a) (hc : c.handles qw = true) :
    a := by
  obtain ⟨rest, rfl⟩ := RunloopControl.handles_eq hc
  exact h.announced List.mem_cons_self

/-- Once it has done it, the rest of the batch has no event of `qw`. -/
theorem RunloopControl.Announces.serve (h : c.Announces false qw a) (hc : c.handles qw = true) :
    c.Announces true qw b := by
  obtain ⟨rest, rfl⟩ := RunloopControl.handles_eq hc
  have hdistinct : (qw :: rest).Nodup := h.distinct
  exact ⟨hdistinct.tail, fun hmem => absurd hmem hdistinct.notMem⟩

end announces

/-- The descriptor whose entry in the table an event changes. -/
def RunloopEvent.tableFd : RunloopEvent → Option ℕ
  | .register wref | .deregister wref => some wref.fd
  | _ => none

theorem entry_step {w t : RunloopWorld} {e : RunloopEvent} (hs : RunloopStep w e t) {fd : ℕ}
    (hne : e.tableFd ≠ some fd) : t.table.entries[fd]? = w.table.entries[fd]? := by
  cases hs with
  | register wref hu hfree =>
    have hfd : wref.fd ≠ fd := fun heq => hne (congrArg some heq)
    exact List.getElem?_set_ne hfd
  | deregister wref hu hreg =>
    have hfd : wref.fd ≠ fd := fun heq => hne (congrArg some heq)
    exact List.getElem?_set_ne hfd
  | post | close | run | exit | wait | drain | epollStops | epollEvents | batchDone | dispatch
    | handled | drained | execute | executedLast | executedMore => rfl

/-- Two registered watchers with one descriptor are the same. -/
theorem FdTable.Registered.eq {table : FdTable} {a b : Watcher} (ha : table.Registered a)
    (hb : table.Registered b) (hfd : a.fd = b.fd) : a = b := by
  have ha' : table.entries[a.fd]? = some (some a) := ha
  have hb' : table.entries[b.fd]? = some (some b) := hb
  rw [hfd, hb'] at ha'
  exact (Option.some.inj (Option.some.inj ha')).symm

/-- Application code that does not deregister `qw` leaves it registered. -/
theorem registered_step {w t : RunloopWorld} {e : RunloopEvent} (hs : RunloopStep w e t)
    {qw : Watcher} (hr : w.table.Registered qw) (hne : e ≠ .deregister qw) :
    t.table.Registered qw := by
  have hfd : e.tableFd ≠ some qw.fd := by
    cases hs with
    | register wref hu hfree =>
      intro heq
      rw [Option.some.inj heq, show w.table.entries[qw.fd]? = some (some qw) from hr] at hfree
      cases hfree
    | deregister wref hu hreg =>
      intro heq
      exact hne (congrArg _ (hreg.eq hr (Option.some.inj heq)))
    | post | close | run | exit | wait | drain | epollStops | epollEvents | batchDone | dispatch
      | handled | drained | execute | executedLast | executedMore => simp [RunloopEvent.tableFd]
  exact (entry_step hs hfd).trans hr

/-- Who called `runloop_post`: the application on the loop's own thread, or
`itqueue_postable` with a function of the queue. -/
inductive PostOrigin where
  | application
  | queue
  deriving DecidableEq, Repr

/-- The functions of `fs` whose entry in `origins` is `o`. -/
def fromOrigin (o : PostOrigin) (fs : List Functor) (origins : List PostOrigin) : List Functor :=
  ((fs.zip origins).filter fun x => x.2 = o).map Prod.fst

theorem fromOrigin_append (o : PostOrigin) (fs gs : List Functor) (origins origins' : List PostOrigin)
    (hlength : fs.length = origins.length) :
    fromOrigin o (fs ++ gs) (origins ++ origins') =
      fromOrigin o fs origins ++ fromOrigin o gs origins' := by
  rw [fromOrigin, List.zip_append hlength, List.filter_append, List.map_append]
  rfl

/-- The list of origins may go on past the functions. -/
theorem fromOrigin_take (o : PostOrigin) (fs : List Functor) (origins : List PostOrigin) :
    fromOrigin o fs (origins.take fs.length) = fromOrigin o fs origins := by
  induction fs generalizing origins with
  | nil => rfl
  | cons f fs ih =>
    cases origins with
    | nil => rfl
    | cons o' origins =>
      have hrest := ih origins
      simp only [fromOrigin, List.length_cons, List.take_succ_cons, List.zip_cons_cons,
        List.filter_cons] at hrest ⊢
      split_ifs
      · rw [List.map_cons, List.map_cons, hrest]
      · exact hrest

/-- Of the functions posted in one order, those of one origin are executed in that order. -/
theorem fromOrigin_prefix (o : PostOrigin) {fs gs : List Functor} (h : fs <+: gs)
    {origins : List PostOrigin} (hlength : gs.length = origins.length) :
    fromOrigin o fs origins <+: fromOrigin o gs origins := by
  obtain ⟨rest, rfl⟩ := h
  rw [List.length_append] at hlength
  have hsplit : fromOrigin o (fs ++ rest) origins =
      fromOrigin o fs (origins.take fs.length) ++ fromOrigin o rest (origins.drop fs.length) := by
    rw [← fromOrigin_append _ _ _ _ _ (by rw [List.length_take]; omega), List.take_append_drop]
  rw [hsplit, fromOrigin_take]
  exact List.prefix_append _ _

def functorIsEmpty (this : Functor) : Bool := this.f.isNone && this.arg.isNone

/-- The run loop, an `InterthreadQueue` on it with the watcher of its descriptor, and the
variable `queue_data` of a running `itqueue_postable`. The rest is history: who posted each
function of `loop.posted`, what was added, and how many announcements were read along with
an earlier one. -/
structure PostingWorld where
  loop : RunloopWorld
  queue : EventfdQueue Functor
  qwatcher : Watcher
  queueData : Option Functor
  origins : List PostOrigin
  added : List Functor
  merged : ℕ
  deriving DecidableEq, Repr

/-- `itqueue_add` in any thread, an event of the loop, and the two halves of
`itqueue_postable`, between which other threads may add. -/
inductive PostingEvent where
  | add (func : Functor)
  | loop (e : RunloopEvent)
  | remove
  | post
  deriving DecidableEq, Repr

/-- Other threads add functions with an argument, neither of them NULL, while fewer than 1023
are queued. The application does not touch the queue's watcher, whose handler is
`itqueue_postable`, and `epoll_wait` reports it when its descriptor is readable. -/
def PostingWorld.Enabled (w : PostingWorld) : PostingEvent → Prop
  | .add func => func.f.isSome ∧ func.arg.isSome ∧ functorListSize w.queue.list < 1023
  | .loop e => w.loop.Enabled e ∧ w.loop.control.handles w.qwatcher = false ∧
      e ≠ .deregister w.qwatcher ∧ (e.reports w.qwatcher = true → w.queue.Readable)
  | .remove => w.loop.control.handles w.qwatcher = true ∧ w.queueData = none
  | .post => w.loop.control.handles w.qwatcher = true ∧ w.queueData.isSome ∧
      functorListSize w.loop.readyList < 2047

instance PostingWorld.decidableEnabled (w : PostingWorld) (e : PostingEvent) :
    Decidable (w.Enabled e) :=
  match e with
  | .add func => inferInstanceAs (Decidable
      (func.f.isSome ∧ func.arg.isSome ∧ functorListSize w.queue.list < 1023))
  | .loop e => inferInstanceAs (Decidable (w.loop.Enabled e ∧
      w.loop.control.handles w.qwatcher = false ∧ e ≠ .deregister w.qwatcher ∧
      (e.reports w.qwatcher = true → w.queue.Readable)))
  | .remove => inferInstanceAs (Decidable
      (w.loop.control.handles w.qwatcher = true ∧ w.queueData = none))
  | .post => inferInstanceAs (Decidable (w.loop.control.handles w.qwatcher = true ∧
      w.queueData.isSome ∧ functorListSize w.loop.readyList < 2047))

/-- Up to the assertion about the functor that was taken. -/
def itqueuePostableRemove (w : PostingWorld) : Res PostingWorld := do
  let (op, queue) ← runloopEventfdQueueRemove w.queue
  let queueData := op.getD ⟨none, none⟩
  cAssert (!functorIsEmpty queueData) "!Functor_is_empty(&(queue_data))"
  .ok { w with
    queue := queue
    queueData := some queueData
    merged := w.merged+(w.queue.counter-1) }

/-- The call of `runloop_post`, and the return to the loop. -/
def itqueuePostablePost (w : PostingWorld) : Res PostingWorld :=
  match w.queueData with
  | none => .ok w
  | some queueData => do
    let loop ← w.loop.exec (.post queueData)
    let loop ← loop.exec .ret
    .ok { w with loop := loop, queueData := none, origins := w.origins ++ [.queue] }

/-- The origin of what an event of the loop posts. -/
def RunloopEvent.origin : RunloopEvent → List PostOrigin
  | .post _ => [.application]
  | _ => []

def PostingWorld.exec (w : PostingWorld) : PostingEvent → Res PostingWorld
  | .add func => do
    let queue ← runloopEventfdQueueAdd w.queue func
    .ok { w with queue := queue, added := w.added ++ [func] }
  | .loop e => do
    let loop ← w.loop.exec e
    .ok { w with loop := loop, origins := w.origins ++ e.origin }
  | .remove => itqueuePostableRemove w
  | .post => itqueuePostablePost w

def postingMachine : Machine PostingWorld PostingEvent Fault :=
  ⟨PostingWorld.Enabled, PostingWorld.exec⟩

instance PostingWorld.decidableMachine (w : PostingWorld) (e : PostingEvent) :
    Decidable (postingMachine.enabled w e) :=
  inferInstanceAs (Decidable (w.Enabled e))

/-- `pending` functions wait in the loop's list and `xs` in the queue. An event of the queue
that the batch still has to serve is one that the counter announces. -/
structure PostingWorld.Carries (w : PostingWorld) (pending xs : List Functor) : Prop where
  loop : w.loop.Ordered pending
  queue : w.queue.Backlog xs w.merged
  origins : w.loop.posted.length = w.origins.length
  history : w.added = fromOrigin .queue w.loop.posted w.origins ++ w.queueData.toList ++ xs
  callable : ∀ func ∈ w.added, func.f.isSome ∧ func.arg.isSome
  registered : w.loop.table.Registered w.qwatcher
  taken : w.queueData ≠ none → w.loop.control.handles w.qwatcher = true
  batch : w.loop.control.Announces w.queueData.isSome w.qwatcher (0 < w.queue.counter)

section step

variable {w t : PostingWorld} {pending xs : List Functor}

/-- An event of the loop posts a function exactly if it has an origin. -/
theorem posted_step {u v : RunloopWorld} {e : RunloopEvent} (hs : RunloopStep u e v) :
    ∃ fs, v.posted = u.posted ++ fs ∧ fs.length = e.origin.length := by
  cases hs with
  | post func => exact ⟨[func], rfl, rfl⟩
  | register | deregister | close | run | exit | wait | drain | epollStops | epollEvents | batchDone
    | dispatch | handled | drained | execute | executedLast | executedMore =>
    exact ⟨[], (List.append_nil _).symm, rfl⟩

/-- The origins of the loop's own events are never the queue. -/
theorem fromOrigin_origin (e : RunloopEvent) (fs : List Functor) :
    fromOrigin .queue fs e.origin = [] := by
  cases e with
  | post func =>
    cases fs with
    | nil => rfl
    | cons f fs => simp [fromOrigin, RunloopEvent.origin]
  | register | deregister | close | run | step | epollReturns | ret =>
    show fromOrigin .queue fs [] = []
    rw [fromOrigin, List.zip_nil_right]
    rfl

/-- `itqueue_add` in another thread changes the queue and nothing of the loop. -/
theorem PostingWorld.Carries.add (h : w.Carries pending xs) {func : Functor}
    (he : w.Enabled (.add func)) :
    ∃ t, w.exec (.add func) = .ok t ∧ t.Carries pending (xs ++ [func]) := by
  obtain ⟨hf, ha, hroom⟩ := he
  obtain ⟨queue, hadd, hqueue, hcounter⟩ := h.queue.add hroom func
  refine ⟨{ w with queue := queue, added := w.added ++ [func] },
    by rw [PostingWorld.exec, hadd, ok_bind], h.loop, hqueue, h.origins, ?_, ?_, h.registered,
    h.taken, h.batch.imp ?_⟩
  · show w.added ++ [func] = _
    rw [h.history, List.append_assoc]
  · intro g hg
    rcases List.mem_append.mp hg with hold | hnew
    · exact h.callable g hold
    · obtain rfl := List.mem_singleton.mp hnew
      exact ⟨hf, ha⟩
  · intro _
    show 0 < queue.counter
    rw [hcounter]
    exact Nat.succ_pos _

/-- An event of the loop itself, apart from the queue's handler. -/
theorem PostingWorld.Carries.loopStep (h : w.Carries pending xs) {e : RunloopEvent}
    {loop : RunloopWorld} (he : w.Enabled (.loop e)) (hx : w.loop.exec e = .ok loop) :
    ∃ pending', ({ w with loop := loop, origins := w.origins ++ e.origin } : PostingWorld).Carries
      pending' xs := by
  obtain ⟨henabled, hother, hleaves, hreport⟩ := he
  have hs : RunloopStep w.loop e loop := runloop_step _ _ _ henabled hx
  have hdata : w.queueData = none := by
    by_contra hne
    rw [h.taken hne] at hother
    cases hother
  have hbatch := h.batch.step hs hreport
  rw [hdata, Option.isSome_none, served_false] at hbatch
  obtain ⟨pending', hordered⟩ := runloop_ordered_step h.loop e hs
  obtain ⟨fs, hposted, hlength⟩ := posted_step hs
  refine ⟨pending', hordered, h.queue, ?_, ?_, h.callable, registered_step hs h.registered hleaves,
    fun hne => absurd hdata hne, ?_⟩
  · show loop.posted.length = (w.origins ++ e.origin).length
    rw [hposted, List.length_append, List.length_append, h.origins, hlength]
  · show w.added = fromOrigin .queue loop.posted (w.origins ++ e.origin) ++ w.queueData.toList ++ xs
    rw [hposted, fromOrigin_append _ _ _ _ _ h.origins, fromOrigin_origin, List.append_nil]
    exact h.history
  · show loop.control.Announces w.queueData.isSome w.qwatcher (0 < w.queue.counter)
    rw [hdata]
    exact hbatch

/-- The first half of `itqueue_postable` finds a function: its event was announced. -/
theorem PostingWorld.Carries.removes (h : w.Carries pending xs) (he : w.Enabled .remove) :
    ∃ t xs', w.exec .remove = .ok t ∧ t.Carries pending xs' := by
  obtain ⟨hhandles, hdata⟩ := he
  have hbatch : w.loop.control.Announces false w.qwatcher (0 < w.queue.counter) := by
    have hb := h.batch
    rwa [hdata] at hb
  have hcounter : 0 < w.queue.counter := hbatch.handles hhandles
  obtain ⟨func, ys, queue, rfl, hremove, hqueue, hzero⟩ := h.queue.remove hcounter
  have hmem : func ∈ w.added := by
    rw [h.history]
    exact List.mem_append_right _ List.mem_cons_self
  have hfull : (!functorIsEmpty func) = true := by
    rw [functorIsEmpty, Option.isNone_eq_false_iff.mpr (h.callable func hmem).1]
    rfl
  refine ⟨{ w with
      queue := queue
      queueData := some func
      merged := w.merged+(w.queue.counter-1) }, ys, ?_,
    ⟨h.loop, hqueue, h.origins, ?_, h.callable, h.registered, fun _ => hhandles,
      hbatch.serve hhandles⟩⟩
  · rw [PostingWorld.exec, itqueuePostableRemove, hremove, ok_bind]
    dsimp only [Option.getD_some]
    rw [hfull, cAssert_true, ok_bind]
  · show w.added = _ ++ [func] ++ ys
    rw [h.history, hdata, Option.toList_none, List.append_nil, List.append_assoc]
    rfl

/-- The second half posts what the first one took, and the batch goes on behind it. -/
theorem PostingWorld.Carries.posts (h : w.Carries pending xs) (he : w.Enabled .post) :
    ∃ t pending', w.exec .post = .ok t ∧ t.Carries pending' xs := by
  obtain ⟨hhandles, hsome, hroom⟩ := he
  obtain ⟨rest, hc⟩ := RunloopControl.handles_eq hhandles
  obtain ⟨func, hdata⟩ := Option.isSome_iff_exists.mp hsome
  have hhistory := h.history
  rw [hdata] at hhistory
  have hmem : func ∈ w.added := by
    rw [hhistory]
    exact List.mem_append_left _ (List.mem_append_right _ List.mem_cons_self)
  have hpost : w.loop.Enabled (.post func) :=
    ⟨by rw [hc]; rfl, hroom, h.callable func hmem⟩
  obtain ⟨posted, hexec⟩ := h.loop.adds func hpost
  have hs : RunloopStep w.loop (.post func) posted := runloop_step _ _ _ hpost hexec
  have hpc : posted.control = .handling w.qwatcher rest := by
    cases hs
    exact hc
  have hposted : posted.posted = w.loop.posted ++ [func] := by
    cases hs
    rfl
  have hret : posted.exec .ret = .ok { posted with control := .batch rest } := by
    simp only [RunloopWorld.exec, hpc]
  have hsret : RunloopStep posted .ret { posted with control := .batch rest } := .handled _ _ hpc
  obtain ⟨pending₁, hordered₁⟩ := runloop_ordered_step h.loop _ hs
  obtain ⟨pending₂, hordered₂⟩ := runloop_ordered_step hordered₁ _ hsret
  have hregistered : posted.table.Registered w.qwatcher :=
    registered_step hs h.registered (by simp)
  have hbatch : RunloopControl.Announces (.batch rest) false w.qwatcher (0 < w.queue.counter) := by
    have hb := h.batch
    rw [hc, hdata] at hb
    exact ⟨hb.distinct, hb.announced⟩
  refine ⟨{ w with
      loop := { posted with control := .batch rest }
      queueData := none
      origins := w.origins ++ [.queue] }, pending₂, ?_,
    ⟨hordered₂, h.queue, ?_, ?_, h.callable, hregistered, fun hne => absurd rfl hne, hbatch⟩⟩
  · simp only [PostingWorld.exec, itqueuePostablePost, hdata, hexec, ok_bind, hret]
  · show posted.posted.length = (w.origins ++ [PostOrigin.queue]).length
    rw [hposted, List.length_append, List.length_append, h.origins]
    rfl
  · show w.added = fromOrigin .queue posted.posted (w.origins ++ [.queue]) ++ [] ++ xs
    rw [hposted, fromOrigin_append _ _ _ _ _ h.origins, List.append_nil]
    exact hhistory

end step

/-- Whatever one step does, the functions that were added stay accounted for. -/
theorem PostingWorld.Carries.step {w : PostingWorld} {pending xs : List Functor}
    (h : w.Carries pending xs) (e : PostingEvent) (he : w.Enabled e) (t : PostingWorld)
    (hx : w.exec e = .ok t) : ∃ pending' xs', t.Carries pending' xs' := by
  cases e with
  | add func =>
    obtain ⟨t', hx', ht⟩ := h.add he
    obtain rfl := Except.ok.inj (hx.symm.trans hx')
    exact ⟨_, _, ht⟩
  | loop e =>
    obtain ⟨loop, hloop, hx⟩ := (bind_eq_ok _ _ _).mp hx
    obtain rfl := Except.ok.inj hx
    obtain ⟨pending', ht⟩ := h.loopStep he hloop
    exact ⟨pending', xs, ht⟩
  | remove =>
    obtain ⟨t', xs', hx', ht⟩ := h.removes he
    obtain rfl := Except.ok.inj (hx.symm.trans hx')
    exact ⟨_, xs', ht⟩
  | post =>
    obtain ⟨t', pending', hx', ht⟩ := h.posts he
    obtain rfl := Except.ok.inj (hx.symm.trans hx')
    exact ⟨pending', _, ht⟩

/-- The functions of the given origin that the loop has executed. -/
def PostingWorld.executedFrom (w : PostingWorld) (o : PostOrigin) : List Functor :=
  fromOrigin o w.loop.executed w.origins

/-- Every step goes through, but for the dispatch of an event whose watcher, another one, is not
registered any more. What the loop has executed for other threads are the first functions they
added, in order and once each. The queue holds one function for each announcement and one for
each announcement that was merged into another. A readable queue wakes the loop; if it sleeps
and the queue is not readable, everything was executed but as many of the functions added last
as announcements were merged. -/
structure PostingWorld.Delivers (w : PostingWorld) : Prop where
  goesOn : ∀ e, w.Enabled e → (e = .loop .step → w.loop.OthersRegistered w.qwatcher) →
    ∃ t, w.exec e = .ok t
  inOrder : w.executedFrom .queue <+: w.added
  size : functorListSize w.queue.list = w.queue.counter+w.merged
  wakes : w.loop.control = .waiting → w.queue.Readable →
    w.Enabled (.loop (.epollReturns (.events [w.qwatcher])))
  atRest : w.loop.control = .waiting → ¬w.queue.Readable →
    w.executedFrom .queue = w.added.take (w.added.length-w.merged) ∧ w.merged ≤ w.added.length ∧
      w.loop.executed = w.loop.posted

theorem PostingWorld.Carries.goes {w : PostingWorld} {pending xs : List Functor}
    (h : w.Carries pending xs) (e : PostingEvent) (he : w.Enabled e)
    (hothers : e = .loop .step → w.loop.OthersRegistered w.qwatcher) : ∃ t, w.exec e = .ok t := by
  cases e with
  | add func =>
    obtain ⟨t, hx, -⟩ := h.add he
    exact ⟨t, hx⟩
  | loop e =>
    obtain ⟨loop, hloop⟩ := h.loop.goes_beside he.1 w.qwatcher (fun _ _ => h.registered)
      fun hstep => hothers (congrArg _ hstep)
    exact ⟨_, by rw [PostingWorld.exec, hloop, ok_bind]⟩
  | remove =>
    obtain ⟨t, -, hx, -⟩ := h.removes he
    exact ⟨t, hx⟩
  | post =>
    obtain ⟨t, -, hx, -⟩ := h.posts he
    exact ⟨t, hx⟩

theorem PostingWorld.Carries.delivers {w : PostingWorld} {pending xs : List Functor}
    (h : w.Carries pending xs) : w.Delivers := by
  have hprefix : w.executedFrom .queue <+: fromOrigin .queue w.loop.posted w.origins :=
    fromOrigin_prefix _ ⟨pending, h.loop.history.symm⟩ h.origins
  refine ⟨h.goes, ?_, h.queue.size, ?_, ?_⟩
  · rw [h.history, List.append_assoc]
    exact hprefix.trans (List.prefix_append _ _)
  · intro hc hreadable
    have hlone : ∀ wref ∈ [w.qwatcher], w.loop.table.Registered wref := by
      intro wref hmem
      obtain rfl := List.mem_singleton.mp hmem
      exact h.registered
    refine ⟨⟨hc, List.cons_ne_nil _ _, List.nodup_singleton _, hlone⟩, ?_, by simp, fun _ => hreadable⟩
    rw [hc]
    rfl
  · intro hc hquiet
    have hdata : w.queueData = none := by
      by_contra hne
      have hhandles := h.taken hne
      rw [hc] at hhandles
      cases hhandles
    have hpending : pending = [] := h.loop.waiting hc
    have hexecuted : w.loop.executed = w.loop.posted := by
      rw [h.loop.history, hpending, List.append_nil]
    have hxs : xs.length = w.merged := by
      have hcounted := h.queue.counted
      rw [EventfdQueue.Readable] at hquiet
      omega
    have hadded : w.added = w.executedFrom .queue ++ xs := by
      rw [h.history, hdata, Option.toList_none, List.append_nil, PostingWorld.executedFrom, hexecuted]
    refine ⟨?_, ?_, hexecuted⟩
    · rw [hadded, List.length_append, hxs, Nat.add_sub_cancel, List.take_left]
    · rw [hadded, List.length_append, hxs]
      exact Nat.le_add_left _ _

end CHttp
