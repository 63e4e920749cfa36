import CHttp.FunctorList

/-! The queue by which other threads hand functions to a run loop: a functor list and an
eventfd, both changed only under the queue's mutex, so that each call is one step. -/
namespace CHttp

/-- `EventfdQueue`. `counter` is what the kernel keeps for the eventfd. -/
structure EventfdQueue (α : Type) where
  list : FunctorList α
  counter : ℕ
  deriving DecidableEq, Repr

section model

variable {α : Type}

def runloopEventfdQueueInit (α : Type) : Res (EventfdQueue α) := do
  let list ← functorListNew α runloopMaxFds
  .ok ⟨list, 0⟩

def runloopEventfdQueueAdd (athis : EventfdQueue α) (item : α) : Res (EventfdQueue α) := do
  let list ← functorListAdd athis.list item
  .ok ⟨list, athis.counter+1⟩

/-- One functor is taken, or `none` for the empty one, but `read` takes the whole counter. -/
def runloopEventfdQueueRemove (athis : EventfdQueue α) : Res (Option α × EventfdQueue α) :=
  if functorListSize athis.list > 0 then do
    let (op, list) ← functorListRemove athis.list
    .ok (some op, ⟨list, 0⟩)
  else .ok (none, ⟨athis.list, 0⟩)

/-- The descriptor is readable. -/
def EventfdQueue.Readable (athis : EventfdQueue α) : Prop := 0 < athis.counter

instance (athis : EventfdQueue α) : Decidable athis.Readable :=
  inferInstanceAs (Decidable (0 < athis.counter))

/-- The queue, whether the run loop is about to run `itqueue_postable` for a readiness
event, and the functions it has posted. -/
structure ItqueueWorld (α : Type) where
  queue : EventfdQueue α
  dispatched : Bool
  posted : List α
  deriving DecidableEq, Repr

inductive ItqueueEvent (α : Type) where
  | add (func : α)
  | ready
  | postable
  deriving DecidableEq, Repr

/-- Any thread may add while fewer than 1023 items are queued; the run loop is told of
the descriptor when it is readable, and then runs `itqueue_postable` once. -/
def ItqueueWorld.Enabled (w : ItqueueWorld α) : ItqueueEvent α → Prop
  | .add _ => functorListSize w.queue.list < 1023
  | .ready => w.queue.Readable ∧ w.dispatched = false
  | .postable => w.dispatched = true

def itqueuePostable (w : ItqueueWorld α) : Res (ItqueueWorld α) := do
  let (func, queue) ← runloopEventfdQueueRemove w.queue
  match func with
  | none => .error (.assertion "!Functor_is_empty(&(queue_data))")
  | some func => .ok ⟨queue, false, w.posted ++ [func]⟩

def ItqueueWorld.exec (w : ItqueueWorld α) : ItqueueEvent α → Res (ItqueueWorld α)
  | .add func => do
    let queue ← runloopEventfdQueueAdd w.queue func
    .ok { w with queue := queue }
  | .ready => .ok { w with dispatched := true }
  | .postable => itqueuePostable w

def itqueueMachine (α : Type) : Machine (ItqueueWorld α) (ItqueueEvent α) Fault :=
  ⟨ItqueueWorld.Enabled, ItqueueWorld.exec⟩

instance (w : ItqueueWorld α) (e : ItqueueEvent α) : Decidable ((itqueueMachine α).enabled w e) :=
  match e with
  | .add _ => inferInstanceAs (Decidable (functorListSize w.queue.list < 1023))
  | .ready => inferInstanceAs (Decidable (w.queue.Readable ∧ w.dispatched = false))
  | .postable => inferInstanceAs (Decidable (w.dispatched = true))

/-- A queued item is announced by the descriptor. -/
def ItqueueWorld.NotStranded (w : ItqueueWorld α) : Prop :=
  functorListSize w.queue.list ≠ 0 → w.queue.Readable

/-- `itqueue_postable` finds no second item. -/
def ItqueueEvent.TakesAll (w : ItqueueWorld α) : ItqueueEvent α → Prop
  | .postable => functorListSize w.queue.list ≤ 1
  | _ => True

instance (w : ItqueueWorld α) (e : ItqueueEvent α) : Decidable (e.TakesAll w) :=
  match e with
  | .postable => inferInstanceAs (Decidable (functorListSize w.queue.list ≤ 1))
  | .add _ | .ready => inferInstanceAs (Decidable True)

/-- The list holds `xs`, and the counter has counted no more adds than that. -/
structure ItqueueWorld.Queues (w : ItqueueWorld α) (xs : List α) : Prop where
  holds : w.queue.list.Holds runloopMaxFds xs
  counted : w.queue.counter ≤ xs.length
  announced : w.dispatched = true → 0 < w.queue.counter

/-- What an event adds to the queue. -/
def ItqueueEvent.added : ItqueueEvent α → Option α
  | .add func => some func
  | .ready | .postable => none

/-- What one step does to the queued items. The assertions in its way hold. -/
theorem itqueue_step (w : ItqueueWorld α) (xs : List α) (h : w.Queues xs) (e : ItqueueEvent α)
    (he : w.Enabled e) :
    ∃ t ys, w.exec e = .ok t ∧ t.Queues ys ∧ t.posted ++ ys = w.posted ++ xs ++ e.added.toList ∧
      match e with
      | .add func => ys = xs ++ [func] ∧ t.queue.Readable
      | .ready => ys = xs ∧ t.queue = w.queue
      | .postable => (∃ func, xs = func :: ys) ∧ t.queue.counter = 0 := by
  cases e with
  | add func =>
    have hroom : xs.length < 1023 := by
      have hsize : functorListSize w.queue.list < 1023 := he
      rwa [functorListSize_eq h.holds] at hsize
    obtain ⟨list, hadd, hholds⟩ := functorListAdd_holds h.holds
      (show xs.length+1 < 1024 by omega) func
    refine ⟨{ w with queue := ⟨list, w.queue.counter+1⟩ }, xs ++ [func], ?_,
      ⟨hholds, ?_, fun _ => Nat.succ_pos _⟩, (List.append_assoc _ _ _).symm, rfl, Nat.succ_pos _⟩
    · simp only [ItqueueWorld.exec, runloopEventfdQueueAdd, hadd, ok_bind]
    · rw [List.length_append, List.length_singleton]
      exact Nat.succ_le_succ h.counted
  | ready =>
    exact ⟨_, xs, rfl, ⟨h.holds, h.counted, fun _ => he.1⟩, (List.append_nil _).symm, rfl, rfl⟩
  | postable =>
    have hcount := h.announced he
    have hle := h.counted
    obtain ⟨func, ys, rfl⟩ : ∃ func ys, xs = func :: ys :=
      List.exists_cons_of_length_pos (by omega)
    obtain ⟨list, hremove, hholds⟩ := functorListRemove_holds h.holds
    have hsize : functorListSize w.queue.list > 0 := by
      rw [functorListSize_eq h.holds]
      exact Nat.succ_pos _
    refine ⟨⟨⟨list, 0⟩, false, w.posted ++ [func]⟩, ys, ?_, ⟨hholds, Nat.zero_le _, nofun⟩, ?_,
      ⟨func, rfl⟩, rfl⟩
    · simp only [ItqueueWorld.exec, itqueuePostable, runloopEventfdQueueRemove, hsize, if_true,
        hremove, ok_bind]
    · simp [ItqueueEvent.added]

/-- One step from a state where nothing is stranded. -/
theorem notStranded_step (w t : ItqueueWorld α) (xs : List α) (h : w.Queues xs)
    (hp : w.NotStranded) (e : ItqueueEvent α) (he : w.Enabled e) (hx : w.exec e = .ok t) :
    Machine.HoldsIff ItqueueWorld.NotStranded (fun u => ∃ ys, u.Queues ys) t (e.TakesAll w) := by
  obtain ⟨t', ys, hx', hq, -, hspec⟩ := itqueue_step w xs h e he
  obtain rfl := Except.ok.inj (hx.symm.trans hx')
  refine ⟨?_, fun _ => ⟨ys, hq⟩⟩
  cases e with
  | add func => exact iff_of_true (fun _ => hspec.2) trivial
  | ready =>
    refine iff_of_true ?_ trivial
    rw [ItqueueWorld.NotStranded, hspec.2]
    exact hp
  | postable =>
    obtain ⟨⟨func, rfl⟩, hzero⟩ := hspec
    rw [ItqueueWorld.NotStranded, EventfdQueue.Readable, hzero, functorListSize_eq hq.holds,
      ItqueueEvent.TakesAll, functorListSize_eq h.holds, List.length_cons]
    omega

/-- Over a run the posted functions and the queued ones are what was added, in order. -/
theorem itqueue_run (w t : ItqueueWorld α) (es : List (ItqueueEvent α))
    (h : (itqueueMachine α).Run w es t) (xs : List α) (hq : w.Queues xs) :
    ∃ ys, t.Queues ys ∧ t.posted ++ ys = w.posted ++ xs ++ es.filterMap ItqueueEvent.added := by
  induction h generalizing xs with
  | nil w => exact ⟨xs, hq, (List.append_nil _).symm⟩
  | @cons w u t e es he hx _ ih =>
    obtain ⟨u', ys, hx', hqu, hposted, -⟩ := itqueue_step w xs hq e he
    obtain rfl := Except.ok.inj (hx.symm.trans hx')
    obtain ⟨zs, hqt, hall⟩ := ih ys hqu
    refine ⟨zs, hqt, ?_⟩
    rw [hall, hposted, List.filterMap_cons]
    cases e.added with
    | none => rw [Option.toList_none, List.append_nil]
    | some func => rw [Option.toList_some, List.append_assoc _ [func], List.singleton_append]

theorem runloopEventfdQueueInit_queues (queue : EventfdQueue α)
    (hinit : runloopEventfdQueueInit α = .ok queue) : (ItqueueWorld.mk queue false []).Queues [] := by
  obtain ⟨list, hnew, hholds⟩ := functorListNew_holds (α := α) runloopMaxFds (by decide) (by decide)
  simp only [runloopEventfdQueueInit, hnew, ok_bind] at hinit
  obtain rfl := Except.ok.inj hinit
  exact ⟨hholds, le_rfl, nofun⟩

end model

/-- In every state of a run a positive counter means that something is queued, the next call
of `itqueue_postable` and every other step goes through, and the functions posted so far
are the first ones added, in order. -/
theorem itqueue_in_order (α : Type) (queue : EventfdQueue α)
    (hinit : runloopEventfdQueueInit α = .ok queue) (es : List (ItqueueEvent α))
    (w : ItqueueWorld α) (h : (itqueueMachine α).Run ⟨queue, false, []⟩ es w) :
    (w.queue.Readable → functorListSize w.queue.list ≠ 0) ∧
      (∀ e, (itqueueMachine α).enabled w e → ∃ t, (itqueueMachine α).exec w e = .ok t) ∧
      w.posted <+: es.filterMap ItqueueEvent.added := by
  obtain ⟨ys, hq, hall⟩ := itqueue_run _ w es h [] (runloopEventfdQueueInit_queues queue hinit)
  refine ⟨fun hpos => ?_, fun e he => ?_, ys, hall⟩
  · have hcounted := hq.counted
    rw [EventfdQueue.Readable] at hpos
    rw [functorListSize_eq hq.holds]
    omega
  · obtain ⟨t, _, hx, -⟩ := itqueue_step w ys hq e he
    exact ⟨t, hx⟩

/-- Two adds, of which one has been posted. -/
theorem itqueue_in_order_two :
    ∃ queue w, runloopEventfdQueueInit ℕ = .ok queue ∧
      (itqueueMachine ℕ).Run ⟨queue, false, []⟩ [.add 7, .ready, .add 8, .postable] w ∧
      w.posted = [7] ∧ w.posted <+: [7, 8] := by
  have hrun : ∃ w, (itqueueMachine ℕ).Run ⟨⟨⟨1024, 0, 0, List.replicate 1025 none⟩, 0⟩, false, []⟩
      [.add 7, .ready, .add 8, .postable] w ∧ w.posted = [7] :=
    Machine.exists_run_of_replay _ (by decide +kernel)
  obtain ⟨w, hrun, hposted⟩ := hrun
  exact ⟨_, w, rfl, hrun, hposted, (itqueue_in_order ℕ _ rfl _ w hrun).2.2⟩

/-- In every state of a run a queued item keeps the descriptor readable, exactly when
`itqueue_postable` never runs with more than one item queued. -/
theorem itqueue_not_stranded_iff (α : Type) (queue : EventfdQueue α)
    (hinit : runloopEventfdQueueInit α = .ok queue) (es : List (ItqueueEvent α))
    (w : ItqueueWorld α) (h : (itqueueMachine α).Run ⟨queue, false, []⟩ es w) :
    (itqueueMachine α).Always ItqueueWorld.NotStranded ⟨queue, false, []⟩ es ↔
      ((itqueueMachine α).restrict fun u e => e.TakesAll u).Run ⟨queue, false, []⟩ es w := by
  have hempty := runloopEventfdQueueInit_queues queue hinit
  refine h.always_iff (J := fun u => ∃ xs, u.Queues xs) ?_ ⟨[], hempty⟩
    (fun hne => absurd (functorListSize_eq hempty.holds) hne)
  rintro u e t ⟨xs, hq⟩ hp he hx
  exact notStranded_step u t xs hq hp e he hx

theorem itqueue_one_at_a_time :
    ∃ queue w, runloopEventfdQueueInit ℕ = .ok queue ∧
      (itqueueMachine ℕ).Run ⟨queue, false, []⟩ [.add 7, .ready, .postable, .add 8] w ∧
      (itqueueMachine ℕ).Always ItqueueWorld.NotStranded ⟨queue, false, []⟩
        [.add 7, .ready, .postable, .add 8] := by
  have hrun : ∃ w, ((itqueueMachine ℕ).restrict fun u e => e.TakesAll u).Run
      ⟨⟨⟨1024, 0, 0, List.replicate 1025 none⟩, 0⟩, false, []⟩
      [.add 7, .ready, .postable, .add 8] w :=
    Machine.exists_run_of_isSome (by decide +kernel)
  obtain ⟨w, hrun⟩ := hrun
  exact ⟨_, w, rfl, hrun.of_restrict,
    (itqueue_not_stranded_iff ℕ _ rfl _ w hrun.of_restrict).mpr hrun⟩

/-- Two adds before the run loop looks: one function is posted, the other stays behind
with the descriptor not readable. -/
theorem itqueue_second_stranded :
    ∃ queue, runloopEventfdQueueInit ℕ = .ok queue ∧
      ∃ w, (itqueueMachine ℕ).Run ⟨queue, false, []⟩ [.add 7, .add 8, .ready, .postable] w ∧
        functorListSize w.queue.list = 1 ∧ w.posted = [7] ∧ ¬w.queue.Readable :=
  ⟨_, rfl, Machine.exists_run_of_replay _ (by decide +kernel)⟩

end CHttp
