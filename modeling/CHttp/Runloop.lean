import CHttp.FunctorList

/-! `Runloop`: the table of registered descriptors, the list of posted functions, and
`runloop_run` taken apart at every place where it calls out. -/
namespace CHttp

/-- A `RunloopWatcherBase`, named by its address, and its descriptor. -/
structure Watcher where
  ptr : ℕ
  fd : ℕ
  deriving DecidableEq, Repr

/-- `FdTable_s`. An entry that is NULL is `none`. -/
structure FdTable where
  count : ℕ
  entries : List (Option Watcher)
  deriving DecidableEq, Repr

def runloopFdTableMax : ℕ := runloopMaxFds

def fdTableInit : FdTable := ⟨0, List.replicate runloopFdTableMax none⟩

def fdTableInsert (this : FdTable) (watcher : Watcher) (fd : ℕ) : Res FdTable :=
  match this.entries[fd]? with
  | none => .error .outOfBounds
  | some entry => do
    cAssert entry.isNone "this->entries[fd] == NULL"
    .ok ⟨this.count+1, this.entries.set fd (some watcher)⟩

def fdTableRemove (athis : FdTable) (fd : ℕ) : Res FdTable :=
  match athis.entries[fd]? with
  | none => .error .outOfBounds
  | some entry => do
    cAssert entry.isSome "athis->entries[fd] != NULL"
    .ok ⟨athis.count-1, athis.entries.set fd none⟩

/-- A missing entry is not reported to the caller but trips an assertion. -/
def fdTableLookup (this : FdTable) (fd : ℕ) : Res Watcher :=
  match this.entries[fd]? with
  | none => .error .outOfBounds
  | some none => .error (.assertion "this->entries[fd] != NULL")
  | some (some watcher) => .ok watcher

def fdTableSize (this : FdTable) : ℕ := this.count

/-- A function and its argument; `none` is NULL. -/
structure Functor where
  f : Option ℕ
  arg : Option ℕ
  deriving DecidableEq, Repr

def runloopPost (readyList : FunctorList Functor) (func : Functor) : Res (FunctorList Functor) := do
  cAssert func.f.isSome "cb != NULL"
  cAssert func.arg.isSome "arg != NULL"
  functorListAdd readyList func

def runloopRegister (table : FdTable) (wref : Watcher) : Res FdTable :=
  fdTableInsert table wref wref.fd

def runloopDeregister (table : FdTable) (fd : ℕ) : Res FdTable := do
  let _ ← fdTableLookup table fd
  fdTableRemove table fd

/-- What `epoll_wait` returns: -1 with EINTR, -1 with another errno, 0, or events. -/
inductive EpollResult where
  | interrupted
  | failed
  | none
  | events (evs : List Watcher)
  deriving DecidableEq, Repr

/-- Where `runloop_run` is. In `handling` and `executing` a handler or a posted function
is running; before the call of `runloop_run` the application sets things up. -/
inductive RunloopControl where
  | before
  | top
  | waiting
  | batch (evs : List Watcher)
  | handling (wref : Watcher) (rest : List Watcher)
  | draining
  | executing
  | exited (result : ℤ) (clean : Bool)
  deriving DecidableEq, Repr

/-- A handler's call, with the watcher found in the table at that moment. -/
structure HandlerCall where
  watcher : Watcher
  registered : Bool
  deriving DecidableEq, Repr

/-- The run loop, and the history of its posts and calls; `batchCalls` are the handlers
called since `epoll_wait` last returned. -/
structure RunloopWorld where
  table : FdTable
  readyList : FunctorList Functor
  closedFlag : Bool
  control : RunloopControl
  posted : List Functor
  executed : List Functor
  batchCalls : List HandlerCall
  deriving DecidableEq, Repr

def runloopInit : Res RunloopWorld := do
  let readyList ← functorListNew Functor runloopReadyListMax
  .ok ⟨fdTableInit, readyList, false, .before, [], [], []⟩

inductive RunloopEvent where
  | post (func : Functor)
  | register (wref : Watcher)
  | deregister (wref : Watcher)
  | close
  | run
  | step
  | epollReturns (r : EpollResult)
  | ret
  deriving DecidableEq, Repr

/-- Application code has control. -/
def RunloopControl.isUser : RunloopControl → Bool
  | .before | .handling _ _ | .executing => true
  | _ => false

def FdTable.Registered (this : FdTable) (wref : Watcher) : Prop :=
  this.entries[wref.fd]? = some (some wref)

instance (this : FdTable) (wref : Watcher) : Decidable (this.Registered wref) :=
  inferInstanceAs (Decidable (this.entries[wref.fd]? = some (some wref)))

/-- Application code posts what is not NULL while fewer than 2047 functions are pending,
registers watchers whose descriptor is free and deregisters registered ones. `epoll_wait`
reports each registered watcher at most once. -/
def RunloopWorld.Enabled (w : RunloopWorld) : RunloopEvent → Prop
  | .post func => w.control.isUser = true ∧ functorListSize w.readyList < 2047 ∧
      func.f.isSome ∧ func.arg.isSome
  | .register wref => w.control.isUser = true ∧ w.table.entries[wref.fd]? = some none
  | .deregister wref => w.control.isUser = true ∧ w.table.Registered wref
  | .close => w.control.isUser = true
  | .run => w.control = .before
  | .step => w.control = .top ∨ w.control = .draining ∨ ∃ evs, w.control = .batch evs
  | .epollReturns (.events evs) => w.control = .waiting ∧ evs ≠ [] ∧ evs.Nodup ∧
      ∀ wref ∈ evs, w.table.Registered wref
  | .epollReturns _ => w.control = .waiting
  | .ret => w.control = .executing ∨ ∃ wref rest, w.control = .handling wref rest

instance (c : RunloopControl) : Decidable (∃ evs, c = .batch evs) :=
  match c with
  | .batch evs => isTrue ⟨evs, rfl⟩
  | .before | .top | .waiting | .handling _ _ | .draining | .executing | .exited _ _ => isFalse nofun

instance (c : RunloopControl) : Decidable (∃ wref rest, c = .handling wref rest) :=
  match c with
  | .handling wref rest => isTrue ⟨wref, rest, rfl⟩
  | .before | .top | .waiting | .batch _ | .draining | .executing | .exited _ _ => isFalse nofun

instance RunloopWorld.decidableEnabled (w : RunloopWorld) (e : RunloopEvent) :
    Decidable (w.Enabled e) :=
  match e with
  | .post func => inferInstanceAs (Decidable (w.control.isUser = true ∧
      functorListSize w.readyList < 2047 ∧ func.f.isSome ∧ func.arg.isSome))
  | .register wref =>
    inferInstanceAs (Decidable (w.control.isUser = true ∧ w.table.entries[wref.fd]? = some none))
  | .deregister wref =>
    inferInstanceAs (Decidable (w.control.isUser = true ∧ w.table.Registered wref))
  | .close => inferInstanceAs (Decidable (w.control.isUser = true))
  | .run => inferInstanceAs (Decidable (w.control = .before))
  | .step => inferInstanceAs (Decidable
      (w.control = .top ∨ w.control = .draining ∨ ∃ evs, w.control = .batch evs))
  | .epollReturns (.events evs) => inferInstanceAs (Decidable (w.control = .waiting ∧ evs ≠ [] ∧
      evs.Nodup ∧ ∀ wref ∈ evs, w.table.Registered wref))
  | .epollReturns .interrupted | .epollReturns .failed | .epollReturns .none =>
    inferInstanceAs (Decidable (w.control = .waiting))
  | .ret => inferInstanceAs (Decidable
      (w.control = .executing ∨ ∃ wref rest, w.control = .handling wref rest))

def RunloopWorld.exec (w : RunloopWorld) (e : RunloopEvent) : Res RunloopWorld :=
  match e, w.control with
  | .post func, _ => do
    let readyList ← runloopPost w.readyList func
    .ok { w with readyList := readyList, posted := w.posted ++ [func] }
  | .register wref, _ => do
    let table ← runloopRegister w.table wref
    .ok { w with table := table }
  | .deregister wref, _ => do
    let table ← runloopDeregister w.table wref.fd
    .ok { w with table := table }
  | .close, _ => .ok { w with closedFlag := true }
  | .run, .before => .ok { w with control := .top }
  | .step, .top =>
    if fdTableSize w.table = 0 ∧ functorListSize w.readyList = 0 then
      .ok { w with control := .exited 0 true }
    -- posted functions go first, so that `epoll_wait` never delays them
    else if functorListSize w.readyList = 0 then .ok { w with control := .waiting }
    else .ok { w with control := .draining }
  | .epollReturns r, .waiting =>
    match r with
    | .interrupted => .ok { w with control := .exited (-1) false }
    -- a failure is what `runloop_close` in a handler leads to
    | .failed => .ok { w with control := .exited (if w.closedFlag then 0 else -1) false }
    | .none => .ok { w with control := .exited 0 false }
    | .events evs => .ok { w with control := .batch evs, batchCalls := [] }
  | .step, .batch [] => .ok { w with control := .top }
  | .step, .batch (wr :: rest) => do
    -- the event carries the watcher, the table has to agree with it
    let wref ← fdTableLookup w.table wr.fd
    cAssert (wr = wref) "wr == wref"
    .ok { w with
      control := .handling wref rest
      batchCalls := w.batchCalls ++ [⟨wref, w.table.Registered wref⟩] }
  | .ret, .handling _ rest => .ok { w with control := .batch rest }
  | .step, .draining =>
    if functorListSize w.readyList = 0 then .ok { w with control := .top }
    else do
      let (func, readyList) ← functorListRemove w.readyList
      .ok { w with
        readyList := readyList
        control := .executing
        executed := w.executed ++ [func] }
  | .ret, .executing =>
    if functorListSize w.readyList = 0 then .ok { w with control := .top }
    else .ok { w with control := .draining }
  | _, _ => .ok w

def runloopMachine : Machine RunloopWorld RunloopEvent Fault :=
  ⟨RunloopWorld.Enabled, RunloopWorld.exec⟩

instance (w : RunloopWorld) (e : RunloopEvent) : Decidable (runloopMachine.enabled w e) :=
  inferInstanceAs (Decidable (w.Enabled e))

/-- What an enabled event can do, apart from what `functor_list_add` and
`functor_list_remove` make of the list. -/
inductive RunloopStep (w : RunloopWorld) : RunloopEvent → RunloopWorld → Prop where
  | post (func : Functor) (readyList : FunctorList Functor) (hu : w.control.isUser = true)
      (hroom : functorListSize w.readyList < 2047)
      (hadd : functorListAdd w.readyList func = .ok readyList) :
      RunloopStep w (.post func)
        { w with readyList := readyList, posted := w.posted ++ [func] }
  | register (wref : Watcher) (hu : w.control.isUser = true)
      (hfree : w.table.entries[wref.fd]? = some none) :
      RunloopStep w (.register wref) { w with
        table := ⟨w.table.count+1, w.table.entries.set wref.fd (some wref)⟩ }
  | deregister (wref : Watcher) (hu : w.control.isUser = true) (hr : w.table.Registered wref) :
      RunloopStep w (.deregister wref) { w with
        table := ⟨w.table.count-1, w.table.entries.set wref.fd none⟩ }
  | close (hu : w.control.isUser = true) : RunloopStep w .close { w with closedFlag := true }
  | run (hc : w.control = .before) : RunloopStep w .run { w with control := .top }
  | exit (hc : w.control = .top) (ht : fdTableSize w.table = 0)
      (hl : functorListSize w.readyList = 0) :
      RunloopStep w .step { w with control := .exited 0 true }
  | wait (hc : w.control = .top) (hl : functorListSize w.readyList = 0) :
      RunloopStep w .step { w with control := .waiting }
  | drain (hc : w.control = .top) : RunloopStep w .step { w with control := .draining }
  | epollStops (r : EpollResult) (result : ℤ) (hc : w.control = .waiting) :
      RunloopStep w (.epollReturns r) { w with control := .exited result false }
  | epollEvents (evs : List Watcher) (hc : w.control = .waiting) (hne : evs ≠ [])
      (hnd : evs.Nodup) (hr : ∀ wref ∈ evs, w.table.Registered wref) :
      RunloopStep w (.epollReturns (.events evs))
        { w with control := .batch evs, batchCalls := [] }
  | batchDone (hc : w.control = .batch []) : RunloopStep w .step { w with control := .top }
  | dispatch (wref : Watcher) (rest : List Watcher) (hc : w.control = .batch (wref :: rest))
      (hr : w.table.Registered wref) :
      RunloopStep w .step { w with
        control := .handling wref rest
        batchCalls := w.batchCalls ++ [⟨wref, true⟩] }
  | handled (wref : Watcher) (rest : List Watcher) (hc : w.control = .handling wref rest) :
      RunloopStep w .ret { w with control := .batch rest }
  | drained (hc : w.control = .draining) : RunloopStep w .step { w with control := .top }
  | execute (func : Functor) (readyList : FunctorList Functor) (hc : w.control = .draining)
      (hremove : functorListRemove w.readyList = .ok (func, readyList)) :
      RunloopStep w .step { w with
        readyList := readyList
        control := .executing
        executed := w.executed ++ [func] }
  | executedLast (hc : w.control = .executing) : RunloopStep w .ret { w with control := .top }
  | executedMore (hc : w.control = .executing) :
      RunloopStep w .ret { w with control := .draining }

theorem fdTableLookup_eq_ok (this : FdTable) (fd : ℕ) (wref : Watcher) :
    fdTableLookup this fd = .ok wref ↔ this.entries[fd]? = some (some wref) := by
  unfold fdTableLookup
  split
  · simp [*]
  · simp [*]
  · simp [*]

theorem runloopDeregister_ok (table : FdTable) (wref : Watcher) (h : table.Registered wref) :
    runloopDeregister table wref.fd =
      .ok ⟨table.count-1, table.entries.set wref.fd none⟩ := by
  have hlookup := (fdTableLookup_eq_ok table wref.fd wref).mpr h
  have hentry : table.entries[wref.fd]? = some (some wref) := h
  simp only [runloopDeregister, hlookup, ok_bind, fdTableRemove, hentry, Option.isSome_some,
    cAssert_true]

theorem runloopRegister_ok (table : FdTable) (wref : Watcher)
    (h : table.entries[wref.fd]? = some none) :
    runloopRegister table wref =
      .ok ⟨table.count+1, table.entries.set wref.fd (some wref)⟩ := by
  simp only [runloopRegister, fdTableInsert, h, Option.isNone_none, cAssert_true, ok_bind]

theorem runloop_step_step (w t : RunloopWorld) (he : w.Enabled .step) (hx : w.exec .step = .ok t) :
    RunloopStep w .step t := by
  rcases he with hc | hc | ⟨evs, hc⟩
  · simp only [RunloopWorld.exec, hc] at hx
    split_ifs at hx with hexit hl
    · obtain rfl := Except.ok.inj hx
      exact .exit hc hexit.1 hexit.2
    · obtain rfl := Except.ok.inj hx
      exact .wait hc hl
    · obtain rfl := Except.ok.inj hx
      exact .drain hc
  · simp only [RunloopWorld.exec, hc] at hx
    split_ifs at hx with hl
    · obtain rfl := Except.ok.inj hx
      exact .drained hc
    · obtain ⟨⟨func, readyList⟩, hremove, hx⟩ := (bind_eq_ok _ _ _).mp hx
      obtain rfl := Except.ok.inj hx
      exact .execute func readyList hc hremove
  · cases evs with
    | nil =>
      simp only [RunloopWorld.exec, hc] at hx
      obtain rfl := Except.ok.inj hx
      exact .batchDone hc
    | cons wr rest =>
      simp only [RunloopWorld.exec, hc] at hx
      obtain ⟨wref, hlookup, hx⟩ := (bind_eq_ok _ _ _).mp hx
      rw [cAssert_bind_eq_ok, decide_eq_true_eq] at hx
      obtain ⟨rfl, hx⟩ := hx
      have hr : w.table.Registered wr := (fdTableLookup_eq_ok _ _ _).mp hlookup
      simp only [hr, decide_true] at hx
      obtain rfl := Except.ok.inj hx
      exact .dispatch wr rest hc hr

theorem runloop_step (w t : RunloopWorld) (e : RunloopEvent) (he : w.Enabled e)
    (hx : w.exec e = .ok t) : RunloopStep w e t := by
  cases e with
  | post func =>
    obtain ⟨hu, hroom, hf, ha⟩ := he
    simp only [RunloopWorld.exec, runloopPost, hf, ha, cAssert_true, ok_bind] at hx
    obtain ⟨readyList, hadd, hx⟩ := (bind_eq_ok _ _ _).mp hx
    obtain rfl := Except.ok.inj hx
    exact .post func readyList hu hroom hadd
  | register wref =>
    obtain ⟨hu, hfree⟩ := he
    simp only [RunloopWorld.exec, runloopRegister_ok _ _ hfree, ok_bind] at hx
    obtain rfl := Except.ok.inj hx
    exact .register wref hu hfree
  | deregister wref =>
    obtain ⟨hu, hr⟩ := he
    simp only [RunloopWorld.exec, runloopDeregister_ok _ _ hr, ok_bind] at hx
    obtain rfl := Except.ok.inj hx
    exact .deregister wref hu hr
  | close =>
    obtain rfl := Except.ok.inj hx
    exact .close he
  | run =>
    have hc : w.control = .before := he
    simp only [RunloopWorld.exec, hc] at hx
    obtain rfl := Except.ok.inj hx
    exact .run hc
  | step => exact runloop_step_step w t he hx
  | epollReturns r =>
    cases r with
    | interrupted =>
      have hc : w.control = .waiting := he
      simp only [RunloopWorld.exec, hc] at hx
      obtain rfl := Except.ok.inj hx
      exact .epollStops _ _ hc
    | failed =>
      have hc : w.control = .waiting := he
      simp only [RunloopWorld.exec, hc] at hx
      obtain rfl := Except.ok.inj hx
      exact .epollStops _ _ hc
    | none =>
      have hc : w.control = .waiting := he
      simp only [RunloopWorld.exec, hc] at hx
      obtain rfl := Except.ok.inj hx
      exact .epollStops _ _ hc
    | events evs =>
      obtain ⟨hc, hne, hnd, hr⟩ := he
      simp only [RunloopWorld.exec, hc] at hx
      obtain rfl := Except.ok.inj hx
      exact .epollEvents evs hc hne hnd hr
  | ret =>
    rcases he with hc | ⟨wref, rest, hc⟩
    · simp only [RunloopWorld.exec, hc] at hx
      split_ifs at hx
      · obtain rfl := Except.ok.inj hx
        exact .executedLast hc
      · obtain rfl := Except.ok.inj hx
        exact .executedMore hc
    · simp only [RunloopWorld.exec, hc] at hx
      obtain rfl := Except.ok.inj hx
      exact .handled wref rest hc

end CHttp
