import CHttp.Runloop

/-! The descriptors of a run loop twice over: in the kernel's epoll instance and in its
`FdTable`, with all functions of watchers that change them. -/
namespace CHttp

def epollIn : BitVec 64 := 0x001#64
def epollOut : BitVec 64 := 0x004#64
def epollErr : BitVec 64 := 0x008#64
def epollHup : BitVec 64 := 0x010#64
def epollRdHup : BitVec 64 := 0x2000#64
def epollExclusive : BitVec 64 := 0x10000000#64
def epollEt : BitVec 64 := 0x80000000#64

/-- `epoll_event`: the events, and the watcher that `data.ptr` points to. -/
structure EpollEvent where
  events : BitVec 32
  ptr : Watcher
  deriving DecidableEq, Repr

/-- An epoll instance. -/
abbrev EpollKernel := Finmap fun _ : ℕ => EpollEvent

/-- The event that comes with EPOLL_CTL_DEL is ignored. -/
inductive EpollOp where
  | add (ev : EpollEvent)
  | mod (ev : EpollEvent)
  | del
  deriving DecidableEq, Repr

def epollCtl (kernel : EpollKernel) (fd : ℕ) : EpollOp → Option EpollKernel
  | .add ev => if fd ∈ kernel then none else some (kernel.insert fd ev)
  | .mod ev => if fd ∈ kernel then some (kernel.insert fd ev) else none
  | .del => if fd ∈ kernel then some (kernel.erase fd) else none

def runloopEpollCtl (kernel : EpollKernel) (fd : ℕ) (op : EpollOp) : Res EpollKernel :=
  match epollCtl kernel fd op with
  | none => .error (.assertion "status == 0")
  | some kernel => .ok kernel

/-- The parts of `Runloop_s` that keep the descriptors. -/
structure Epoll where
  kernel : EpollKernel
  table : FdTable

def epollInit : Epoll := ⟨∅, fdTableInit⟩

namespace Epoll

def runloopRegister (athis : Epoll) (fd : ℕ) (interest : BitVec 32) (wref : Watcher) : Res Epoll := do
  let kernel ← runloopEpollCtl athis.kernel fd (.add ⟨interest, wref⟩)
  let table ← fdTableInsert athis.table wref fd
  .ok ⟨kernel, table⟩

def runloopDeregister (athis : Epoll) (fd : ℕ) : Res Epoll := do
  let _ ← fdTableLookup athis.table fd
  let kernel ← runloopEpollCtl athis.kernel fd .del
  let table ← fdTableRemove athis.table fd
  .ok ⟨kernel, table⟩

/-- The kernel has the new watcher by the time it is compared with the one in the table. -/
def runloopReregister (athis : Epoll) (fd : ℕ) (interest : BitVec 32) (wref : Watcher) :
    Res Epoll := do
  let _ ← fdTableLookup athis.table fd
  let kernel ← runloopEpollCtl athis.kernel fd (.mod ⟨interest, wref⟩)
  let wrefTmp ← fdTableLookup athis.table fd
  cAssert (wref = wrefTmp) "wref == wref_tmp"
  .ok ⟨kernel, athis.table⟩

/-- What `runloop_run` does with an event before it calls the handler. -/
def runloopRunEvent (athis : Epoll) (ev : EpollEvent) : Res Watcher := do
  let wref ← fdTableLookup athis.table ev.ptr.fd
  cAssert (ev.ptr = wref) "wr == wref"
  .ok wref

end Epoll

/-- `RunloopStream_s`, as far as it is not in the base. Functions and arguments are named by
numbers, and `none` is NULL. -/
structure EpollStream where
  eventMask : BitVec 64
  readPostableCb : Option ℕ
  readPostableArg : Option ℕ
  writePostableCb : Option ℕ
  writePostableArg : Option ℕ
  deriving DecidableEq, Repr

namespace EpollStream

def runloopStreamInit : EpollStream := ⟨0, none, none, none, none⟩

/-- A function or an argument that is NULL leaves the one that is set. -/
def setRead (athis : EpollStream) (cb arg : Option ℕ) : EpollStream :=
  { athis with
    readPostableCb := cb.or athis.readPostableCb
    readPostableArg := arg.or athis.readPostableArg }

def setWrite (athis : EpollStream) (cb arg : Option ℕ) : EpollStream :=
  { athis with
    writePostableCb := cb.or athis.writePostableCb
    writePostableArg := arg.or athis.writePostableArg }

def armBoth (athis : EpollStream) (readCb readArg writeCb writeArg : Option ℕ) : EpollStream :=
  ({ athis with
    eventMask := epollEt ||| epollOut ||| epollIn ||| epollErr ||| epollHup ||| epollRdHup |||
      athis.eventMask }.setRead readCb readArg).setWrite writeCb writeArg

def armRead (athis : EpollStream) (cb arg : Option ℕ) : EpollStream :=
  { athis with
    eventMask := epollIn ||| epollErr ||| epollHup ||| epollRdHup ||| athis.eventMask }.setRead cb arg

def armWrite (athis : EpollStream) (cb arg : Option ℕ) : EpollStream :=
  { athis with
    eventMask := epollOut ||| epollErr ||| epollHup ||| epollRdHup ||| athis.eventMask }.setWrite cb arg

def disarmRead (athis : EpollStream) : EpollStream :=
  { athis with
    eventMask := athis.eventMask &&& ~~~epollIn
    readPostableCb := none
    readPostableArg := none }

def disarmWrite (athis : EpollStream) : EpollStream :=
  { athis with
    eventMask := ~~~epollOut &&& athis.eventMask
    writePostableCb := none
    writePostableArg := none }

end EpollStream

namespace Epoll

section stream

/-- The last step of every arm and disarm function of a stream. The interest is a `uint32_t`. -/
def reregisterStream (rl : Epoll) (wref : Watcher) (athis : EpollStream) :
    Res (Epoll × EpollStream) := do
  let rl ← rl.runloopReregister wref.fd (athis.eventMask.setWidth 32) wref
  .ok (rl, athis)

variable (rl : Epoll) (wref : Watcher) (athis : EpollStream)

def runloopStreamRegister : Res Epoll := rl.runloopRegister wref.fd 0 wref

def runloopStreamDeregister : Res Epoll := rl.runloopDeregister wref.fd

def runloopStreamArmBoth (readCb readArg writeCb writeArg : Option ℕ) : Res (Epoll × EpollStream) :=
  rl.reregisterStream wref (athis.armBoth readCb readArg writeCb writeArg)

def runloopStreamArmRead (cb arg : Option ℕ) : Res (Epoll × EpollStream) :=
  rl.reregisterStream wref (athis.armRead cb arg)

def runloopStreamArmWrite (cb arg : Option ℕ) : Res (Epoll × EpollStream) :=
  rl.reregisterStream wref (athis.armWrite cb arg)

def runloopStreamDisarmRead : Res (Epoll × EpollStream) := rl.reregisterStream wref athis.disarmRead

def runloopStreamDisarmWrite : Res (Epoll × EpollStream) := rl.reregisterStream wref athis.disarmWrite

end stream

section others

variable (rl : Epoll) (athis : Watcher)

def runloopTimerRegister : Res Epoll :=
  rl.runloopRegister athis.fd ((epollIn ||| epollErr).setWidth 32) athis

def runloopTimerUpdate : Res Epoll := rl.runloopReregister athis.fd 0 athis

/-- Only the timer itself is set. -/
def runloopTimerDisarm : Res Epoll := .ok rl

def runloopTimerRearm : Res Epoll := .ok rl

def runloopTimerDeregister : Res Epoll := rl.runloopDeregister athis.fd

def runloopEventfdRegister : Res Epoll := rl.runloopRegister athis.fd 0 athis

def runloopEventfdChangeWatch (watchWhat : BitVec 64) : Res Epoll :=
  rl.runloopReregister athis.fd (watchWhat.setWidth 32) athis

def runloopEventfdArm : Res Epoll :=
  rl.runloopReregister athis.fd ((epollIn ||| epollErr ||| epollRdHup).setWidth 32) athis

def runloopEventfdDisarm : Res Epoll := rl.runloopReregister athis.fd 0 athis

def runloopEventfdDeregister : Res Epoll := rl.runloopDeregister athis.fd

def runloopQueueWatcherRegister : Res Epoll :=
  rl.runloopRegister athis.fd ((epollIn ||| epollErr ||| epollRdHup ||| epollHup).setWidth 32) athis

def runloopQueueWatcherChangeWatch (watchWhat : BitVec 64) : Res Epoll :=
  rl.runloopReregister athis.fd (watchWhat.setWidth 32) athis

def runloopQueueWatcherDeregister : Res Epoll := rl.runloopDeregister athis.fd

def runloopListenerRegister : Res Epoll :=
  rl.runloopRegister athis.fd ((epollIn ||| epollExclusive).setWidth 32) athis

def runloopListenerArm : Res Epoll := rl.runloopReregister athis.fd (epollIn.setWidth 32) athis

def runloopListenerDisarm : Res Epoll := rl.runloopReregister athis.fd 0 athis

def runloopListenerDeregister : Res Epoll := rl.runloopDeregister athis.fd

end others

end Epoll

/-- The functions of the five kinds of watchers that an application calls. -/
inductive WatcherCall where
  | streamRegister
  | streamDeregister
  | streamArmBoth (readCb readArg writeCb writeArg : Option ℕ)
  | streamArmRead (cb arg : Option ℕ)
  | streamArmWrite (cb arg : Option ℕ)
  | streamDisarmRead
  | streamDisarmWrite
  | timerRegister
  | timerUpdate
  | timerDisarm
  | timerRearm
  | timerDeregister
  | eventfdRegister
  | eventfdChangeWatch (watchWhat : BitVec 64)
  | eventfdArm
  | eventfdDisarm
  | eventfdDeregister
  | queueWatcherRegister
  | queueWatcherChangeWatch (watchWhat : BitVec 64)
  | queueWatcherDeregister
  | listenerRegister
  | listenerArm
  | listenerDisarm
  | listenerDeregister
  deriving DecidableEq, Repr

/-- A call on a watcher. `s` is the watcher as a stream, which only the arm and disarm
functions of streams change. -/
def WatcherCall.perform (rl : Epoll) (athis : Watcher) (s : EpollStream) :
    WatcherCall → Res (Epoll × EpollStream)
  | .streamArmBoth readCb readArg writeCb writeArg =>
    rl.runloopStreamArmBoth athis s readCb readArg writeCb writeArg
  | .streamArmRead cb arg => rl.runloopStreamArmRead athis s cb arg
  | .streamArmWrite cb arg => rl.runloopStreamArmWrite athis s cb arg
  | .streamDisarmRead => rl.runloopStreamDisarmRead athis s
  | .streamDisarmWrite => rl.runloopStreamDisarmWrite athis s
  | .streamRegister => (·, s) <$> rl.runloopStreamRegister athis
  | .streamDeregister => (·, s) <$> rl.runloopStreamDeregister athis
  | .timerRegister => (·, s) <$> rl.runloopTimerRegister athis
  | .timerUpdate => (·, s) <$> rl.runloopTimerUpdate athis
  | .timerDisarm => (·, s) <$> rl.runloopTimerDisarm
  | .timerRearm => (·, s) <$> rl.runloopTimerRearm
  | .timerDeregister => (·, s) <$> rl.runloopTimerDeregister athis
  | .eventfdRegister => (·, s) <$> rl.runloopEventfdRegister athis
  | .eventfdChangeWatch watchWhat => (·, s) <$> rl.runloopEventfdChangeWatch athis watchWhat
  | .eventfdArm => (·, s) <$> rl.runloopEventfdArm athis
  | .eventfdDisarm => (·, s) <$> rl.runloopEventfdDisarm athis
  | .eventfdDeregister => (·, s) <$> rl.runloopEventfdDeregister athis
  | .queueWatcherRegister => (·, s) <$> rl.runloopQueueWatcherRegister athis
  | .queueWatcherChangeWatch watchWhat => (·, s) <$> rl.runloopQueueWatcherChangeWatch athis watchWhat
  | .queueWatcherDeregister => (·, s) <$> rl.runloopQueueWatcherDeregister athis
  | .listenerRegister => (·, s) <$> rl.runloopListenerRegister athis
  | .listenerArm => (·, s) <$> rl.runloopListenerArm athis
  | .listenerDisarm => (·, s) <$> rl.runloopListenerDisarm athis
  | .listenerDeregister => (·, s) <$> rl.runloopListenerDeregister athis

def WatcherCall.deregisters : WatcherCall → Bool
  | .streamDeregister | .timerDeregister | .eventfdDeregister | .queueWatcherDeregister
  | .listenerDeregister => true
  | _ => false

/-- The run loop and the streams, by their addresses. -/
structure WatcherWorld where
  epoll : Epoll
  streams : ℕ → EpollStream

structure WatcherEvent where
  athis : Watcher
  call : WatcherCall
  deriving DecidableEq, Repr

def WatcherWorld.exec (w : WatcherWorld) (e : WatcherEvent) : Res WatcherWorld := do
  let (epoll, stream) ← e.call.perform w.epoll e.athis (w.streams e.athis.ptr)
  .ok ⟨epoll, Function.update w.streams e.athis.ptr stream⟩

/-- Any call on any watcher whose descriptor is in the range of the table. -/
def watcherMachine : Machine WatcherWorld WatcherEvent Fault :=
  ⟨fun _ e => e.athis.fd < 1024, WatcherWorld.exec⟩

instance (w : WatcherWorld) (e : WatcherEvent) : Decidable (watcherMachine.enabled w e) :=
  inferInstanceAs (Decidable (e.athis.fd < 1024))

/-- Kernel and table have the same descriptors, with the same watchers, and the counter
counts them. A watcher is registered with its own descriptor. -/
structure Epoll.Mirrors (athis : Epoll) : Prop where
  entries : ∀ fd, (athis.kernel.lookup fd).map EpollEvent.ptr = athis.table.entries[fd]?.join
  size : fdTableSize athis.table = athis.kernel.keys.card
  own : ∀ fd ev, athis.kernel.lookup fd = some ev → ev.ptr.fd = fd

/-- What a call on a watcher comes to for the run loop. -/
inductive Epoll.Step (rl : Epoll) (athis : Watcher) : Bool → Epoll → Prop where
  | none (deregisters : Bool) : rl.Step athis deregisters rl
  | register (deregisters : Bool) (interest : BitVec 32) (t : Epoll)
      (h : rl.runloopRegister athis.fd interest athis = .ok t) : rl.Step athis deregisters t
  | reregister (deregisters : Bool) (interest : BitVec 32) (t : Epoll)
      (h : rl.runloopReregister athis.fd interest athis = .ok t) : rl.Step athis deregisters t
  | deregister (t : Epoll) (h : rl.runloopDeregister athis.fd = .ok t) : rl.Step athis true t

theorem fdTableInsert_inv {table t : FdTable} {wref : Watcher} {fd : ℕ}
    (h : fdTableInsert table wref fd = .ok t) :
    table.entries[fd]? = some none ∧ t = ⟨table.count+1, table.entries.set fd (some wref)⟩ := by
  rw [fdTableInsert] at h
  split at h
  · cases h
  · rw [cAssert_bind_eq_ok, Option.isNone_iff_eq_none] at h
    obtain ⟨rfl, h⟩ := h
    exact ⟨‹_›, (Except.ok.inj h).symm⟩

theorem fdTableRemove_inv {table t : FdTable} {fd : ℕ} (h : fdTableRemove table fd = .ok t) :
    t = ⟨table.count-1, table.entries.set fd none⟩ := by
  rw [fdTableRemove] at h
  split at h
  · cases h
  · rw [cAssert_bind_eq_ok] at h
    exact (Except.ok.inj h.2).symm

section mirrors

variable {rl t : Epoll} {fd : ℕ} {interest : BitVec 32} {wref : Watcher}

theorem Epoll.runloopRegister_inv (h : rl.runloopRegister fd interest wref = .ok t) :
    fd ∉ rl.kernel ∧ rl.table.entries[fd]? = some none ∧
      t = ⟨rl.kernel.insert fd ⟨interest, wref⟩,
        ⟨rl.table.count+1, rl.table.entries.set fd (some wref)⟩⟩ := by
  obtain ⟨kernel, hkernel, h⟩ := (bind_eq_ok _ _ _).mp h
  obtain ⟨table, htable, h⟩ := (bind_eq_ok _ _ _).mp h
  obtain rfl := Except.ok.inj h
  obtain ⟨hfree, rfl⟩ := fdTableInsert_inv htable
  rw [runloopEpollCtl, epollCtl] at hkernel
  split_ifs at hkernel with hmem
  obtain rfl := Except.ok.inj hkernel
  exact ⟨hmem, hfree, rfl⟩

theorem Epoll.runloopDeregister_inv (h : rl.runloopDeregister fd = .ok t) :
    fd ∈ rl.kernel ∧ (∃ wref, rl.table.entries[fd]? = some (some wref)) ∧
      t = ⟨rl.kernel.erase fd, ⟨rl.table.count-1, rl.table.entries.set fd none⟩⟩ := by
  obtain ⟨wref, hlookup, h⟩ := (bind_eq_ok _ _ _).mp h
  obtain ⟨kernel, hkernel, h⟩ := (bind_eq_ok _ _ _).mp h
  obtain ⟨table, htable, h⟩ := (bind_eq_ok _ _ _).mp h
  obtain rfl := Except.ok.inj h
  obtain rfl := fdTableRemove_inv htable
  rw [runloopEpollCtl, epollCtl] at hkernel
  split_ifs at hkernel with hmem
  obtain rfl := Except.ok.inj hkernel
  exact ⟨hmem, ⟨wref, (fdTableLookup_eq_ok _ _ _).mp hlookup⟩, rfl⟩

theorem Epoll.runloopReregister_inv (h : rl.runloopReregister fd interest wref = .ok t) :
    fd ∈ rl.kernel ∧ rl.table.entries[fd]? = some (some wref) ∧
      t = ⟨rl.kernel.insert fd ⟨interest, wref⟩, rl.table⟩ := by
  obtain ⟨_, -, h⟩ := (bind_eq_ok _ _ _).mp h
  obtain ⟨kernel, hkernel, h⟩ := (bind_eq_ok _ _ _).mp h
  obtain ⟨wrefTmp, hlookup, h⟩ := (bind_eq_ok _ _ _).mp h
  rw [cAssert_bind_eq_ok, decide_eq_true_eq] at h
  obtain ⟨rfl, h⟩ := h
  obtain rfl := Except.ok.inj h
  rw [runloopEpollCtl, epollCtl] at hkernel
  split_ifs at hkernel with hmem
  obtain rfl := Except.ok.inj hkernel
  exact ⟨hmem, (fdTableLookup_eq_ok _ _ _).mp hlookup, rfl⟩

theorem epollKernel_keys_insert (kernel : EpollKernel) (fd : ℕ) (ev : EpollEvent) :
    (kernel.insert fd ev).keys = insert fd kernel.keys := by
  ext fd'
  rw [Finmap.mem_keys, Finmap.mem_insert, Finset.mem_insert, Finmap.mem_keys]

/-- What kernel and table have for one descriptor changes in both. -/
theorem Epoll.Mirrors.set_entries (h : rl.Mirrors) {kernel : EpollKernel} {entry : Option Watcher}
    (hlt : fd < rl.table.entries.length)
    (hself : (kernel.lookup fd).map EpollEvent.ptr = entry)
    (hother : ∀ fd', fd' ≠ fd → kernel.lookup fd' = rl.kernel.lookup fd') (fd' : ℕ) :
    (kernel.lookup fd').map EpollEvent.ptr = (rl.table.entries.set fd entry)[fd']?.join := by
  by_cases heq : fd' = fd
  · subst heq
    rw [hself, List.getElem?_set_self hlt]
    rfl
  · rw [hother fd' heq, h.entries, List.getElem?_set_ne (Ne.symm heq)]

theorem Epoll.Mirrors.register (h : rl.Mirrors) (hx : rl.runloopRegister wref.fd interest wref = .ok t) :
    t.Mirrors := by
  obtain ⟨hnew, hfree, rfl⟩ := Epoll.runloopRegister_inv hx
  obtain ⟨hlt, -⟩ := List.getElem?_eq_some_iff.mp hfree
  have hother : ∀ fd', fd' ≠ wref.fd →
      (rl.kernel.insert wref.fd ⟨interest, wref⟩).lookup fd' = rl.kernel.lookup fd' :=
    fun fd' hne => Finmap.lookup_insert_of_ne _ hne
  refine ⟨h.set_entries hlt ?_ hother, ?_, fun fd' ev hev => ?_⟩
  · rw [Finmap.lookup_insert, Option.map_some]
  · have hsize : rl.table.count = rl.kernel.keys.card := h.size
    rw [epollKernel_keys_insert, Finset.card_insert_of_notMem (Finmap.mem_keys.not.mpr hnew), ← hsize,
      fdTableSize]
  · by_cases heq : fd' = wref.fd
    · subst heq
      rw [Finmap.lookup_insert] at hev
      obtain rfl := Option.some.inj hev
      rfl
    · exact h.own fd' ev ((hother fd' heq).symm.trans hev)

theorem Epoll.Mirrors.deregister (h : rl.Mirrors) (hx : rl.runloopDeregister fd = .ok t) :
    t.Mirrors := by
  obtain ⟨hmem, ⟨wref, hentry⟩, rfl⟩ := Epoll.runloopDeregister_inv hx
  obtain ⟨hlt, -⟩ := List.getElem?_eq_some_iff.mp hentry
  have hother : ∀ fd', fd' ≠ fd → (rl.kernel.erase fd).lookup fd' = rl.kernel.lookup fd' :=
    fun fd' hne => Finmap.lookup_erase_ne hne
  refine ⟨h.set_entries hlt ?_ hother, ?_, fun fd' ev hev => ?_⟩
  · rw [Finmap.lookup_erase, Option.map_none]
  · have hsize : rl.table.count = rl.kernel.keys.card := h.size
    rw [Finmap.keys_erase, Finset.card_erase_of_mem (Finmap.mem_keys.mpr hmem), ← hsize, fdTableSize]
  · by_cases heq : fd' = fd
    · subst heq
      rw [Finmap.lookup_erase] at hev
      cases hev
    · exact h.own fd' ev ((hother fd' heq).symm.trans hev)

/-- The table is left alone, and the kernel gets the watcher that it has already. -/
theorem Epoll.Mirrors.reregister (h : rl.Mirrors)
    (hx : rl.runloopReregister wref.fd interest wref = .ok t) : t.Mirrors := by
  obtain ⟨hmem, hentry, rfl⟩ := Epoll.runloopReregister_inv hx
  refine ⟨fun fd' => ?_, ?_, fun fd' ev hev => ?_⟩
  · by_cases heq : fd' = wref.fd
    · subst heq
      rw [Finmap.lookup_insert, hentry]
      rfl
    · rw [Finmap.lookup_insert_of_ne _ heq]
      exact h.entries fd'
  · rw [epollKernel_keys_insert, Finset.insert_eq_of_mem (Finmap.mem_keys.mpr hmem)]
    exact h.size
  · by_cases heq : fd' = wref.fd
    · subst heq
      rw [Finmap.lookup_insert] at hev
      obtain rfl := Option.some.inj hev
      rfl
    · exact h.own fd' ev ((Finmap.lookup_insert_of_ne _ heq).symm.trans hev)

theorem Epoll.Mirrors.step {deregisters : Bool} (h : rl.Mirrors) (hs : rl.Step wref deregisters t) :
    t.Mirrors := by
  cases hs with
  | none => exact h
  | register _ interest _ hx => exact h.register hx
  | reregister _ interest _ hx => exact h.reregister hx
  | deregister _ hx => exact h.deregister hx

/-- Without a deregistration, a descriptor keeps its watcher. -/
theorem Epoll.Mirrors.step_keeps (h : rl.Mirrors) (hs : rl.Step wref false t) (ev : EpollEvent)
    (hev : rl.kernel.lookup fd = some ev) :
    ∃ ev', t.kernel.lookup fd = some ev' ∧ ev'.ptr = ev.ptr := by
  cases hs with
  | none => exact ⟨ev, hev, rfl⟩
  | register _ interest _ hx =>
    obtain ⟨hnew, -, rfl⟩ := Epoll.runloopRegister_inv hx
    have hne : fd ≠ wref.fd := by
      rintro rfl
      exact hnew (Finmap.mem_of_lookup_eq_some hev)
    exact ⟨ev, (Finmap.lookup_insert_of_ne _ hne).trans hev, rfl⟩
  | reregister _ interest _ hx =>
    obtain ⟨-, hentry, rfl⟩ := Epoll.runloopReregister_inv hx
    by_cases heq : fd = wref.fd
    · subst heq
      refine ⟨⟨interest, wref⟩, Finmap.lookup_insert _, ?_⟩
      have hsame := h.entries wref.fd
      rw [hev, hentry] at hsame
      exact (Option.some.inj hsame).symm
    · exact ⟨ev, (Finmap.lookup_insert_of_ne _ heq).trans hev, rfl⟩

/-- An event of a registered watcher passes both checks in front of its handler. -/
theorem Epoll.Mirrors.runloopRunEvent (h : rl.Mirrors) (ev : EpollEvent)
    (hev : ∃ ev', rl.kernel.lookup fd = some ev' ∧ ev'.ptr = ev.ptr) :
    rl.runloopRunEvent ev = .ok ev.ptr := by
  obtain ⟨ev', hev', hptr⟩ := hev
  have hown : ev.ptr.fd = fd := by
    rw [← hptr]
    exact h.own fd ev' hev'
  have hentry : rl.table.entries[ev.ptr.fd]? = some (some ev.ptr) := by
    have hsame := h.entries fd
    rw [hev', Option.map_some, hptr] at hsame
    rw [hown]
    exact Option.join_eq_some_iff.mp hsame.symm
  rw [Epoll.runloopRunEvent, (fdTableLookup_eq_ok _ _ _).mpr hentry, ok_bind, decide_eq_true rfl,
    cAssert_true, ok_bind]

end mirrors

theorem Epoll.reregisterStream_step {rl t : Epoll} {wref : Watcher} {s s' : EpollStream} (b : Bool)
    (h : rl.reregisterStream wref s = .ok (t, s')) : rl.Step wref b t := by
  obtain ⟨rl', hx, h⟩ := (bind_eq_ok _ _ _).mp h
  obtain ⟨rfl, -⟩ := Prod.mk.inj (Except.ok.inj h)
  exact .reregister b _ _ hx

theorem WatcherCall.perform_step {rl t : Epoll} {athis : Watcher} {s s' : EpollStream}
    (call : WatcherCall) (h : call.perform rl athis s = .ok (t, s')) :
    rl.Step athis call.deregisters t := by
  cases call with
  | streamArmBoth | streamArmRead | streamArmWrite | streamDisarmRead | streamDisarmWrite =>
    exact Epoll.reregisterStream_step _ h
  | streamRegister | timerRegister | eventfdRegister | queueWatcherRegister | listenerRegister =>
    obtain ⟨rl', hx, h⟩ := (map_eq_ok _ _ _).mp h
    obtain ⟨rfl, -⟩ := Prod.mk.inj h
    exact .register _ _ _ hx
  | timerUpdate | eventfdChangeWatch | eventfdArm | eventfdDisarm | queueWatcherChangeWatch
  | listenerArm | listenerDisarm =>
    obtain ⟨rl', hx, h⟩ := (map_eq_ok _ _ _).mp h
    obtain ⟨rfl, -⟩ := Prod.mk.inj h
    exact .reregister _ _ _ hx
  | streamDeregister | timerDeregister | eventfdDeregister | queueWatcherDeregister
  | listenerDeregister =>
    obtain ⟨rl', hx, h⟩ := (map_eq_ok _ _ _).mp h
    obtain ⟨rfl, -⟩ := Prod.mk.inj h
    exact .deregister _ hx
  | timerDisarm | timerRearm =>
    obtain ⟨rl', hx, h⟩ := (map_eq_ok _ _ _).mp h
    obtain ⟨rfl, -⟩ := Prod.mk.inj h
    obtain rfl := Except.ok.inj hx
    exact .none _

theorem WatcherWorld.exec_step {w t : WatcherWorld} {e : WatcherEvent} (h : w.exec e = .ok t) :
    w.epoll.Step e.athis e.call.deregisters t.epoll := by
  obtain ⟨⟨epoll, stream⟩, hx, h⟩ := (bind_eq_ok _ _ _).mp h
  obtain rfl := Except.ok.inj h
  exact e.call.perform_step hx

theorem epollInit_mirrors : epollInit.Mirrors := by
  refine ⟨fun fd => ?_, rfl, fun fd ev hev => ?_⟩
  · rw [epollInit, Finmap.lookup_empty, Option.map_none, fdTableInit, List.getElem?_replicate]
    split_ifs <;> rfl
  · rw [epollInit, Finmap.lookup_empty] at hev
    cases hev

theorem WatcherWorld.run_mirrors {w u : WatcherWorld} {es : List WatcherEvent}
    (h : watcherMachine.Run w es u) (hw : w.epoll.Mirrors) : u.epoll.Mirrors :=
  h.keeps (I := fun w => w.epoll.Mirrors)
    (fun _ _ _ hs _ hx => hs.step (WatcherWorld.exec_step hx)) hw

/-- Over calls that deregister nothing, a descriptor keeps its watcher. -/
theorem WatcherWorld.run_keeps {w u : WatcherWorld} {es : List WatcherEvent}
    (h : watcherMachine.Run w es u) (hw : w.epoll.Mirrors)
    (hes : ∀ e ∈ es, e.call.deregisters = false) (fd : ℕ) (ev : EpollEvent)
    (hev : w.epoll.kernel.lookup fd = some ev) :
    ∃ ev', u.epoll.kernel.lookup fd = some ev' ∧ ev'.ptr = ev.ptr := by
  have hkept := h.invariant
    (I := fun t => t.epoll.Mirrors ∧ ∃ ev', t.epoll.kernel.lookup fd = some ev' ∧ ev'.ptr = ev.ptr)
    (A := fun e => e.call.deregisters = false) ?_ ⟨hw, ev, hev, rfl⟩ hes
  · exact hkept.2
  · rintro s e t ⟨hs, ev', hev', hptr⟩ hcall _ hx
    have hstep := WatcherWorld.exec_step hx
    refine ⟨hs.step hstep, ?_⟩
    rw [hcall] at hstep
    obtain ⟨ev'', hev'', hptr'⟩ := hs.step_keeps hstep ev' hev'
    exact ⟨ev'', hev'', hptr'.trans hptr⟩

/-- For every sequence of calls on watchers in which no assertion fails, kernel and table
agree. When then a batch of events is reported and its handlers deregister nothing, every
event finds its watcher in the table, whatever else the handlers before it have called. -/
theorem epoll_mirrors (streams : ℕ → EpollStream) (es : List WatcherEvent) (w : WatcherWorld)
    (h : watcherMachine.Run ⟨epollInit, streams⟩ es w) :
    w.epoll.Mirrors ∧
      ∀ calls u, watcherMachine.Run w calls u → (∀ e ∈ calls, e.call.deregisters = false) →
        ∀ fd ev, w.epoll.kernel.lookup fd = some ev → u.epoll.runloopRunEvent ev = .ok ev.ptr := by
  have hw := WatcherWorld.run_mirrors h epollInit_mirrors
  refine ⟨hw, fun calls u hu hcalls fd ev hev => ?_⟩
  exact (WatcherWorld.run_mirrors hu hw).runloopRunEvent ev
    (WatcherWorld.run_keeps hu hw hcalls fd ev hev)

/-- A stream and a timer; the handler of the stream disarms it and registers a listener. -/
theorem epoll_mirrors_three :
    ∃ w u, watcherMachine.Run ⟨epollInit, fun _ => .runloopStreamInit⟩
        [⟨⟨64, 5⟩, .streamRegister⟩, ⟨⟨64, 5⟩, .streamArmRead (some 1) (some 2)⟩,
          ⟨⟨65, 6⟩, .timerRegister⟩] w ∧
      watcherMachine.Run w [⟨⟨64, 5⟩, .streamDisarmRead⟩, ⟨⟨66, 7⟩, .listenerRegister⟩] u ∧
      w.epoll.Mirrors ∧
      ∀ ev, w.epoll.kernel.lookup 6 = some ev → u.epoll.runloopRunEvent ev = .ok ev.ptr := by
  have hboth : ∃ u, watcherMachine.Run ⟨epollInit, fun _ => .runloopStreamInit⟩
      ([⟨⟨64, 5⟩, .streamRegister⟩, ⟨⟨64, 5⟩, .streamArmRead (some 1) (some 2)⟩,
          ⟨⟨65, 6⟩, .timerRegister⟩] ++
        [⟨⟨64, 5⟩, .streamDisarmRead⟩, ⟨⟨66, 7⟩, .listenerRegister⟩]) u :=
    Machine.exists_run_of_isSome (by decide +kernel)
  obtain ⟨u, hboth⟩ := hboth
  obtain ⟨w, hw, hu⟩ := hboth.split
  have h := epoll_mirrors _ _ w hw
  exact ⟨w, u, hw, hu, h.1, h.2 _ u hu (by decide) 6⟩

end CHttp
