import CHttp.EventTable
import CHttp.Runloop

/-! The watchers of the kqueue runloop, whose memory are slots of its event table, and the
test by which `runloop_run` ends. -/
namespace CHttp

/-- The variants of a `RunloopEvent_s`. Each has a tag of its own. -/
inductive EventVariant where
  | timer
  | listener
  | stream
  | userEvent
  deriving DecidableEq, Repr

/-- What creating and freeing a watcher use of a `RunloopEvent_s`: the tags at its two ends,
and the descriptor of a listener or a stream. -/
structure EventObject where
  tag : EventVariant
  endTag : EventVariant
  fd : Option ℤ
  deriving DecidableEq, Repr

structure KqueueRunloop where
  eventTable : EventTable EventObject
  readyList : FunctorList Functor

/-- The branches at the top of the loop of `runloop_run`. -/
inductive RunloopTurn where
  | cleanExit
  | waitsForEvents
  | runsReadyList
  deriving DecidableEq, Repr

namespace KqueueRunloop

def runloopInit : Res KqueueRunloop := do
  let eventTable ← eventTableNew EventObject
  let readyList ← functorListNew Functor runloopReadyListMax
  .ok ⟨eventTable, readyList⟩

def runloopTimerInit : EventObject := ⟨.timer, .timer, none⟩

def runloopListenerInit (fd : ℤ) : EventObject := ⟨.listener, .listener, some fd⟩

def runloopStreamInit (fd : ℤ) : EventObject := ⟨.stream, .stream, some fd⟩

/-- `write_fd` and `read_fd` stay as they are. -/
def runloopUserEventInit : EventObject := ⟨.userEvent, .userEvent, none⟩

def put (runloop : KqueueRunloop) (p : EntryRef) (object : EventObject) : KqueueRunloop :=
  { runloop with eventTable := runloop.eventTable.store p object }

/-- A slot of the table, initialised. -/
def watcherNew (runloop : KqueueRunloop) (object : EventObject) :
    Res (EntryRef × KqueueRunloop) := do
  let (this, eventTable) ← eventTableGetEntry runloop.eventTable
  .ok (this, { runloop with eventTable := eventTable }.put this object)

def runloopTimerNew (runloop : KqueueRunloop) : Res (EntryRef × KqueueRunloop) :=
  runloop.watcherNew runloopTimerInit

def runloopListenerNew (runloop : KqueueRunloop) (fd : ℤ) : Res (EntryRef × KqueueRunloop) :=
  runloop.watcherNew (runloopListenerInit fd)

def runloopStreamNew (runloop : KqueueRunloop) (fd : ℤ) : Res (EntryRef × KqueueRunloop) :=
  runloop.watcherNew (runloopStreamInit fd)

def runloopUserEventNew (runloop : KqueueRunloop) : Res (EntryRef × KqueueRunloop) :=
  runloop.watcherNew runloopUserEventInit

def object (runloop : KqueueRunloop) (p : EntryRef) : Res EventObject :=
  match (runloop.eventTable.memory p).event with
  | none => .error .indeterminate
  | some object => .ok object

/-- `RBL_CHECK_TAG`, which asserts `false` if the tag is another. -/
def checkTag (runloop : KqueueRunloop) (tag : EventVariant) (p : EntryRef) : Res Unit := do
  let object ← runloop.object p
  cAssert (object.tag = tag) "false"

/-- `RBL_CHECK_END_TAG`. -/
def checkEndTag (runloop : KqueueRunloop) (tag : EventVariant) (p : EntryRef) : Res Unit := do
  let object ← runloop.object p
  cAssert (object.endTag = tag) "false"

/-- `RBL_SET_TAG`. -/
def setTag (runloop : KqueueRunloop) (tag : EventVariant) (p : EntryRef) :
    Res KqueueRunloop := do
  let object ← runloop.object p
  .ok (runloop.put p { object with tag := tag })

/-- `RBL_SET_END_TAG`. -/
def setEndTag (runloop : KqueueRunloop) (tag : EventVariant) (p : EntryRef) :
    Res KqueueRunloop := do
  let object ← runloop.object p
  .ok (runloop.put p { object with endTag := tag })

def releaseEntry (runloop : KqueueRunloop) (p : EntryRef) : Res KqueueRunloop := do
  let eventTable ← eventTableReleaseEntry runloop.eventTable p
  .ok { runloop with eventTable := eventTable }

def runloopTimerFree (runloop : KqueueRunloop) (athis : EntryRef) : Res KqueueRunloop := do
  runloop.checkTag .timer athis
  runloop.checkEndTag .timer athis
  runloop.releaseEntry athis

def runloopListenerVerify (runloop : KqueueRunloop) (athis : EntryRef) : Res Unit := do
  runloop.checkTag .listener athis
  runloop.checkEndTag .listener athis

/-- The result of `close` is not looked at. -/
def runloopListenerFree (runloop : KqueueRunloop) (rlevent : EntryRef) :
    Res KqueueRunloop := do
  runloop.checkTag .listener rlevent
  runloop.checkEndTag .listener rlevent
  runloop.runloopListenerVerify rlevent
  runloop.releaseEntry rlevent

/-- The helper returns 0 whatever `kevent` says. -/
def kqhReaderwriterCancel : ℤ := 0

def runloopStreamDeregister (runloop : KqueueRunloop) (athis : EntryRef) :
    Res KqueueRunloop := do
  let runloop ← runloop.setTag .stream athis
  let runloop ← runloop.setEndTag .stream athis
  let res := kqhReaderwriterCancel
  cAssert (res = 0) "res == 0"
  .ok runloop

def runloopStreamFree (runloop : KqueueRunloop) (athis : EntryRef) : Res KqueueRunloop := do
  let runloop ← runloop.setTag .stream athis
  let runloop ← runloop.setEndTag .stream athis
  let runloop ← runloop.runloopStreamDeregister athis
  runloop.releaseEntry athis

/-- `free` of a slot, that is, of an address inside the block of the event table. `malloc`
did not return it. -/
def freeSlot (_ : KqueueRunloop) (_ : EntryRef) : Res KqueueRunloop := .error .allocation

/-- The slot is not released. -/
def runloopUserEventFree (runloop : KqueueRunloop) (athis : EntryRef) :
    Res KqueueRunloop := do
  let runloop ← runloop.setTag .userEvent athis
  runloop.checkTag .userEvent athis
  runloop.freeSlot athis

def runloopRunTurn (athis : KqueueRunloop) : RunloopTurn :=
  if functorListSize athis.readyList = 0 ∧ 0 = eventTableNumberInUse athis.eventTable then
    .cleanExit
  else if functorListSize athis.readyList = 0 then .waitsForEvents
  else .runsReadyList

end KqueueRunloop

/-- Creating a watcher; a timer and a user event have no descriptor. -/
def EventVariant.create (fd : ℤ) (runloop : KqueueRunloop) :
    EventVariant → Res (EntryRef × KqueueRunloop)
  | .timer => runloop.runloopTimerNew
  | .listener => runloop.runloopListenerNew fd
  | .stream => runloop.runloopStreamNew fd
  | .userEvent => runloop.runloopUserEventNew

/-- The function that frees a watcher of this variant. -/
def EventVariant.free (runloop : KqueueRunloop) (p : EntryRef) :
    EventVariant → Res KqueueRunloop
  | .timer => runloop.runloopTimerFree p
  | .listener => runloop.runloopListenerFree p
  | .stream => runloop.runloopStreamFree p
  | .userEvent => runloop.runloopUserEventFree p

/-- A runloop, with the watchers created and not freed since and the functions posted and
not run since. -/
structure KqueueLedger where
  runloop : KqueueRunloop
  live : List (EntryRef × EventVariant)
  pending : List Functor

inductive WatcherLifeEvent where
  | create (variant : EventVariant) (fd : ℤ)
  | free (p : EntryRef) (variant : EventVariant)
  | post (func : Functor)
  | runFunctor
  deriving DecidableEq, Repr

namespace KqueueLedger

/-- A watcher is freed once, by the function for its variant. -/
def Enabled (l : KqueueLedger) : WatcherLifeEvent → Prop
  | .create _ _ => True
  | .free p variant => (p, variant) ∈ l.live
  | .post func => func.f.isSome ∧ func.arg.isSome ∧ l.pending.length+1 < runloopReadyListMax
  | .runFunctor => l.pending ≠ []

def exec (l : KqueueLedger) : WatcherLifeEvent → Res KqueueLedger
  | .create variant fd => do
    let (p, runloop) ← variant.create fd l.runloop
    .ok { l with runloop := runloop, live := (p, variant) :: l.live }
  | .free p variant => do
    let runloop ← variant.free l.runloop p
    .ok { l with runloop := runloop, live := l.live.erase (p, variant) }
  | .post func => do
    let readyList ← runloopPost l.runloop.readyList func
    .ok { l with
      runloop := { l.runloop with readyList := readyList }
      pending := l.pending ++ [func] }
  | .runFunctor => do
    let (_, readyList) ← functorListRemove l.runloop.readyList
    .ok { l with
      runloop := { l.runloop with readyList := readyList }
      pending := l.pending.tail }

end KqueueLedger

def kqueueLedgerMachine : Machine KqueueLedger WatcherLifeEvent Fault :=
  ⟨KqueueLedger.Enabled, KqueueLedger.exec⟩

/-- The table counts the watchers that exist, and without them and without posted functions
the loop ends. -/
structure KqueueLedger.Balanced (l : KqueueLedger) : Prop where
  numberInUse : eventTableNumberInUse l.runloop.eventTable = l.live.length
  cleanExit : l.live = [] → l.pending = [] → l.runloop.runloopRunTurn = .cleanExit

/-- The condition on a step: the table has a slot for a new watcher, and what is freed is not
a user event. -/
def WatcherLifeEvent.Returns (l : KqueueLedger) : WatcherLifeEvent → Prop
  | .create _ _ => l.live.length < evtMax
  | .free _ variant => variant ≠ .userEvent
  | .post _ | .runFunctor => True

section slots

variable {runloop : KqueueRunloop} {free : List ℕ} {inUse : List EntryRef} {p : EntryRef}
  {object : EventObject}

/-- Which slots are in use is known up to their order. -/
theorem EventTable.Shares.of_perm {α : Type} {et : EventTable α} {inUse' : List EntryRef}
    (h : et.Shares free inUse) (hperm : inUse.Perm inUse') : et.Shares free inUse' :=
  ⟨h.holds, ((hperm.map Fin.val).symm.append_left free).trans h.perm,
    fun p hp => h.index p (hperm.mem_iff.mpr hp)⟩

namespace KqueueRunloop

theorem object_eq (h : (runloop.eventTable.memory p).event = some object) :
    runloop.object p = .ok object := by
  rw [KqueueRunloop.object, h]

theorem put_event (runloop : KqueueRunloop) (p : EntryRef) (object : EventObject) :
    ((runloop.put p object).eventTable.memory p).event = some object := by
  simp only [put, EventTable.store, Function.update_self]

theorem put_event_of_ne (runloop : KqueueRunloop) (object : EventObject) {q : EntryRef}
    (h : q ≠ p) :
    ((runloop.put p object).eventTable.memory q).event =
      (runloop.eventTable.memory q).event := by
  simp only [put, EventTable.store, Function.update_of_ne h]

@[simp] theorem object_put (runloop : KqueueRunloop) (p : EntryRef) (object : EventObject) :
    (runloop.put p object).object p = .ok object :=
  object_eq (put_event runloop p object)

@[simp] theorem put_put (runloop : KqueueRunloop) (p : EntryRef) (object object' : EventObject) :
    (runloop.put p object).put p object' = runloop.put p object' := by
  simp only [put, EventTable.store, Function.update_self, Function.update_idem]

/-- A slot is released, and the objects in the other slots are what they were. -/
structure Released (runloop t : KqueueRunloop) (free : List ℕ) (inUse : List EntryRef)
    (p : EntryRef) : Prop where
  shares : t.eventTable.Shares (free ++ [p.val]) (inUse.erase p)
  others : ∀ q ≠ p, (t.eventTable.memory q).event = (runloop.eventTable.memory q).event
  readyList : t.readyList = runloop.readyList

theorem releaseEntry_released (h : runloop.eventTable.Shares free inUse) (hp : p ∈ inUse) :
    ∃ t, runloop.releaseEntry p = .ok t ∧ runloop.Released t free inUse p := by
  obtain ⟨et, hrelease, hshares, hmemory⟩ := eventTableReleaseEntry_shares h hp
  refine ⟨{ runloop with eventTable := et }, ?_, hshares, fun q _ => ?_, rfl⟩
  · simp only [releaseEntry, hrelease, ok_bind]
  · rw [hmemory]

/-- What was written to the object before does not matter. -/
theorem releaseEntry_put (h : runloop.eventTable.Shares free inUse) (hp : p ∈ inUse)
    (object : EventObject) :
    ∃ t, (runloop.put p object).releaseEntry p = .ok t ∧ runloop.Released t free inUse p := by
  have hput : (runloop.put p object).eventTable.Shares free inUse := h.store p object
  obtain ⟨t, hrelease, ht⟩ := releaseEntry_released hput hp
  refine ⟨t, hrelease, ht.shares, fun q hq => ?_, ht.readyList⟩
  rw [ht.others q hq, put_event_of_ne _ _ hq]

/-- A timer, a listener and a stream give their slot back. -/
theorem free_released {variant : EventVariant} {fd : Option ℤ}
    (h : runloop.eventTable.Shares free inUse) (hp : p ∈ inUse)
    (hobject : runloop.object p = .ok ⟨variant, variant, fd⟩) (hvariant : variant ≠ .userEvent) :
    ∃ t, variant.free runloop p = .ok t ∧ runloop.Released t free inUse p := by
  cases variant with
  | timer =>
    simp only [EventVariant.free, runloopTimerFree, checkTag, checkEndTag, hobject, ok_bind,
      decide_true, cAssert_true]
    exact releaseEntry_released h hp
  | listener =>
    simp only [EventVariant.free, runloopListenerFree, runloopListenerVerify, checkTag,
      checkEndTag, hobject, ok_bind, decide_true, cAssert_true]
    exact releaseEntry_released h hp
  | stream =>
    simp only [EventVariant.free, runloopStreamFree, runloopStreamDeregister, setTag, setEndTag,
      hobject, ok_bind, object_put, put_put, kqhReaderwriterCancel, decide_true, cAssert_true]
    exact releaseEntry_put h hp _
  | userEvent => exact absurd rfl hvariant

theorem userEvent_free {fd : Option ℤ}
    (hobject : runloop.object p = .ok ⟨.userEvent, .userEvent, fd⟩) :
    EventVariant.userEvent.free runloop p = .error .allocation := by
  simp only [EventVariant.free, runloopUserEventFree, setTag, checkTag, freeSlot, hobject,
    ok_bind, object_put, decide_true, cAssert_true]

/-- A watcher of any variant takes the first free slot. -/
theorem create_ok {ix : ℕ} (h : runloop.eventTable.Shares (ix :: free) inUse)
    (variant : EventVariant) (fd : ℤ) :
    ∃ p t fd', variant.create fd runloop = .ok (p, t) ∧ p.val = ix ∧ p ∉ inUse ∧
      t.eventTable.Shares free (p :: inUse) ∧ t.object p = .ok ⟨variant, variant, fd'⟩ ∧
      (∀ q ≠ p, t.object q = runloop.object q) ∧ t.readyList = runloop.readyList := by
  obtain ⟨p, et, hget, hix, hfresh, -, hshares, hevents⟩ := eventTableGetEntry_shares h
  have hnew (object : EventObject) : runloop.watcherNew object =
      .ok (p, { runloop with eventTable := et }.put p object) := by
    simp only [watcherNew, hget, ok_bind]
  have hothers (object : EventObject) (q : EntryRef) (hq : q ≠ p) :
      ({ runloop with eventTable := et }.put p object).object q = runloop.object q := by
    rw [KqueueRunloop.object, put_event_of_ne _ _ hq, hevents, KqueueRunloop.object]
  cases variant with
  | timer | userEvent =>
    exact ⟨p, _, none, hnew _, hix, hfresh, hshares.store p _, object_put _ p _, hothers _, rfl⟩
  | listener | stream =>
    exact ⟨p, _, some fd, hnew _, hix, hfresh, hshares.store p _, object_put _ p _, hothers _, rfl⟩

/-- All slots are in use. -/
theorem create_full (h : runloop.eventTable.Shares [] inUse) (variant : EventVariant) (fd : ℤ) :
    variant.create fd runloop = .error (.assertion "!freelist_is_empty(fl)") := by
  have hempty : freelistIsEmpty runloop.eventTable.freeList = true := by
    rw [freelistIsEmpty, h.holds.count]
    rfl
  cases variant <;>
    simp only [EventVariant.create, runloopTimerNew, runloopListenerNew, runloopStreamNew,
      runloopUserEventNew, watcherNew, eventTableGetEntry, freelistGet, hempty, Bool.not_true,
      cAssert_false, error_bind]

end KqueueRunloop

end slots

namespace KqueueLedger

/-- The slots in use are those of the watchers that exist, each with an object of its
variant, and the ready list holds what is pending. -/
structure Known (l : KqueueLedger) : Prop where
  shares : ∃ free, l.runloop.eventTable.Shares free (l.live.map Prod.fst)
  objects : ∀ x ∈ l.live, ∃ fd, l.runloop.object x.1 = .ok ⟨x.2, x.2, fd⟩
  ready : l.runloop.readyList.Holds runloopReadyListMax l.pending

variable {l : KqueueLedger}

theorem Known.balanced (h : l.Known) : l.Balanced := by
  obtain ⟨free, hshares⟩ := h.shares
  have hnumber : eventTableNumberInUse l.runloop.eventTable = l.live.length := by
    rw [hshares.numberInUse, List.length_map]
  refine ⟨hnumber, fun hlive hpending => ?_⟩
  have hsize : functorListSize l.runloop.readyList = 0 := by
    rw [functorListSize_eq h.ready, hpending, List.length_nil]
  rw [KqueueRunloop.runloopRunTurn, if_pos ⟨hsize, by rw [hnumber, hlive, List.length_nil]⟩]

theorem Known.create (h : l.Known) (variant : EventVariant) (fd : ℤ) :
    OkIff (l.exec (.create variant fd)) Known (l.live.length < evtMax) := by
  obtain ⟨free, hshares⟩ := h.shares
  have hlen := hshares.length
  rw [List.length_map] at hlen
  cases free with
  | nil =>
    refine .of_error (e := .assertion "!freelist_is_empty(fl)") ?_ (by simp at hlen; omega)
    simp only [exec, KqueueRunloop.create_full hshares, error_bind]
  | cons ix free =>
    obtain ⟨p, t, fd', hcreate, -, hfresh, hshares', hobject, hothers, hready⟩ :=
      KqueueRunloop.create_ok hshares variant fd
    refine .of_ok (r := { l with runloop := t, live := (p, variant) :: l.live }) ?_
      ⟨⟨free, hshares'⟩, ?_, by simpa only [hready] using h.ready⟩ (by simp at hlen; omega)
    · simp only [exec, hcreate, ok_bind]
    · intro x hx
      rcases List.mem_cons.mp hx with rfl | hx
      · exact ⟨fd', hobject⟩
      · have hne : x.1 ≠ p := fun he => hfresh (he ▸ List.mem_map_of_mem hx)
        rw [hothers x.1 hne]
        exact h.objects x hx

theorem Known.free (h : l.Known) {p : EntryRef} {variant : EventVariant}
    (he : (p, variant) ∈ l.live) :
    OkIff (l.exec (.free p variant)) Known (variant ≠ .userEvent) := by
  obtain ⟨free, hshares⟩ := h.shares
  obtain ⟨fd, hobject⟩ := h.objects _ he
  by_cases hvariant : variant = .userEvent
  · subst hvariant
    refine .of_error (e := .allocation) ?_ (fun hne => hne rfl)
    simp only [exec, KqueueRunloop.userEvent_free hobject, error_bind]
  · have hp : p ∈ l.live.map Prod.fst := List.mem_map_of_mem he
    obtain ⟨t, hfree, ht⟩ := KqueueRunloop.free_released hshares hp hobject hvariant
    have hperm : ((l.live.map Prod.fst).erase p).Perm
        ((l.live.erase (p, variant)).map Prod.fst) := by
      refine List.Perm.cons_inv (a := p) ?_
      exact (List.perm_cons_erase hp).symm.trans ((List.perm_cons_erase he).map Prod.fst)
    have hshares' := ht.shares.of_perm hperm
    refine .of_ok (r := { l with runloop := t, live := l.live.erase (p, variant) }) ?_
      ⟨⟨_, hshares'⟩, ?_, by simpa only [ht.readyList] using h.ready⟩ hvariant
    · simp only [exec, hfree, ok_bind]
    · intro x hx
      have hgone : p ∉ (l.live.map Prod.fst).erase p :=
        (List.Nodup.of_map _ (List.nodup_append'.mp hshares.nodup).2.1).not_mem_erase
      have hmem : x.1 ∈ (l.live.erase (p, variant)).map Prod.fst := List.mem_map_of_mem hx
      have hne : x.1 ≠ p := by
        intro hxp
        rw [hxp] at hmem
        exact hgone (hperm.mem_iff.mpr hmem)
      rw [KqueueRunloop.object, ht.others x.1 hne]
      exact h.objects x (List.mem_of_mem_erase hx)

theorem Known.post (h : l.Known) {func : Functor} (he : l.Enabled (.post func)) :
    ∃ t, l.exec (.post func) = .ok t ∧ t.Known := by
  obtain ⟨hf, harg, hroom⟩ := he
  obtain ⟨readyList, hadd, hready⟩ := functorListAdd_holds h.ready hroom func
  refine ⟨{ l with
      runloop := { l.runloop with readyList := readyList }
      pending := l.pending ++ [func] }, ?_, h.shares, h.objects, hready⟩
  simp only [exec, runloopPost, hf, harg, cAssert_true, ok_bind, hadd]

theorem Known.runFunctor (h : l.Known) (he : l.pending ≠ []) :
    ∃ t, l.exec .runFunctor = .ok t ∧ t.Known := by
  obtain ⟨func, rest, hpending⟩ := List.exists_cons_of_ne_nil he
  have hholds := h.ready
  rw [hpending] at hholds
  obtain ⟨readyList, hremove, hready⟩ := functorListRemove_holds hholds
  refine ⟨{ l with
      runloop := { l.runloop with readyList := readyList }
      pending := l.pending.tail }, ?_, h.shares, h.objects, by rwa [hpending]⟩
  simp only [exec, hremove, ok_bind]

theorem Known.step (h : l.Known) (e : WatcherLifeEvent) (he : l.Enabled e) :
    OkIff (l.exec e) Known (e.Returns l) := by
  cases e with
  | create variant fd => exact h.create variant fd
  | free p variant => exact h.free he
  | post func =>
    obtain ⟨t, hx, ht⟩ := h.post he
    exact .of_ok hx ht trivial
  | runFunctor =>
    obtain ⟨t, hx, ht⟩ := h.runFunctor he
    exact .of_ok hx ht trivial

end KqueueLedger

theorem runloopInit_known :
    ∃ runloop, KqueueRunloop.runloopInit = .ok runloop ∧
      runloop.eventTable.Shares (List.range evtMax) [] ∧ KqueueLedger.Known ⟨runloop, [], []⟩ := by
  obtain ⟨et, hnew, hshares⟩ := eventTableInit_shares (eventTableMalloc EventObject)
  obtain ⟨readyList, hready, hholds⟩ :=
    functorListNew_holds (α := Functor) runloopReadyListMax (by decide) le_rfl
  refine ⟨⟨et, readyList⟩, ?_, hshares, ⟨_, hshares⟩, by simp, hholds⟩
  simp only [KqueueRunloop.runloopInit, eventTableNew, hnew, hready, ok_bind]

/-- The first watcher of a new runloop gets slot 0. -/
theorem create_first (variant : EventVariant) (fd : ℤ) :
    ∃ runloop t, KqueueRunloop.runloopInit = .ok runloop ∧
      KqueueLedger.exec ⟨runloop, [], []⟩ (.create variant fd) = .ok t ∧ t.Known ∧
      t.live = [(0, variant)] := by
  obtain ⟨runloop, hinit, hshares, hknown⟩ := runloopInit_known
  have hrange : List.range evtMax = 0 :: List.range' 1 2047 := List.range_eq_range'
  rw [hrange] at hshares
  obtain ⟨p, rl, -, hcreate, hp, -⟩ := KqueueRunloop.create_ok hshares variant fd
  obtain rfl : p = 0 := Fin.ext hp
  have hx : KqueueLedger.exec ⟨runloop, [], []⟩ (.create variant fd) =
      .ok ⟨rl, [(0, variant)], []⟩ := by
    simp only [KqueueLedger.exec, hcreate, ok_bind]
  exact ⟨runloop, _, hinit, hx, (hknown.create variant fd).result _ hx, rfl⟩

/-- On a new runloop, creations, frees and posts, each one possible where those before it lead,
go through with the table counting the watchers all the time, exactly if no creation finds
`EVT_MAX` watchers already there and no user event is freed. -/
theorem kqueue_watchers_balanced_iff (runloop : KqueueRunloop)
    (hinit : KqueueRunloop.runloopInit = .ok runloop) (es : List WatcherLifeEvent) :
    kqueueLedgerMachine.Performs KqueueLedger.Balanced ⟨runloop, [], []⟩ es ↔
      Machine.Admits kqueueLedgerMachine.next (fun l e => l.Enabled e ∧ e.Returns l)
        ⟨runloop, [], []⟩ es := by
  obtain ⟨runloop', hinit', -, hknown⟩ := runloopInit_known
  obtain rfl := Except.ok.inj (hinit.symm.trans hinit')
  refine Machine.performs_iff_admits_next (J := fun l _ => l.Known) (fun l _ hl => hl.balanced) ?_ _
    es hknown
  exact fun l e _ hl he => hl.step e he

theorem kqueue_watchers_balanced_one :
    ∃ runloop, KqueueRunloop.runloopInit = .ok runloop ∧
      kqueueLedgerMachine.Performs KqueueLedger.Balanced ⟨runloop, [], []⟩
        [.create .stream 7, .free 0 .stream] := by
  obtain ⟨runloop, t, hinit, hx, ht, hlive⟩ := create_first .stream 7
  have hmem : ((0, .stream) : EntryRef × EventVariant) ∈ t.live := by
    rw [hlive]
    exact List.mem_singleton_self _
  refine ⟨runloop, hinit, (kqueue_watchers_balanced_iff runloop hinit _).mpr
    ⟨⟨trivial, show 0 < evtMax by decide⟩, ?_⟩⟩
  rw [Machine.next_eq hx]
  exact ⟨⟨hmem, show EventVariant.stream ≠ .userEvent by decide⟩, trivial⟩

/-- One user event is created and freed: `free` gets an address inside the event table, and
the table counts the slot as used. -/
theorem kqueue_user_event_not_released :
    ∃ runloop t, KqueueRunloop.runloopInit = .ok runloop ∧
      kqueueLedgerMachine.Run ⟨runloop, [], []⟩ [.create .userEvent 0] t ∧
      kqueueLedgerMachine.enabled t (.free 0 .userEvent) ∧
      kqueueLedgerMachine.exec t (.free 0 .userEvent) = .error .allocation ∧
      eventTableNumberInUse t.runloop.eventTable = 1 := by
  obtain ⟨runloop, t, hinit, hx, ht, hlive⟩ := create_first .userEvent 0
  have hmem : ((0, .userEvent) : EntryRef × EventVariant) ∈ t.live := by
    rw [hlive]
    exact List.mem_singleton_self _
  obtain ⟨fd, hobject⟩ := ht.objects _ hmem
  refine ⟨runloop, t, hinit, .cons trivial hx (.nil t), hmem, ?_, ?_⟩
  · simp only [kqueueLedgerMachine, KqueueLedger.exec, KqueueRunloop.userEvent_free hobject,
      error_bind]
  · rw [ht.balanced.numberInUse, hlive, List.length_singleton]

end CHttp
