import CHttp.CMemory

/-! The kqueue helpers: each hands the kernel one change for the key of a watcher. What a
register, a cancel and a pause do to the kernel's table is settled once, for any key; a
watcher's three helpers work together where they name the same one. -/
namespace CHttp

inductive Evfilt where
  | read
  | write
  | timer
  | signal
  | user
  deriving DecidableEq, Repr

def evAdd : UInt16 := 0x0001
def evDelete : UInt16 := 0x0002
def evEnable : UInt16 := 0x0004
def evDisable : UInt16 := 0x0008
def evOneshot : UInt16 := 0x0010
def evReceipt : UInt16 := 0x0040
def evDispatch : UInt16 := 0x0080

/-- What identifies an event to the kernel. -/
structure KeventKey where
  ident : UInt64
  filter : Evfilt
  deriving DecidableEq, Repr

/-- `struct kevent` as `EV_SET` fills it. A `udata` of 0 is `none`. -/
structure Kevent where
  key : KeventKey
  flags : UInt16
  data : UInt64
  udata : Option UInt64
  deriving DecidableEq, Repr

/-- What the kernel keeps of an event. -/
structure Knote where
  enabled : Bool
  oneshot : Bool
  data : UInt64
  udata : Option UInt64
  deriving DecidableEq, Repr

abbrev Kqueue := KeventKey → Option Knote

/-- `EV_ADD`: an event that is there already takes the new parameters. -/
def Kevent.added (change : Kevent) (old : Option Knote) : Option Knote :=
  if change.flags &&& evAdd ≠ 0 then
    some ⟨(old.map Knote.enabled).getD true, change.flags &&& evOneshot ≠ 0, change.data,
      change.udata⟩
  else old

/-- `EV_ENABLE` and `EV_DISABLE`. -/
def Kevent.switched (change : Kevent) (kn : Knote) : Knote :=
  if change.flags &&& evDisable ≠ 0 then { kn with enabled := false }
  else if change.flags &&& evEnable ≠ 0 then { kn with enabled := true }
  else kn

/-- `kevent` with one change. -/
def kevent (kq : Kqueue) (change : Kevent) : Kqueue :=
  if change.flags &&& evDelete ≠ 0 then Function.update kq change.key none
  else Function.update kq change.key ((change.added (kq change.key)).map change.switched)

/-- `RunloopEvent_s`: its address, and the descriptor with which the `stream` and the
`listener` in its union begin. -/
structure KqueueEvent where
  addr : UInt64
  fd : ℤ
  deriving DecidableEq, Repr

/-- The cast `(uint64_t)` of a descriptor. -/
def fdIdent (fd : ℤ) : UInt64 := UInt64.ofInt fd

def kqhRegister (key : KeventKey) (more : UInt16) (data : UInt64) (rlevent : KqueueEvent)
    (kq : Kqueue) : Kqueue :=
  kevent kq ⟨key, evAdd ||| evEnable ||| evReceipt ||| more, data, some rlevent.addr⟩

def kqhCancel (key : KeventKey) (kq : Kqueue) : Kqueue :=
  kevent kq ⟨key, evDelete ||| evReceipt, 0, none⟩

def kqhPause (key : KeventKey) (kq : Kqueue) : Kqueue :=
  kevent kq ⟨key, evAdd ||| evDisable ||| evReceipt, 0, none⟩

def kqhWriterRegister (rlevent : KqueueEvent) : Kqueue → Kqueue :=
  kqhRegister ⟨fdIdent rlevent.fd, .write⟩ evDispatch 0 rlevent

def kqhWriterCancel (rlevent : KqueueEvent) : Kqueue → Kqueue :=
  kqhCancel ⟨fdIdent rlevent.fd, .write⟩

def kqhWriterPause (rlevent : KqueueEvent) : Kqueue → Kqueue :=
  kqhPause ⟨fdIdent rlevent.fd, .write⟩

/-- The variable `flags` with `EV_DISPATCH` is not what `EV_SET` is given. -/
def kqhReaderRegister (rlevent : KqueueEvent) : Kqueue → Kqueue :=
  kqhRegister ⟨fdIdent rlevent.fd, .read⟩ 0 0 rlevent

def kqhReaderCancel (rlevent : KqueueEvent) : Kqueue → Kqueue :=
  kqhCancel ⟨fdIdent rlevent.fd, .read⟩

def kqhReaderPause (rlevent : KqueueEvent) : Kqueue → Kqueue :=
  kqhPause ⟨fdIdent rlevent.fd, .read⟩

def kqhSignalRegister (rlevent : KqueueEvent) : Kqueue → Kqueue :=
  kqhRegister ⟨rlevent.addr, .signal⟩ 0 0 rlevent

def kqhSignalCancel (rlevent : KqueueEvent) : Kqueue → Kqueue :=
  kqhCancel ⟨rlevent.addr, .signal⟩

def kqhSignalPause (rlevent : KqueueEvent) : Kqueue → Kqueue :=
  kqhPause ⟨rlevent.addr, .signal⟩

def kqhTimerRegister (rlevent : KqueueEvent) (oneShot : Bool) (milliSecs : UInt64) :
    Kqueue → Kqueue :=
  kqhRegister ⟨rlevent.addr, .timer⟩ (if oneShot then evOneshot else 0) milliSecs rlevent

def kqhTimerCancel (rlevent : KqueueEvent) : Kqueue → Kqueue :=
  kqhCancel ⟨rlevent.addr, .timer⟩

def kqhTimerPause (rlevent : KqueueEvent) : Kqueue → Kqueue :=
  kqhPause ⟨rlevent.addr, .timer⟩

def kqhUserEventRegister (rlevent : KqueueEvent) : Kqueue → Kqueue :=
  kqhRegister ⟨rlevent.addr, .user⟩ 0 0 rlevent

/-- The filter is that of a timer. -/
def kqhUserEventCancel (rlevent : KqueueEvent) (kq : Kqueue) : Kqueue :=
  kevent kq ⟨⟨rlevent.addr, .timer⟩, evDelete ||| evReceipt, 0, none⟩

/-- So it is here. -/
def kqhUserEventPause (rlevent : KqueueEvent) (kq : Kqueue) : Kqueue :=
  kevent kq ⟨⟨rlevent.addr, .timer⟩, evAdd ||| evDisable ||| evReceipt, 0, none⟩

def kqhListenerRegister (rlevent : KqueueEvent) : Kqueue → Kqueue :=
  kqhRegister ⟨fdIdent rlevent.fd, .read⟩ evDispatch 0 rlevent

/-- The key has the listener's descriptor, with the filter of a timer. -/
def kqhListenerCancel (rlevent : KqueueEvent) (kq : Kqueue) : Kqueue :=
  kevent kq ⟨⟨fdIdent rlevent.fd, .timer⟩, evDelete ||| evReceipt, 0, none⟩

def kqhListenerPause (rlevent : KqueueEvent) : Kqueue → Kqueue :=
  kqhPause ⟨fdIdent rlevent.fd, .read⟩

/-- The kinds of watchers. A timer is registered with its mode and time. -/
inductive WatcherKind where
  | reader
  | writer
  | timer (oneShot : Bool) (milliSecs : UInt64)
  | signal
  | userEvent
  | listener
  deriving DecidableEq, Repr

/-- The key that belongs to a watcher. -/
def WatcherKind.key (rlevent : KqueueEvent) : WatcherKind → KeventKey
  | .reader | .listener => ⟨fdIdent rlevent.fd, .read⟩
  | .writer => ⟨fdIdent rlevent.fd, .write⟩
  | .timer _ _ => ⟨rlevent.addr, .timer⟩
  | .signal => ⟨rlevent.addr, .signal⟩
  | .userEvent => ⟨rlevent.addr, .user⟩

def WatcherKind.register (rlevent : KqueueEvent) : WatcherKind → Kqueue → Kqueue
  | .reader => kqhReaderRegister rlevent
  | .writer => kqhWriterRegister rlevent
  | .timer oneShot milliSecs => kqhTimerRegister rlevent oneShot milliSecs
  | .signal => kqhSignalRegister rlevent
  | .userEvent => kqhUserEventRegister rlevent
  | .listener => kqhListenerRegister rlevent

def WatcherKind.cancel (rlevent : KqueueEvent) : WatcherKind → Kqueue → Kqueue
  | .reader => kqhReaderCancel rlevent
  | .writer => kqhWriterCancel rlevent
  | .timer _ _ => kqhTimerCancel rlevent
  | .signal => kqhSignalCancel rlevent
  | .userEvent => kqhUserEventCancel rlevent
  | .listener => kqhListenerCancel rlevent

def WatcherKind.pause (rlevent : KqueueEvent) : WatcherKind → Kqueue → Kqueue
  | .reader => kqhReaderPause rlevent
  | .writer => kqhWriterPause rlevent
  | .timer _ _ => kqhTimerPause rlevent
  | .signal => kqhSignalPause rlevent
  | .userEvent => kqhUserEventPause rlevent
  | .listener => kqhListenerPause rlevent

/-- The kernel's table changes at one key at most. -/
def OnlyAt (key : KeventKey) (f : Kqueue → Kqueue) : Prop :=
  ∀ kq other, other ≠ key → f kq other = kq other

/-- Register, cancel and pause of a watcher act on its key and on nothing else. -/
structure WatcherKind.Lawful (kind : WatcherKind) (rlevent : KqueueEvent) (kq : Kqueue) :
    Prop where
  registered : ∃ kn, kind.register rlevent kq (kind.key rlevent) = some kn ∧ kn.enabled = true
  cancelled : kind.cancel rlevent (kind.register rlevent kq) (kind.key rlevent) = none
  paused : ∃ kn, kind.pause rlevent (kind.register rlevent kq) (kind.key rlevent) = some kn ∧
    kn.enabled = false
  register_frame : OnlyAt (kind.key rlevent) (kind.register rlevent)
  cancel_frame : OnlyAt (kind.key rlevent) (kind.cancel rlevent)
  pause_frame : OnlyAt (kind.key rlevent) (kind.pause rlevent)

theorem kevent_onlyAt (change : Kevent) : OnlyAt change.key fun kq => kevent kq change := by
  intro kq other hne
  simp only [kevent]
  split_ifs
  · exact Function.update_of_ne hne _ _
  · exact Function.update_of_ne hne _ _

section key

variable (change : Kevent) (kq : Kqueue)

theorem kevent_delete (hdelete : change.flags &&& evDelete ≠ 0) :
    kevent kq change change.key = none := by
  rw [kevent, if_pos hdelete, Function.update_self]

/-- An event that is added has the parameters of the change, whatever was there before. -/
theorem kevent_add (hdelete : change.flags &&& evDelete = 0) (hadd : change.flags &&& evAdd ≠ 0) :
    ∃ enabled, kevent kq change change.key = some (change.switched
      ⟨enabled, change.flags &&& evOneshot ≠ 0, change.data, change.udata⟩) := by
  refine ⟨((kq change.key).map Knote.enabled).getD true, ?_⟩
  rw [kevent, if_neg (not_not_intro hdelete), Function.update_self, Kevent.added, if_pos hadd,
    Option.map_some]

variable (key : KeventKey) (data : UInt64) (rlevent : KqueueEvent)

/-- What a register may ask for beyond the flags they all have does not switch the event
off. -/
theorem kqhRegister_self (more : UInt16) (hmore : more = 0 ∨ more = evDispatch ∨ more = evOneshot) :
    kqhRegister key more data rlevent kq key =
      some ⟨true, more = evOneshot, data, some rlevent.addr⟩ := by
  have hflags : (evAdd ||| evEnable ||| evReceipt ||| more) &&& evDelete = 0 ∧
      (evAdd ||| evEnable ||| evReceipt ||| more) &&& evAdd ≠ 0 ∧
      (evAdd ||| evEnable ||| evReceipt ||| more) &&& evDisable = 0 ∧
      (evAdd ||| evEnable ||| evReceipt ||| more) &&& evEnable ≠ 0 ∧
      ((evAdd ||| evEnable ||| evReceipt ||| more) &&& evOneshot ≠ 0 ↔ more = evOneshot) := by
    rcases hmore with rfl | rfl | rfl <;> decide
  obtain ⟨hdelete, hadd, hdisable, henable, honeshot⟩ := hflags
  obtain ⟨enabled, hkn⟩ := kevent_add ⟨key, evAdd ||| evEnable ||| evReceipt ||| more, data,
    some rlevent.addr⟩ kq hdelete hadd
  rw [kqhRegister, hkn, Kevent.switched, if_neg (not_not_intro hdisable), if_pos henable]
  simp only [honeshot]

theorem kqhCancel_self : kqhCancel key kq key = none :=
  kevent_delete ⟨key, evDelete ||| evReceipt, 0, none⟩ kq
    (show (evDelete ||| evReceipt) &&& evDelete ≠ 0 by decide)

theorem kqhPause_self : kqhPause key kq key = some ⟨false, false, 0, none⟩ := by
  have hdelete : (evAdd ||| evDisable ||| evReceipt) &&& evDelete = 0 := by decide
  have hadd : (evAdd ||| evDisable ||| evReceipt) &&& evAdd ≠ 0 := by decide
  have hdisable : (evAdd ||| evDisable ||| evReceipt) &&& evDisable ≠ 0 := by decide
  have honeshot : ¬((evAdd ||| evDisable ||| evReceipt) &&& evOneshot ≠ 0) := by decide
  obtain ⟨enabled, hkn⟩ := kevent_add ⟨key, evAdd ||| evDisable ||| evReceipt, 0, none⟩ kq
    hdelete hadd
  rw [kqhPause, hkn, Kevent.switched, if_pos hdisable]
  simp only [honeshot, decide_false]

end key

section kinds

variable (rlevent : KqueueEvent) (kq : Kqueue)

theorem WatcherKind.register_self (kind : WatcherKind) :
    ∃ kn, kind.register rlevent kq (kind.key rlevent) = some kn ∧ kn.enabled = true := by
  cases kind with
  | reader => exact ⟨_, kqhRegister_self _ _ _ _ 0 (.inl rfl), rfl⟩
  | writer => exact ⟨_, kqhRegister_self _ _ _ _ evDispatch (.inr (.inl rfl)), rfl⟩
  | timer oneShot milliSecs =>
    refine ⟨_, kqhRegister_self _ _ _ _ (if oneShot then evOneshot else 0) ?_, rfl⟩
    cases oneShot with
    | false => exact .inl rfl
    | true => exact .inr (.inr rfl)
  | signal => exact ⟨_, kqhRegister_self _ _ _ _ 0 (.inl rfl), rfl⟩
  | userEvent => exact ⟨_, kqhRegister_self _ _ _ _ 0 (.inl rfl), rfl⟩
  | listener => exact ⟨_, kqhRegister_self _ _ _ _ evDispatch (.inr (.inl rfl)), rfl⟩

theorem WatcherKind.register_onlyAt (kind : WatcherKind) :
    OnlyAt (kind.key rlevent) (kind.register rlevent) := by
  cases kind <;> exact kevent_onlyAt ⟨_, _, _, _⟩

/-- A kind whose cancel and pause name its key is lawful. -/
theorem WatcherKind.lawful_of_key (kind : WatcherKind)
    (hcancel : kind.cancel rlevent = kqhCancel (kind.key rlevent))
    (hpause : kind.pause rlevent = kqhPause (kind.key rlevent)) : kind.Lawful rlevent kq where
  registered := kind.register_self rlevent kq
  cancelled := by rw [hcancel, kqhCancel_self]
  paused := ⟨_, by rw [hpause, kqhPause_self], rfl⟩
  register_frame := kind.register_onlyAt rlevent
  cancel_frame := by
    rw [hcancel]
    exact kevent_onlyAt ⟨kind.key rlevent, _, _, _⟩
  pause_frame := by
    rw [hpause]
    exact kevent_onlyAt ⟨kind.key rlevent, _, _, _⟩

/-- A kind whose cancel acts on another key leaves its event registered. -/
theorem WatcherKind.not_lawful_of_cancel (kind : WatcherKind) (key : KeventKey)
    (hne : kind.key rlevent ≠ key) (hcancel : OnlyAt key (kind.cancel rlevent)) :
    ¬kind.Lawful rlevent kq := by
  intro h
  obtain ⟨kn, hkn, -⟩ := h.registered
  have hgone := h.cancelled
  rw [hcancel _ _ hne, hkn] at hgone
  cases hgone

end kinds

/-- For every table of the kernel and every watcher, register, cancel and pause fit together
exactly if the watcher is neither a user event nor a listener. -/
theorem kqh_lawful_iff (kind : WatcherKind) (rlevent : KqueueEvent) (kq : Kqueue) :
    kind.Lawful rlevent kq ↔ kind ≠ .userEvent ∧ kind ≠ .listener := by
  cases kind with
  | reader => exact iff_of_true (WatcherKind.lawful_of_key _ _ _ rfl rfl) (by decide)
  | writer => exact iff_of_true (WatcherKind.lawful_of_key _ _ _ rfl rfl) (by decide)
  | timer oneShot milliSecs =>
    exact iff_of_true (WatcherKind.lawful_of_key _ _ _ rfl rfl) ⟨by simp, by simp⟩
  | signal => exact iff_of_true (WatcherKind.lawful_of_key _ _ _ rfl rfl) (by decide)
  | userEvent =>
    refine iff_of_false ?_ (fun h => h.1 rfl)
    exact WatcherKind.not_lawful_of_cancel _ _ _ ⟨rlevent.addr, .timer⟩
      (by simp [WatcherKind.key]) (kevent_onlyAt ⟨_, _, _, _⟩)
  | listener =>
    refine iff_of_false ?_ (fun h => h.2 rfl)
    exact WatcherKind.not_lawful_of_cancel _ _ _ ⟨fdIdent rlevent.fd, .timer⟩
      (by simp [WatcherKind.key]) (kevent_onlyAt ⟨_, _, _, _⟩)

/-- The listener on descriptor 5 is still in the kernel's table after its cancel, enabled,
and a user event after its pause. -/
theorem kqh_listener_stays_registered :
    kqhListenerCancel ⟨4096, 5⟩ (kqhListenerRegister ⟨4096, 5⟩ fun _ => none) ⟨5, .read⟩ =
        some ⟨true, false, 0, some 4096⟩ ∧
      kqhUserEventPause ⟨4096, 0⟩ (kqhUserEventRegister ⟨4096, 0⟩ fun _ => none) ⟨4096, .user⟩ =
        some ⟨true, false, 0, some 4096⟩ := by
  decide

end CHttp
