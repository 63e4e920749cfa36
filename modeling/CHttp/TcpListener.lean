import CHttp.KqueueHelpers

/-! The TCP listener over the kqueue runloop. One slot holds the callback of the accept that
is pending, and two triggers serve it: the attempt that `tcp_accept` posts, and the event of
a listener that became ready. -/
namespace CHttp

inductive ListenerState where
  | eagain
  | ready
  | initial
  | stopped
  | error
  deriving DecidableEq, Repr

/-- What `accept` returns: a descriptor, or -1 with EAGAIN or with another errno. -/
inductive AcceptResult where
  | accepted (sock : ℕ)
  | again
  | failed (errno : ℕ+)
  deriving DecidableEq, Repr

/-- What a `RunloopListener` can be armed with here. -/
inductive ListenPostable where
  | onAcceptReady
  deriving DecidableEq, Repr

/-- A call of `invoke_accept_callback`: the callback it finds, with its argument, and what it
is given to pass on. -/
structure AcceptEntry where
  acceptCb : Option ℕ
  acceptCbArg : Option ℕ
  newSock : ℕ
  error : ℤ
  deriving DecidableEq, Repr

/-- The socket that a callback is given with error 0. -/
def AcceptEntry.socket (x : AcceptEntry) : Option ℕ := if x.error = 0 then some x.newSock else none

/-- A listener, its part of the runloop, and the history. A callback is known by the number
of the `tcp_accept` that brought it; `none` is NULL. -/
structure AcceptWorld where
  lState : ListenerState
  acceptCb : Option ℕ
  acceptCbArg : Option ℕ
  rlevent : KqueueEvent
  listenPostable : Option ListenPostable
  kqueue : Kqueue
  /-- attempts in the ready list -/
  posted : ℕ
  /-- the event is in the batch that `kevent` returned, and its handler has not been called -/
  reported : Bool
  /-- calls of `tcp_accept` so far -/
  accepts : ℕ
  /-- calls of `invoke_accept_callback` so far -/
  entered : List AcceptEntry
  /-- descriptors that `accept` returned so far -/
  sockets : List ℕ

namespace AcceptWorld

def key (w : AcceptWorld) : KeventKey := WatcherKind.listener.key w.rlevent

def knote (w : AcceptWorld) : Option Knote := w.kqueue w.key

/-- The descriptor is a new one, so the kernel has no event for it. -/
def tcpListenerInit (rlevent : KqueueEvent) (kq : Kqueue) : AcceptWorld where
  lState := .initial
  acceptCb := none
  acceptCbArg := none
  rlevent := rlevent
  listenPostable := none
  kqueue := Function.update kq (WatcherKind.listener.key rlevent) none
  posted := 0
  reported := false
  accepts := 0
  entered := []
  sockets := []

def invokeAcceptCallback (ctx : AcceptWorld) (newSock : ℕ) (error : ℤ) : AcceptWorld :=
  { ctx with
    acceptCb := none
    acceptCbArg := none
    entered := ctx.entered ++ [⟨ctx.acceptCb, ctx.acceptCbArg, newSock, error⟩] }

/-- The helper returns 0 always, so the assertion on its result holds. -/
def runloopListenerArm (w : AcceptWorld) (postable : ListenPostable) : AcceptWorld :=
  { w with listenPostable := some postable, kqueue := kqhListenerRegister w.rlevent w.kqueue }

def runloopListenerRegister (w : AcceptWorld) (postable : ListenPostable) : AcceptWorld :=
  { w with listenPostable := some postable, kqueue := kqhListenerRegister w.rlevent w.kqueue }

/-- A callback that accepts again does so when the slot is empty. As nothing but a post
follows the call of it, this is the same as a `tcp_accept` that comes next. -/
def tcpAccept (w : AcceptWorld) (arg : Option ℕ) : Res AcceptWorld := do
  cAssert w.acceptCb.isNone "tcp_listener_ref->accept_cb == NULL"
  cAssert w.acceptCbArg.isNone "tcp_listener_ref->accept_cb_arg == NULL"
  let w := { w with acceptCb := some w.accepts, acceptCbArg := arg, accepts := w.accepts+1 }
  let w := match w.lState with
    | .initial | .ready | .eagain => w
    | .stopped | .error => w.invokeAcceptCallback 0 (-33)
  .ok { w with posted := w.posted+1 }

def tryAccept (ctx : AcceptWorld) : AcceptResult → AcceptWorld
  -- descriptor 0 is taken for a closed socket
  | .accepted 0 => { ctx with sockets := ctx.sockets ++ [0] }.invokeAcceptCallback 0 (-33)
  | .accepted (sock+1) =>
    { ctx with
      sockets := ctx.sockets ++ [sock+1]
      lState := .ready }.invokeAcceptCallback (sock+1) 0
  | .again => { ctx with lState := .eagain }.runloopListenerArm .onAcceptReady
  | .failed errno => { ctx with lState := .error }.invokeAcceptCallback 0 errno

/-- `listened` says whether `listen` returned 0. -/
def postableTryAccept (ctx : AcceptWorld) (listened : Bool) (result : AcceptResult) :
    Res AcceptWorld := do
  let ctx := ctx.runloopListenerRegister .onAcceptReady
  match ctx.lState with
  | .initial =>
    cAssert listened "0"
    .ok ({ ctx with lState := .ready }.tryAccept result)
  -- unlike `on_accept_ready`, this does not look whether an accept is pending
  | .ready => .ok (ctx.tryAccept result)
  | .eagain | .stopped | .error => .ok ctx

def onAcceptReady (ctx : AcceptWorld) (result : AcceptResult) : Res AcceptWorld :=
  match ctx.lState with
  | .eagain | .ready =>
    let ctx := { ctx with lState := .ready }
    .ok (if ctx.acceptCb.isSome then ctx.tryAccept result else ctx)
  | .initial | .stopped | .error => .error (.assertion "0")

/-- The handler of the `RunloopListener`. -/
def handler (w : AcceptWorld) (result : AcceptResult) : Res AcceptWorld :=
  match w.listenPostable with
  | some .onAcceptReady => w.onAcceptReady result
  | none => .ok w

/-- `kevent` returns the event, and as `EV_DISPATCH` asks, the kernel disables it. -/
def report (w : AcceptWorld) : AcceptWorld :=
  { w with
    kqueue := Function.update w.kqueue w.key
      (w.knote.map fun kn => { kn with enabled := false })
    reported := true }

end AcceptWorld

/-- What can happen to a listener. The functions that try to accept take the result of
`accept` along, for the case that they call it. -/
inductive AcceptEvent where
  | tcpAccept (arg : Option ℕ)
  | runPosted (listened : Bool) (result : AcceptResult)
  | report
  | handle (result : AcceptResult)
  deriving DecidableEq, Repr

namespace AcceptWorld

/-- A call through NULL is the last thing that happens. -/
def Alive (w : AcceptWorld) : Prop := ∀ x ∈ w.entered, x.acceptCb ≠ none

def Enabled (w : AcceptWorld) : AcceptEvent → Prop
  | .tcpAccept _ => w.Alive ∧ w.acceptCb = none
  | .runPosted _ _ => w.Alive ∧ 0 < w.posted
  | .report => w.Alive ∧ w.reported = false ∧ w.knote.any Knote.enabled = true
  | .handle _ => w.Alive ∧ w.reported = true

def exec (w : AcceptWorld) : AcceptEvent → Res AcceptWorld
  | .tcpAccept arg => w.tcpAccept arg
  | .runPosted listened result =>
    { w with posted := w.posted-1 }.postableTryAccept listened result
  | .report => .ok w.report
  | .handle result => { w with reported := false }.handler result

instance (w : AcceptWorld) : Decidable w.Alive :=
  inferInstanceAs (Decidable (∀ x ∈ w.entered, x.acceptCb ≠ none))

end AcceptWorld

def acceptMachine : Machine AcceptWorld AcceptEvent Fault :=
  ⟨AcceptWorld.Enabled, AcceptWorld.exec⟩

instance (w : AcceptWorld) (e : AcceptEvent) : Decidable (acceptMachine.enabled w e) :=
  match e with
  | .tcpAccept _ => inferInstanceAs (Decidable (w.Alive ∧ w.acceptCb = none))
  | .runPosted _ _ => inferInstanceAs (Decidable (w.Alive ∧ 0 < w.posted))
  | .report =>
    inferInstanceAs
      (Decidable (w.Alive ∧ w.reported = false ∧ w.knote.any Knote.enabled = true))
  | .handle _ => inferInstanceAs (Decidable (w.Alive ∧ w.reported = true))

namespace AcceptWorld

/-- Readiness leads to `on_accept_ready`: the kernel will report it, or has just done so. -/
def Armed (w : AcceptWorld) : Prop :=
  w.listenPostable = some .onAcceptReady ∧
    (w.knote.any Knote.enabled = true ∨ w.reported = true)

/-- Every call found a callback, no callback was called twice, and the sockets that were
passed on with error 0 are those that `accept` returned. -/
structure Logged (w : AcceptWorld) : Prop where
  notNull : w.Alive
  once : (w.entered.map AcceptEntry.acceptCb).Nodup
  sockets : w.entered.filterMap AcceptEntry.socket = w.sockets

/-- Accepts, callbacks and sockets are matched one to one, and a pending accept that waits
for a connection will hear of it. -/
structure Matched (w : AcceptWorld) : Prop extends w.Logged where
  armed : w.acceptCb ≠ none → w.lState = .eagain → w.Armed

/-- What holds along any run: a pending callback has not been called, an event in the kernel's
table comes with the function to call, and in state EAGAIN the listener is armed. -/
structure Known (w : AcceptWorld) : Prop where
  fresh : w.acceptCb ≠ none → w.acceptCb ∉ w.entered.map AcceptEntry.acceptCb
  pending : ∀ n ∈ w.acceptCb, n < w.accepts
  below : ∀ x ∈ w.entered, ∀ n ∈ x.acceptCb, n < w.accepts
  postable : w.knote ≠ none ∨ w.reported = true → w.listenPostable = some .onAcceptReady
  armed : w.lState = .eagain → w.Armed

end AcceptWorld

/-- An attempt with this result ends well: nothing is called, or a callback is there and the
descriptor is not 0. -/
def AcceptResult.Serves (w : AcceptWorld) (result : AcceptResult) : Prop :=
  result = .again ∨ w.acceptCb ≠ none ∧ result ≠ .accepted 0

instance (w : AcceptWorld) (result : AcceptResult) : Decidable (result.Serves w) :=
  inferInstanceAs (Decidable (result = .again ∨ w.acceptCb ≠ none ∧ result ≠ .accepted 0))

/-- The condition on a step. A posted attempt does not look whether an accept is pending. -/
def AcceptEvent.Serves (w : AcceptWorld) : AcceptEvent → Prop
  | .runPosted _ result => w.lState = .initial ∨ w.lState = .ready → result.Serves w
  | .handle result => w.acceptCb ≠ none → result ≠ .accepted 0
  | .tcpAccept _ | .report => True

instance (w : AcceptWorld) (e : AcceptEvent) : Decidable (e.Serves w) :=
  match e with
  | .runPosted _ result =>
    inferInstanceAs (Decidable (w.lState = .initial ∨ w.lState = .ready → result.Serves w))
  | .handle result => inferInstanceAs (Decidable (w.acceptCb ≠ none → result ≠ .accepted 0))
  | .tcpAccept _ | .report => inferInstanceAs (Decidable True)

namespace AcceptWorld

variable {w t : AcceptWorld}

section steps

theorem runloopListenerArm_knote (w : AcceptWorld) (postable : ListenPostable) :
    (w.runloopListenerArm postable).knote = some ⟨true, false, 0, some w.rlevent.addr⟩ :=
  kqhRegister_self _ _ _ _ evDispatch (.inr (.inl rfl))

theorem armed_arm (w : AcceptWorld) : (w.runloopListenerArm .onAcceptReady).Armed := by
  refine ⟨rfl, .inl ?_⟩
  rw [runloopListenerArm_knote]
  rfl

/-- The log does not depend on the state, the runloop or the pending accept. -/
theorem Logged.congr (h : w.Logged) (hentered : t.entered = w.entered)
    (hsockets : t.sockets = w.sockets) : t.Logged := by
  refine ⟨?_, ?_, ?_⟩
  · rw [Alive, hentered]
    exact h.notNull
  · rw [hentered]
    exact h.once
  · rw [hentered, hsockets, h.sockets]

theorem Known.matched (hk : w.Known) (h : w.Logged) : w.Matched := ⟨h, fun _ => hk.armed⟩

theorem Known.setReady (h : w.Known) (reported : Bool)
    (hreported : reported = true → w.reported = true) :
    { w with lState := .ready, reported := reported }.Known := by
  refine ⟨h.fresh, h.pending, h.below, fun hevent => h.postable ?_, fun hstate => by cases hstate⟩
  exact hevent.imp_right hreported

theorem Known.arm (h : w.Known) (lState : ListenerState) :
    ({ w with lState := lState }.runloopListenerArm .onAcceptReady).Known :=
  ⟨h.fresh, h.pending, h.below, fun _ => rfl, fun _ => armed_arm _⟩

theorem Known.invoke (h : w.Known) (newSock : ℕ) (error : ℤ) :
    (w.invokeAcceptCallback newSock error).Known := by
  refine ⟨fun hne => absurd rfl hne, (by rintro n ⟨⟩), ?_, h.postable, h.armed⟩
  intro x hx n hn
  rcases List.mem_append.mp hx with hx | hx
  · exact h.below x hx n hn
  · obtain rfl := List.mem_singleton.mp hx
    exact h.pending n hn

theorem Known.tryAccept (h : w.Known) (hstate : w.lState = .ready) (result : AcceptResult) :
    (w.tryAccept result).Known := by
  have hset (lState : ListenerState) (hne : lState ≠ .eagain) (sockets : List ℕ) :
      { w with lState := lState, sockets := sockets }.Known :=
    ⟨h.fresh, h.pending, h.below, h.postable, fun heq => absurd heq hne⟩
  match result with
  | .accepted 0 => exact (hset w.lState (by rw [hstate]; decide) _).invoke 0 (-33)
  | .accepted (sock+1) => exact (hset .ready (by decide) _).invoke (sock+1) 0
  | .again => exact h.arm .eagain
  | .failed errno => exact (hset .error (by decide) w.sockets).invoke 0 errno

/-- A call of `invoke_accept_callback` after `accept` returned `ss`. -/
theorem Logged.invoke_iff {v : AcceptWorld} {ss : List ℕ} (hw : w.Logged) (hk : w.Known)
    (hcb : v.acceptCb = w.acceptCb) (hentered : v.entered = w.entered)
    (hsockets : v.sockets = w.sockets ++ ss) (newSock : ℕ) (error : ℤ) :
    (v.invokeAcceptCallback newSock error).Matched ↔
      w.acceptCb ≠ none ∧ (if error = 0 then [newSock] else []) = ss := by
  have hpassed : (v.invokeAcceptCallback newSock error).entered.filterMap AcceptEntry.socket =
      w.sockets ++ if error = 0 then [newSock] else [] := by
    simp only [invokeAcceptCallback, hentered, List.filterMap_append, hw.sockets]
    split_ifs with herror <;> simp [AcceptEntry.socket, herror]
  constructor
  · intro h
    constructor
    · rw [← hcb]
      exact h.notNull ⟨v.acceptCb, v.acceptCbArg, newSock, error⟩
        (List.mem_append_right _ (List.mem_singleton_self _))
    · have hsame := hpassed.symm.trans h.sockets
      rw [invokeAcceptCallback, hsockets] at hsame
      exact List.append_cancel_left hsame
  · rintro ⟨hpending, hss⟩
    refine ⟨⟨?_, ?_, ?_⟩, fun hne => absurd rfl hne⟩
    · intro x hx
      rcases List.mem_append.mp hx with hx | hx
      · rw [hentered] at hx
        exact hw.notNull x hx
      · obtain rfl := List.mem_singleton.mp hx
        rwa [← hcb] at hpending
    · simp only [invokeAcceptCallback, hentered, List.map_append, List.map_cons, List.map_nil, hcb]
      exact nodup_snoc hw.once (hk.fresh hpending)
    · rw [hpassed, hss, invokeAcceptCallback, hsockets]

/-- What an attempt does, whatever the state before it. -/
theorem Known.tryAccept_iff (hk : w.Known) (hw : w.Logged) (result : AcceptResult) :
    (w.tryAccept result).Matched ↔ result.Serves w := by
  match result with
  | .accepted 0 =>
    refine (hw.invoke_iff (v := { w with sockets := w.sockets ++ [0] }) hk rfl rfl rfl 0
      (-33)).trans ?_
    simp [AcceptResult.Serves]
  | .accepted (sock+1) =>
    refine (hw.invoke_iff (v := { w with sockets := w.sockets ++ [sock+1], lState := .ready }) hk
      rfl rfl rfl (sock+1) 0).trans ?_
    simp [AcceptResult.Serves]
  | .again =>
    have hlogged : (w.tryAccept .again).Logged := hw.congr rfl rfl
    exact iff_of_true ⟨hlogged, fun _ _ => armed_arm _⟩ (.inl rfl)
  | .failed errno =>
    refine (hw.invoke_iff (v := { w with lState := .error }) hk rfl rfl (List.append_nil _).symm 0
      errno).trans ?_
    simp [AcceptResult.Serves]

theorem tcpAccept_step (hk : w.Known) (hw : w.Logged) (arg : Option ℕ)
    (hx : w.tcpAccept arg = .ok t) : t.Matched ∧ t.Known := by
  obtain ⟨-, hx⟩ := (cAssert_bind_eq_ok _ _ _ _).mp hx
  obtain ⟨-, hx⟩ := (cAssert_bind_eq_ok _ _ _ _).mp hx
  have hfresh : some w.accepts ∉ w.entered.map AcceptEntry.acceptCb := by
    intro hmem
    obtain ⟨x, hxmem, hxcb⟩ := List.mem_map.mp hmem
    exact (hk.below x hxmem w.accepts hxcb).false
  have hset : { w with
      acceptCb := some w.accepts, acceptCbArg := arg, accepts := w.accepts+1,
      posted := w.posted+1 }.Known := by
    refine ⟨fun _ => hfresh, ?_, fun x hx n hn => (hk.below x hx n hn).trans (Nat.lt_succ_self _),
      hk.postable, hk.armed⟩
    rintro n ⟨⟩
    exact Nat.lt_succ_self _
  have hlogged : { w with
      acceptCb := some w.accepts, acceptCbArg := arg, accepts := w.accepts+1,
      posted := w.posted+1 }.Logged := hw.congr rfl rfl
  cases hstate : w.lState with
  | initial | ready | eagain =>
    simp only [hstate] at hx
    obtain rfl := Except.ok.inj hx
    rw [← hstate]
    exact ⟨hset.matched hlogged, hset⟩
  | stopped | error =>
    simp only [hstate] at hx
    obtain rfl := Except.ok.inj hx
    rw [← hstate]
    refine ⟨(hlogged.invoke_iff hset rfl rfl (List.append_nil _).symm 0 (-33)).mpr ?_,
      hset.invoke 0 (-33)⟩
    exact ⟨Option.some_ne_none _, rfl⟩

/-- In the states INITIAL and READY a posted attempt tries, in the others it only registers
the listener. -/
theorem postableTryAccept_inv {listened : Bool} {result : AcceptResult}
    (hx : w.postableTryAccept listened result = .ok t) :
    (w.lState = .initial ∨ w.lState = .ready) ∧
        t = ({ w with lState := .ready }.runloopListenerArm .onAcceptReady).tryAccept result ∨
      ¬(w.lState = .initial ∨ w.lState = .ready) ∧
        t = { w with lState := w.lState }.runloopListenerArm .onAcceptReady := by
  obtain ⟨lState⟩ := w
  cases lState with
  | initial =>
    obtain ⟨-, hx⟩ := (cAssert_bind_eq_ok _ _ _ _).mp hx
    exact .inl ⟨.inl rfl, (Except.ok.inj hx).symm⟩
  | ready => exact .inl ⟨.inr rfl, (Except.ok.inj hx).symm⟩
  | eagain | stopped | error => exact .inr ⟨by simp, (Except.ok.inj hx).symm⟩

theorem runPosted_step (hk : w.Known) (hw : w.Logged) (listened : Bool) (result : AcceptResult)
    (hx : w.exec (.runPosted listened result) = .ok t) :
    Machine.HoldsIff Matched Known t (AcceptEvent.Serves w (.runPosted listened result)) := by
  have hposted : { w with posted := w.posted-1 }.Known :=
    ⟨hk.fresh, hk.pending, hk.below, hk.postable, hk.armed⟩
  rcases postableTryAccept_inv hx with ⟨htries, rfl⟩ | ⟨hidle, rfl⟩
  · have hready := hposted.arm .ready
    have hserves := hready.tryAccept_iff (hw.congr rfl rfl) result
    refine ⟨hserves.trans ⟨fun h _ => h, fun h => h htries⟩, fun _ => hready.tryAccept rfl result⟩
  · have hknown := hposted.arm w.lState
    exact .of_holds ⟨hknown.matched (hw.congr rfl rfl), hknown⟩ (fun h => absurd h hidle)

theorem report_step (hk : w.Known) (hw : w.Logged) (he : w.Enabled .report) :
    w.report.Matched ∧ w.report.Known := by
  have hknote : w.knote ≠ none := by
    intro hnone
    have hevent := he.2.2
    rw [hnone] at hevent
    cases hevent
  have hknown : w.report.Known := by
    refine ⟨hk.fresh, hk.pending, hk.below, fun _ => hk.postable (.inl hknote), fun hstate => ?_⟩
    exact ⟨(hk.armed hstate).1, .inr rfl⟩
  exact ⟨hknown.matched (hw.congr rfl rfl), hknown⟩

theorem handler_inv {result : AcceptResult} (hpostable : w.listenPostable = some .onAcceptReady)
    (hx : w.handler result = .ok t) :
    w.acceptCb ≠ none ∧ t = { w with lState := .ready }.tryAccept result ∨
      w.acceptCb = none ∧ t = { w with lState := .ready } := by
  rw [handler, hpostable] at hx
  obtain ⟨lState, acceptCb⟩ := w
  cases lState with
  | eagain | ready =>
    cases acceptCb with
    | none => exact .inr ⟨rfl, (Except.ok.inj hx).symm⟩
    | some n => exact .inl ⟨Option.some_ne_none n, (Except.ok.inj hx).symm⟩
  | initial | stopped | error => cases hx

theorem handle_step (hk : w.Known) (hw : w.Logged) (result : AcceptResult)
    (he : w.Enabled (.handle result)) (hx : w.exec (.handle result) = .ok t) :
    Machine.HoldsIff Matched Known t (AcceptEvent.Serves w (.handle result)) := by
  have hready : { w with lState := .ready, reported := false }.Known := hk.setReady false nofun
  have hpostable := hk.postable (.inr he.2)
  rcases handler_inv (w := { w with reported := false }) hpostable hx with
    ⟨hcb, rfl⟩ | ⟨hcb, rfl⟩
  · have hserves := hready.tryAccept_iff (hw.congr rfl rfl) result
    refine ⟨hserves.trans ⟨?_, fun h => .inr ⟨hcb, h hcb⟩⟩, fun _ => hready.tryAccept rfl result⟩
    rintro (rfl | ⟨-, hne⟩) -
    · exact nofun
    · exact hne
  · exact .of_holds ⟨hready.matched (hw.congr rfl rfl), hready⟩ (fun hne => absurd hcb hne)

/-- One step: what is known stays known, and the match stays if the step meets the
condition, and only then. -/
theorem matched_step (hk : w.Known) (hw : w.Matched) (e : AcceptEvent) (he : w.Enabled e)
    (hx : w.exec e = .ok t) : Machine.HoldsIff Matched Known t (e.Serves w) := by
  cases e with
  | tcpAccept arg => exact .of_holds (tcpAccept_step hk hw.toLogged arg hx) trivial
  | runPosted listened result => exact runPosted_step hk hw.toLogged listened result hx
  | report =>
    obtain rfl := Except.ok.inj hx
    exact .of_holds (report_step hk hw.toLogged he) trivial
  | handle result => exact handle_step hk hw.toLogged result he hx

end steps

theorem tcpListenerInit_matched (rlevent : KqueueEvent) (kq : Kqueue) :
    (tcpListenerInit rlevent kq).Matched ∧ (tcpListenerInit rlevent kq).Known := by
  have hlogged : (tcpListenerInit rlevent kq).Logged :=
    ⟨fun x hx => absurd hx List.not_mem_nil, List.nodup_nil, rfl⟩
  have hknote : (tcpListenerInit rlevent kq).knote = none := Function.update_self _ _ _
  have hknown : (tcpListenerInit rlevent kq).Known := by
    refine ⟨fun hne => absurd rfl hne, (by rintro n ⟨⟩), fun x hx => absurd hx List.not_mem_nil,
      fun hevent => ?_, (by rintro ⟨⟩)⟩
    rcases hevent with hevent | hevent
    · exact absurd hknote hevent
    · cases hevent
  exact ⟨hknown.matched hlogged, hknown⟩

end AcceptWorld

/-- In any interleaving of accepts, posted attempts and readiness, callbacks, accepts and
sockets are matched all the time exactly if each posted attempt that tries finds a callback or
no connection, and `accept` never returns descriptor 0. -/
theorem tcp_accepts_matched_iff (rlevent : KqueueEvent) (kq : Kqueue) (es : List AcceptEvent)
    (w : AcceptWorld) (h : acceptMachine.Run (.tcpListenerInit rlevent kq) es w) :
    acceptMachine.Always AcceptWorld.Matched (.tcpListenerInit rlevent kq) es ↔
      (acceptMachine.restrict fun w e => e.Serves w).Run (.tcpListenerInit rlevent kq) es w := by
  obtain ⟨hmatched, hknown⟩ := AcceptWorld.tcpListenerInit_matched rlevent kq
  refine h.always_iff ?_ hknown hmatched
  exact fun w e t hk hw he hx => AcceptWorld.matched_step hk hw e he hx

/-- The first accept waits for its connection, the second finds one at once. -/
theorem tcp_accepts_matched_two :
    ∃ w, acceptMachine.Run (.tcpListenerInit ⟨4096, 3⟩ fun _ => none)
        [.tcpAccept (some 64), .runPosted true .again, .report, .handle (.accepted 5),
          .tcpAccept (some 64), .runPosted true (.accepted 6)] w ∧
      w.sockets = [5, 6] ∧
      acceptMachine.Always AcceptWorld.Matched (.tcpListenerInit ⟨4096, 3⟩ fun _ => none)
        [.tcpAccept (some 64), .runPosted true .again, .report, .handle (.accepted 5),
          .tcpAccept (some 64), .runPosted true (.accepted 6)] := by
  obtain ⟨w, hrun, hsockets⟩ : ∃ w, (acceptMachine.restrict fun w e => e.Serves w).Run
      (.tcpListenerInit ⟨4096, 3⟩ fun _ => none)
      [.tcpAccept (some 64), .runPosted true .again, .report, .handle (.accepted 5),
        .tcpAccept (some 64), .runPosted true (.accepted 6)] w ∧ w.sockets = [5, 6] :=
    Machine.exists_run_of_replay _ (by decide)
  exact ⟨w, hrun.of_restrict, hsockets,
    (tcp_accepts_matched_iff _ _ _ w hrun.of_restrict).mpr hrun⟩

/-- One connection has been served. Of the next batch the listener's event is a part, and a
callback in front of it accepts again. The event serves that accept, and the attempt that was
posted for it then calls through NULL with a third connection. -/
theorem tcp_accept_calls_null :
    ∃ w, acceptMachine.Run (.tcpListenerInit ⟨4096, 3⟩ fun _ => none)
        [.tcpAccept (some 64), .runPosted true (.accepted 5), .report, .tcpAccept (some 64),
          .handle (.accepted 6), .runPosted true (.accepted 7)] w ∧
      w.entered = [⟨some 0, some 64, 5, 0⟩, ⟨some 1, some 64, 6, 0⟩, ⟨none, none, 7, 0⟩] :=
  Machine.exists_run_of_replay _ (by decide)

end CHttp
