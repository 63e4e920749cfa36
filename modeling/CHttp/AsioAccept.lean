import CHttp.EpollTable

/-! `asio_accept` over the epoll runloop: each call registers the listener for one accept, and
the handler takes the registration back before it calls the owner, who may ask for the next
accept from there. A failed `accept` only disarms the listener. -/
namespace CHttp

/-- A callback and its argument, as an owner passes them to `asio_accept`. -/
structure AcceptRequest where
  callback : ℕ
  arg : Option ℕ
  deriving DecidableEq, Repr

/-- What `accept` returned, and errno behind it. -/
structure AcceptReturn where
  sock2 : ℤ
  errno : ℤ
  deriving DecidableEq, Repr

/-- A call of an accept callback. -/
structure AcceptCall where
  request : AcceptRequest
  sock : ℤ
  err : ℤ
  deriving DecidableEq, Repr

/-- An `AsioListener` with its `RunloopListener`, the run loop, and the history. -/
structure AcceptorWorld where
  epoll : Epoll
  listener : Watcher
  /-- `listen_postable` is `on_listening_postable`, and not NULL -/
  listenPostable : Bool
  onAcceptCallback : Option ℕ
  onAcceptCallbackArg : Option ℕ
  /-- calls of `asio_accept` so far -/
  requests : List AcceptRequest
  /-- calls of `accept` so far -/
  accepts : List AcceptReturn
  /-- calls of accept callbacks so far -/
  calls : List AcceptCall

/-- The listener is registered with EPOLLEXCLUSIVE. A kernel that knows the flag refuses to
modify such a registration, which is EINVAL. -/
def listenerDisarm (refuses : Bool) (rl : Epoll) (athis : Watcher) : Res Epoll :=
  if refuses then .error (.assertion "status == 0") else rl.runloopListenerDisarm athis

namespace AcceptorWorld

def init (epoll : Epoll) (listener : Watcher) : AcceptorWorld :=
  ⟨epoll, listener, false, none, none, [], [], []⟩

def asioAccept (w : AcceptorWorld) (request : AcceptRequest) : Res AcceptorWorld := do
  let epoll ← w.epoll.runloopListenerRegister w.listener
  .ok { w with
    epoll := epoll
    listenPostable := true
    onAcceptCallback := some request.callback
    onAcceptCallbackArg := request.arg
    requests := w.requests ++ [request] }

/-- `cb(cb_arg, sock, err)`, whose owner may ask for the next accept at once. -/
def callBack (w : AcceptorWorld) (cb arg : Option ℕ) (sock err : ℤ) (again : Option AcceptRequest) :
    Res AcceptorWorld :=
  match cb with
  | none => .error .nullPointer
  | some cb =>
    let w := { w with calls := w.calls ++ [⟨⟨cb, arg⟩, sock, err⟩] }
    match again with
    | none => .ok w
    | some request => w.asioAccept request

def onListeningPostable (refuses : Bool) (w : AcceptorWorld) (result : AcceptReturn)
    (again : Option AcceptRequest) : Res AcceptorWorld := do
  let cb := w.onAcceptCallback
  let cbArg := w.onAcceptCallbackArg
  let w := { w with
    accepts := w.accepts ++ [result], onAcceptCallback := none, onAcceptCallbackArg := none }
  if result.sock2 ≤ 0 then do
    let epoll ← listenerDisarm refuses w.epoll w.listener
    { w with epoll := epoll }.callBack cb cbArg result.sock2 result.errno again
  else do
    let epoll ← w.epoll.runloopListenerDeregister w.listener
    { w with epoll := epoll }.callBack cb cbArg result.sock2 0 again

def handler (refuses : Bool) (w : AcceptorWorld) (result : AcceptReturn)
    (again : Option AcceptRequest) : Res AcceptorWorld :=
  if w.listenPostable then w.onListeningPostable refuses result again else .ok w

/-- The accept that waits for its callback. -/
def pending (w : AcceptorWorld) : Option AcceptRequest :=
  w.onAcceptCallback.map fun cb => ⟨cb, w.onAcceptCallbackArg⟩

def Registered (w : AcceptorWorld) : Prop :=
  w.listener.fd ∈ w.epoll.kernel ∧ w.epoll.table.entries[w.listener.fd]? = some (some w.listener)

end AcceptorWorld

/-- The owner asks for an accept, or the kernel reports the listener: then `accept` returns, and
the callback asks for the next accept or does not. -/
inductive AcceptorEvent where
  | asioAccept (request : AcceptRequest)
  | listening (result : AcceptReturn) (again : Option AcceptRequest)
  deriving DecidableEq, Repr

namespace AcceptorEvent

/-- Whether an accept is pending after the event. -/
def next (_pending : Bool) : AcceptorEvent → Bool
  | asioAccept _ => true
  | listening _ again => again.isSome

/-- An owner asks again when the last accept has been answered; the listener is reported while
an accept is pending. -/
def Comes (pending : Bool) : AcceptorEvent → Prop
  | asioAccept _ => pending = false
  | listening _ _ => pending = true

instance (pending : Bool) : (e : AcceptorEvent) → Decidable (e.Comes pending)
  | asioAccept _ => inferInstanceAs (Decidable (pending = false))
  | listening _ _ => inferInstanceAs (Decidable (pending = true))

/-- `accept`, if it is called, returns a descriptor. -/
def Accepts : AcceptorEvent → Prop
  | asioAccept _ => True
  | listening result _ => 0 < result.sock2

instance : (e : AcceptorEvent) → Decidable e.Accepts
  | asioAccept _ => inferInstanceAs (Decidable True)
  | listening result _ => inferInstanceAs (Decidable (0 < result.sock2))

end AcceptorEvent

namespace AcceptorWorld

/-- The kernel reports a listener that is registered for EPOLLIN. -/
def Enabled (w : AcceptorWorld) : AcceptorEvent → Prop
  | .asioAccept _ => w.pending = none
  | .listening _ _ => ∃ ev, w.epoll.kernel.lookup w.listener.fd = some ev ∧
      ev.events &&& epollIn.setWidth 32 ≠ 0

def exec (refuses : Bool) (w : AcceptorWorld) : AcceptorEvent → Res AcceptorWorld
  | .asioAccept request => w.asioAccept request
  | .listening result again => w.handler refuses result again

/-- The callbacks are those of the accepts that were asked for, in order and without the one
that is pending, each with what one call of `accept` returned; and the listener is registered
exactly while an accept is pending. -/
structure Lawful (w : AcceptorWorld) : Prop where
  once : w.requests = w.calls.map AcceptCall.request ++ w.pending.toList
  results : w.calls.map (fun c => (c.sock, c.err)) =
    w.accepts.map fun r => (r.sock2, if r.sock2 ≤ 0 then r.errno else 0)
  registered : w.Registered ↔ w.pending.isSome

end AcceptorWorld

def acceptorMachine (refuses : Bool) : Machine AcceptorWorld AcceptorEvent Fault :=
  ⟨AcceptorWorld.Enabled, AcceptorWorld.exec refuses⟩

section registration

variable {rl : Epoll} {wref : Watcher}

/-- The descriptor of the watcher is free, in the kernel and in the table. -/
structure Epoll.Free (rl : Epoll) (wref : Watcher) : Prop where
  kernel : wref.fd ∉ rl.kernel
  table : rl.table.entries[wref.fd]? = some none

/-- The watcher is registered for these events. -/
structure Epoll.Has (rl : Epoll) (wref : Watcher) (events : BitVec 32) : Prop where
  kernel : rl.kernel.lookup wref.fd = some ⟨events, wref⟩
  table : rl.table.entries[wref.fd]? = some (some wref)

theorem Epoll.Free.register (h : rl.Free wref) (interest : BitVec 32) :
    ∃ t, rl.runloopRegister wref.fd interest wref = .ok t ∧ t.Has wref interest := by
  obtain ⟨hlt, -⟩ := List.getElem?_eq_some_iff.mp h.table
  refine ⟨⟨rl.kernel.insert wref.fd ⟨interest, wref⟩,
    ⟨rl.table.count+1, rl.table.entries.set wref.fd (some wref)⟩⟩, ?_,
    Finmap.lookup_insert _, List.getElem?_set_self hlt⟩
  simp only [Epoll.runloopRegister, runloopEpollCtl, epollCtl, h.kernel, if_false, ok_bind,
    fdTableInsert, h.table, Option.isNone_none, cAssert_true]

theorem Epoll.Has.mem {events : BitVec 32} (h : rl.Has wref events) : wref.fd ∈ rl.kernel :=
  Finmap.mem_of_lookup_eq_some h.kernel

theorem Epoll.Has.deregister {events : BitVec 32} (h : rl.Has wref events) :
    ∃ t, rl.runloopDeregister wref.fd = .ok t ∧ t.Free wref := by
  obtain ⟨hlt, -⟩ := List.getElem?_eq_some_iff.mp h.table
  refine ⟨⟨rl.kernel.erase wref.fd, ⟨rl.table.count-1, rl.table.entries.set wref.fd none⟩⟩, ?_,
    Finmap.notMem_erase_self, List.getElem?_set_self hlt⟩
  simp only [Epoll.runloopDeregister, (fdTableLookup_eq_ok _ _ _).mpr h.table, ok_bind,
    runloopEpollCtl, epollCtl, h.mem, if_true, fdTableRemove, h.table, Option.isSome_some,
    cAssert_true]

end registration

namespace AcceptorWorld

/-- What is known between two events: the registration follows the accept that is pending. -/
structure Known (w : AcceptorWorld) : Prop where
  once : w.requests = w.calls.map AcceptCall.request ++ w.pending.toList
  results : w.calls.map (fun c => (c.sock, c.err)) =
    w.accepts.map fun r => (r.sock2, if r.sock2 ≤ 0 then r.errno else 0)
  idle : w.pending = none → w.epoll.Free w.listener
  waiting : w.pending.isSome → w.listenPostable = true ∧
    w.epoll.Has w.listener ((epollIn ||| epollExclusive).setWidth 32)

variable {w : AcceptorWorld}

theorem Known.lawful (h : w.Known) : w.Lawful := by
  refine ⟨h.once, h.results, ?_⟩
  cases hp : w.pending with
  | none => exact iff_of_false (fun hr => (h.idle hp).kernel hr.1) (by simp)
  | some request =>
    have hhas := (h.waiting (by rw [hp]; rfl)).2
    exact iff_of_true ⟨hhas.mem, hhas.table⟩ rfl

theorem asioAccept_known (h : w.Known) (hp : w.pending = none) (request : AcceptRequest) :
    ∃ t, w.asioAccept request = .ok t ∧ t.Known ∧ t.pending.isSome = true := by
  obtain ⟨epoll, hx, hhas⟩ := (h.idle hp).register ((epollIn ||| epollExclusive).setWidth 32)
  let t : AcceptorWorld := { w with
    epoll := epoll
    listenPostable := true
    onAcceptCallback := some request.callback
    onAcceptCallbackArg := request.arg
    requests := w.requests ++ [request] }
  refine ⟨t, ?_, ⟨?_, h.results, fun hn => ?_, fun _ => ⟨rfl, hhas⟩⟩, rfl⟩
  · rw [asioAccept, Epoll.runloopListenerRegister, hx, ok_bind]
  · have honce := h.once
    rw [hp, Option.toList_none, List.append_nil] at honce
    exact congrArg (· ++ [request]) honce
  · cases hn

theorem callBack_known (result : AcceptReturn) (request : AcceptRequest) (err : ℤ)
    (hfree : w.epoll.Free w.listener) (hnone : w.onAcceptCallback = none)
    (honce : w.requests = w.calls.map AcceptCall.request ++ [request])
    (hresults : w.calls.map (fun c => (c.sock, c.err)) ++ [(result.sock2, err)] =
      w.accepts.map fun r => (r.sock2, if r.sock2 ≤ 0 then r.errno else 0))
    (again : Option AcceptRequest) :
    ∃ t, w.callBack (some request.callback) request.arg result.sock2 err again = .ok t ∧ t.Known ∧
      t.pending.isSome = again.isSome := by
  let t : AcceptorWorld := { w with calls := w.calls ++ [⟨request, result.sock2, err⟩] }
  have hp : t.pending = none := by rw [pending, hnone, Option.map_none]
  have hknown : t.Known := by
    refine ⟨?_, ?_, fun _ => hfree, fun hsome => ?_⟩
    · rw [hp, Option.toList_none, List.append_nil, List.map_append]
      exact honce
    · rw [List.map_append]
      exact hresults
    · rw [hp] at hsome
      cases hsome
  cases again with
  | none => exact ⟨t, rfl, hknown, congrArg Option.isSome hp⟩
  | some request' => exact asioAccept_known hknown hp request'

/-- A descriptor is handed over after the listener has been taken out of the run loop. -/
theorem handler_known (refuses : Bool) (h : w.Known) (hp : w.pending.isSome = true)
    {result : AcceptReturn} (hpos : 0 < result.sock2) (again : Option AcceptRequest) :
    ∃ t, w.handler refuses result again = .ok t ∧ t.Known ∧ t.pending.isSome = again.isSome := by
  obtain ⟨request, hrequest⟩ := Option.isSome_iff_exists.mp hp
  obtain ⟨hpostable, hhas⟩ := h.waiting hp
  obtain ⟨epoll, hx, hfree⟩ := hhas.deregister
  obtain ⟨cb, hcb, hreq⟩ := Option.map_eq_some_iff.mp hrequest
  have hnot : ¬result.sock2 ≤ 0 := by omega
  have honce := h.once
  rw [hrequest, Option.toList_some] at honce
  subst hreq
  obtain ⟨t, ht, hknown, hpending⟩ := callBack_known (w := { w with
      epoll := epoll, accepts := w.accepts ++ [result]
      onAcceptCallback := none, onAcceptCallbackArg := none })
    result ⟨cb, w.onAcceptCallbackArg⟩ 0 hfree rfl honce
    (by rw [h.results, List.map_append, List.map_singleton, if_neg hnot]) again
  refine ⟨t, ?_, hknown, hpending⟩
  rw [handler, if_pos hpostable, onListeningPostable, if_neg hnot,
    Epoll.runloopListenerDeregister, hx, ok_bind, hcb]
  exact ht

/-- After a failed `accept` the listener is still in the run loop: either an assertion fails, or
it is registered with no accept pending. -/
theorem handler_fails (refuses : Bool) (h : w.Known) (hp : w.pending.isSome = true)
    {result : AcceptReturn} (hneg : result.sock2 ≤ 0) (again : Option AcceptRequest)
    {t : AcceptorWorld} (hx : w.handler refuses result again = .ok t) : ¬t.Lawful := by
  obtain ⟨hpostable, hhas⟩ := h.waiting hp
  rw [handler, if_pos hpostable, onListeningPostable, if_pos hneg] at hx
  obtain ⟨epoll, hdisarm, hx⟩ := (bind_eq_ok _ _ _).mp hx
  rw [listenerDisarm] at hdisarm
  split_ifs at hdisarm
  obtain ⟨hmem, hentry, rfl⟩ := Epoll.runloopReregister_inv hdisarm
  unfold callBack at hx
  split at hx
  · cases hx
  · cases again with
    | none =>
      obtain rfl := Except.ok.inj hx
      intro hlawful
      have hreg := hlawful.registered.mp ⟨Finmap.mem_insert.mpr (Or.inl rfl), hentry⟩
      cases hreg
    | some request =>
      obtain ⟨epoll', hregister, -⟩ := (bind_eq_ok _ _ _).mp hx
      obtain ⟨hfree, -⟩ := Epoll.runloopRegister_inv hregister
      exact absurd (Finmap.mem_insert.mpr (Or.inl rfl)) hfree

theorem init_known {rl : Epoll} {listener : Watcher} (h : rl.Free listener) :
    (init rl listener).Known :=
  ⟨rfl, rfl, fun _ => h, fun hp => by cases hp⟩

end AcceptorWorld

/-- However an owner asks for accepts, from the callbacks or later: they are answered once each,
the listener is registered exactly while one is pending and no assertion fails, if and only if
every call of `accept` returns a positive descriptor. -/
theorem asio_accept_iff (refuses : Bool) (rl : Epoll) (listener : Watcher) (h : rl.Free listener)
    (es : List AcceptorEvent)
    (hes : Machine.Admits AcceptorEvent.next (fun p e => e.Comes p) false es) :
    (acceptorMachine refuses).Performs AcceptorWorld.Lawful (.init rl listener) es ↔
      ∀ e ∈ es, e.Accepts := by
  refine Machine.performs_iff_forall (J := AcceptorWorld.Known) (fun w => w.pending.isSome)
    (fun w hw => hw.lawful) ?_ ?_ _ es (AcceptorWorld.init_known h) hes
  · intro w e hw hcomes haccepts
    cases e with
    | asioAccept request =>
      have hp : w.pending = none :=
        Option.isNone_iff_eq_none.mp (Option.isSome_eq_false_iff.mp hcomes)
      exact ⟨hp, AcceptorWorld.asioAccept_known hw hp request⟩
    | listening result again =>
      have hhas := (hw.waiting hcomes).2
      refine ⟨⟨_, hhas.kernel, ?_⟩, AcceptorWorld.handler_known refuses hw hcomes haccepts again⟩
      show ((epollIn ||| epollExclusive).setWidth 32) &&& epollIn.setWidth 32 ≠ 0
      decide
  · intro w e t hw hcomes hfails hx
    cases e with
    | asioAccept request => exact absurd trivial hfails
    | listening result again =>
      exact AcceptorWorld.handler_fails refuses hw hcomes (not_lt.mp hfails) again hx

/-- Two accepts, the second asked for by the callback of the first, and a third one later. -/
theorem asio_accept_three :
    (acceptorMachine true).Performs AcceptorWorld.Lawful (.init epollInit ⟨64, 5⟩)
      [.asioAccept ⟨1, some 1⟩, .listening ⟨7, 0⟩ (some ⟨1, some 2⟩), .listening ⟨8, 0⟩ none,
        .asioAccept ⟨1, none⟩] := by
  have hfree : epollInit.Free ⟨64, 5⟩ := ⟨Finmap.notMem_empty, rfl⟩
  exact (asio_accept_iff true epollInit ⟨64, 5⟩ hfree _ (by decide)).mpr (by decide)

/-- `accept` fails with EMFILE. The next `asio_accept`, from the callback or later, cannot
register the listener again; a kernel that refuses to modify it stops even before. -/
theorem asio_accept_breaks :
    let w := AcceptorWorld.init epollInit ⟨64, 5⟩
    (w.asioAccept ⟨1, none⟩ >>= fun w => w.handler false ⟨-1, 24⟩ (some ⟨1, none⟩)) =
        .error (.assertion "status == 0") ∧
      (w.asioAccept ⟨1, none⟩ >>= fun w => w.handler false ⟨-1, 24⟩ none >>= fun w =>
        w.asioAccept ⟨1, none⟩) = .error (.assertion "status == 0") ∧
      (w.asioAccept ⟨1, none⟩ >>= fun w => w.handler true ⟨-1, 24⟩ none) =
        .error (.assertion "status == 0") :=
  ⟨rfl, rfl, rfl⟩

end CHttp
