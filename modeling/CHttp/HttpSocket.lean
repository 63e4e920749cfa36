import CHttp.HttpConnectionPending
import CHttp.Runloop

/-! The descriptor of an HTTP connection. Three objects know its number, and the functions
that take them down call `close` and `FdTable_remove`. Between two such calls other threads
of the process open and close descriptors of their own. -/
namespace CHttp

/-- The two copies of a stream's descriptor, in `AsioStream` and in its `RunloopStream`. -/
structure AsioSocket where
  fd : ℤ
  streamFd : ℤ
  deriving DecidableEq, Repr

inductive SocketEffect where
  | close (fd : ℤ)
  | fdTableRemove (fd : ℤ)
  deriving DecidableEq, Repr

abbrev SocketStep := Res (AsioSocket × List SocketEffect)

def asioStreamGetFd (athis : AsioSocket) : ℤ := athis.streamFd

def asioStreamClose (cref : AsioSocket) : SocketStep := do
  cAssert (0 < cref.fd) "cref->fd > 0"
  .ok (⟨-1, -1⟩, [.fdTableRemove cref.fd, .close cref.fd])

def asioStreamDestroy (this : AsioSocket) : SocketStep := do
  cAssert (this.streamFd = this.fd) "fd == fd2"
  if 0 < this.streamFd then asioStreamClose this else .ok (this, [])

def asioStreamFree (this : AsioSocket) : SocketStep := asioStreamDestroy this

def httpConnectionClose (cref : AsioSocket) : SocketStep := asioStreamClose cref

/-- The descriptor is closed here, before the stream does the same. -/
def httpConnectionFree (this : AsioSocket) : SocketStep := do
  let fd := asioStreamGetFd this
  let (this, effects) ← asioStreamFree this
  .ok (this, .close fd :: effects)

/-- Who was given an open descriptor: this connection or somebody else. -/
inductive SocketOwner where
  | connection
  | other
  deriving DecidableEq, Repr

/-- A call of `close`, and whether the number was this connection's at that moment. -/
structure SocketClose where
  fd : ℤ
  owned : Bool
  deriving DecidableEq, Repr

/-- A connection with its descriptor, the table of its run loop and the descriptors of the
process. `pending` are the calls that the function under way has still to make. -/
structure SocketWorld where
  stream : Watcher
  socket : AsioSocket
  conn : ConnectionWorld
  table : FdTable
  owner : ℕ → Option SocketOwner
  pending : List SocketEffect
  freed : Bool
  closes : List SocketClose
  removals : List Watcher

/-- The connection that `http_handler_init` makes for a descriptor from `accept`. -/
def httpSocketNew (stream : Watcher) (table : FdTable) (owner : ℕ → Option SocketOwner) :
    Res SocketWorld := do
  let table ← runloopRegister table stream
  .ok ⟨stream, ⟨stream.fd, stream.fd⟩, .init, table,
    Function.update owner stream.fd (some .connection), [], false, [], []⟩

/-- What happens to the connection itself, `http_connection_close`, `http_handler_free`, the
next call of the function under way, and what others do. -/
inductive SocketEvent where
  | conn (e : ConnectionEvent)
  | close
  | free
  | step
  | otherOpens (fd : ℕ)
  | otherCloses (fd : ℕ)
  | otherRegisters (wref : Watcher)
  | otherDeregisters (wref : Watcher)

/-- The handler passes its own callback and itself. A closed descriptor brings no data. The
stream reports an error of `read` as it does the end of the input, with a count of 0. -/
def SocketWorld.Receives (w : SocketWorld) : ConnectionEvent → Prop
  | .read cb arg => cb ≠ none ∧ arg ≠ none
  | .received _ _ => 0 ≤ w.socket.fd
  | _ => True

/-- Others close and deregister what is theirs, and are given numbers that are free. -/
def SocketWorld.Enabled (w : SocketWorld) : SocketEvent → Prop
  | .conn e => w.pending = [] ∧ w.freed = false ∧ w.conn.Enabled e ∧ w.Receives e
  | .close => w.pending = [] ∧ w.freed = false
  | .free => w.pending = [] ∧ w.freed = false
  | .step => w.pending ≠ []
  | .otherOpens fd => w.owner fd = none
  | .otherCloses fd => w.owner fd = some .other
  | .otherRegisters wref => w.table.entries[wref.fd]? = some none ∧ wref.ptr ≠ w.stream.ptr
  | .otherDeregisters wref => w.table.Registered wref ∧ wref.ptr ≠ w.stream.ptr

instance SocketWorld.decidableReceives (w : SocketWorld) (e : ConnectionEvent) :
    Decidable (w.Receives e) :=
  match e with
  | .read cb arg => inferInstanceAs (Decidable (cb ≠ none ∧ arg ≠ none))
  | .received _ _ => inferInstanceAs (Decidable (0 ≤ w.socket.fd))
  | .write _ _ _ | .readEof | .readFailed | .written _ | .writeFailed _ | .runPosted =>
    inferInstanceAs (Decidable True)

instance SocketWorld.decidableEnabled (w : SocketWorld) (e : SocketEvent) : Decidable (w.Enabled e) :=
  match e with
  | .conn e => inferInstanceAs (Decidable
      (w.pending = [] ∧ w.freed = false ∧ w.conn.Enabled e ∧ w.Receives e))
  | .close | .free => inferInstanceAs (Decidable (w.pending = [] ∧ w.freed = false))
  | .step => inferInstanceAs (Decidable (w.pending ≠ []))
  | .otherOpens fd => inferInstanceAs (Decidable (w.owner fd = none))
  | .otherCloses fd => inferInstanceAs (Decidable (w.owner fd = some .other))
  | .otherRegisters wref => inferInstanceAs (Decidable
      (w.table.entries[wref.fd]? = some none ∧ wref.ptr ≠ w.stream.ptr))
  | .otherDeregisters wref => inferInstanceAs (Decidable
      (w.table.Registered wref ∧ wref.ptr ≠ w.stream.ptr))

def SocketWorld.httpHandlerFree (w : SocketWorld) : Res SocketWorld := do
  let (socket, effects) ← httpConnectionFree w.socket
  .ok { w with socket := socket, pending := effects, freed := true }

/-- An error that a step has passed to the read callback. The handler then calls its
completion callback, and the server frees the handler. -/
def ConnectionWorld.failed (w t : ConnectionWorld) : Bool :=
  (t.readCalls.drop w.readCalls.length).any (fun call => call.2 ≠ 0)

def SocketWorld.perform (w : SocketWorld) : SocketEffect → Res SocketWorld
  | .close fd =>
    if 0 ≤ fd then
      .ok { w with
        closes := w.closes ++ [⟨fd, w.owner fd.toNat = some .connection⟩]
        owner := Function.update w.owner fd.toNat none }
    else .ok { w with closes := w.closes ++ [⟨fd, false⟩] }
  | .fdTableRemove fd => do
    let table ← fdTableRemove w.table fd.toNat
    .ok { w with
      table := table
      removals := w.removals ++ (w.table.entries[fd.toNat]?.join).toList }

def SocketWorld.exec (w : SocketWorld) : SocketEvent → Res SocketWorld
  | .conn e => do
    let conn ← w.conn.exec e
    let t := { w with conn := conn }
    if w.conn.failed conn then t.httpHandlerFree else .ok t
  | .close => do
    let (socket, effects) ← httpConnectionClose w.socket
    .ok { w with socket := socket, pending := effects }
  | .free => w.httpHandlerFree
  | .step =>
    match w.pending with
    | [] => .ok w
    | effect :: rest => SocketWorld.perform { w with pending := rest } effect
  | .otherOpens fd => .ok { w with owner := Function.update w.owner fd (some .other) }
  | .otherCloses fd => .ok { w with owner := Function.update w.owner fd none }
  | .otherRegisters wref => do
    let table ← runloopRegister w.table wref
    .ok { w with table := table }
  | .otherDeregisters wref => do
    let table ← runloopDeregister w.table wref.fd
    .ok { w with table := table }

def socketMachine : Machine SocketWorld SocketEvent Fault := ⟨SocketWorld.Enabled, SocketWorld.exec⟩

instance socketMachine.decidableEnabled (w : SocketWorld) (e : SocketEvent) :
    Decidable (socketMachine.enabled w e) :=
  inferInstanceAs (Decidable (w.Enabled e))

/-- The events that bring a connection to its end: the peer has closed it, `read` or the
parser has failed, or the application frees it. -/
def SocketEvent.Ends : SocketEvent → Prop
  | .conn .readEof | .conn .readFailed | .free => True
  | .conn (.received _ parsed) => parsed.errno ≠ .ok
  | _ => False

/-- The descriptor was passed to `close` once, no other descriptor was, and its entry in
the table was removed once. -/
structure SocketWorld.ClosedOnce (w : SocketWorld) : Prop where
  once : w.closes.countP (fun c => c.fd = (w.stream.fd : ℤ)) = 1
  owned : ∀ c ∈ w.closes, 0 ≤ c.fd → c.owned = true
  removed : w.removals.count w.stream = 1

/-- From here on the teardown goes through, and at its end the descriptor is closed once. -/
def SocketWorld.TearsDown (w : SocketWorld) : Prop :=
  ∀ es u, socketMachine.Run w es u → (u.pending = [] → u.ClosedOnce) ∧
    (u.pending ≠ [] → ∃ v, u.exec .step = .ok v)

/-- What a step leaves alone that is none of this connection's calls. -/
structure SocketWorld.Keeps (w t : SocketWorld) : Prop where
  stream : t.stream = w.stream
  socket : t.socket = w.socket
  pending : t.pending = w.pending
  freed : t.freed = w.freed
  closes : t.closes = w.closes
  removals : t.removals = w.removals
  owner : w.owner w.stream.fd = some .connection → t.owner w.stream.fd = some .connection
  table : w.table.Registered w.stream → t.table.Registered w.stream

section table

variable {table t : FdTable} {wref stream : Watcher}

theorem fdTableInsert_eq_ok {fd : ℕ} (h : fdTableInsert table wref fd = .ok t) :
    table.entries[fd]? = some none ∧ t = ⟨table.count+1, table.entries.set fd (some wref)⟩ := by
  unfold fdTableInsert at h
  split at h
  · cases h
  · next entry hentry =>
    rw [cAssert_bind_eq_ok, Option.isNone_iff_eq_none] at h
    obtain ⟨rfl, h⟩ := h
    exact ⟨hentry, (Except.ok.inj h).symm⟩

theorem fdTableRemove_eq_ok {fd : ℕ} (h : fdTableRemove table fd = .ok t) :
    t = ⟨table.count-1, table.entries.set fd none⟩ := by
  unfold fdTableRemove at h
  split at h
  · cases h
  · rw [cAssert_bind_eq_ok] at h
    exact (Except.ok.inj h.2).symm

theorem fdTableRemove_registered (h : table.Registered wref) :
    fdTableRemove table wref.fd = .ok ⟨table.count-1, table.entries.set wref.fd none⟩ := by
  have hentry : table.entries[wref.fd]? = some (some wref) := h
  simp only [fdTableRemove, hentry, Option.isSome_some, cAssert_true, ok_bind]

theorem registered_insert (wref : Watcher) (hfree : table.entries[wref.fd]? = some none) :
    FdTable.Registered ⟨table.count+1, table.entries.set wref.fd (some wref)⟩ wref := by
  obtain ⟨hlt, -⟩ := List.getElem?_eq_some_iff.mp hfree
  show (table.entries.set wref.fd (some wref))[wref.fd]? = some (some wref)
  rw [List.getElem?_set_self hlt]

/-- A place of the table has one watcher. -/
theorem FdTable.Registered.unique (h : table.Registered stream) (h' : table.Registered wref)
    (hfd : wref.fd = stream.fd) : wref = stream := by
  rw [FdTable.Registered, hfd] at h'
  exact Option.some.inj (Option.some.inj (h'.symm.trans h))

theorem FdTable.Registered.fd_ne (h : table.Registered stream) {fd : ℕ}
    (hfree : table.entries[fd]? = some none) : fd ≠ stream.fd := by
  rintro rfl
  cases hfree.symm.trans h

/-- Changes at other places of the table leave a registration alone. -/
theorem registered_set (h : table.Registered stream) (fd count : ℕ) (entry : Option Watcher)
    (hne : fd ≠ stream.fd) : FdTable.Registered ⟨count, table.entries.set fd entry⟩ stream := by
  show (table.entries.set fd entry)[stream.fd]? = some (some stream)
  rw [List.getElem?_set_ne hne]
  exact h

end table

section keeps

variable {w t : SocketWorld}

def SocketEvent.ofOthers : SocketEvent → Bool
  | .otherOpens _ | .otherCloses _ | .otherRegisters _ | .otherDeregisters _ => true
  | _ => false

/-- A number that the connection does not own changes hands. -/
theorem owner_update (h : w.owner w.stream.fd = some .connection) {fd : ℕ}
    {before : Option SocketOwner} (hfd : w.owner fd = before) (hne : before ≠ some .connection)
    (after : Option SocketOwner) :
    Function.update w.owner fd after w.stream.fd = some .connection := by
  have hother : w.stream.fd ≠ fd := by
    rintro rfl
    exact hne (hfd.symm.trans h)
  exact (Function.update_of_ne hother _ _).trans h

theorem others_keep (e : SocketEvent) (ho : e.ofOthers = true) (he : w.Enabled e)
    (hx : w.exec e = .ok t) : w.Keeps t ∧ t.conn = w.conn := by
  cases e with
  | otherOpens fd =>
    obtain rfl := Except.ok.inj hx
    exact ⟨⟨rfl, rfl, rfl, rfl, rfl, rfl, fun h => owner_update h he nofun _, id⟩, rfl⟩
  | otherCloses fd =>
    obtain rfl := Except.ok.inj hx
    exact ⟨⟨rfl, rfl, rfl, rfl, rfl, rfl, fun h => owner_update h he nofun _, id⟩, rfl⟩
  | otherRegisters wref =>
    obtain ⟨table, hinsert, hx⟩ := (bind_eq_ok _ _ _).mp hx
    obtain rfl := Except.ok.inj hx
    obtain ⟨hfree, rfl⟩ := fdTableInsert_eq_ok hinsert
    exact ⟨⟨rfl, rfl, rfl, rfl, rfl, rfl, id, fun h => registered_set h _ _ _ (h.fd_ne hfree)⟩, rfl⟩
  | otherDeregisters wref =>
    obtain ⟨table, hremove, hx⟩ := (bind_eq_ok _ _ _).mp hx
    obtain rfl := Except.ok.inj hx
    obtain ⟨-, -, hremove⟩ := (bind_eq_ok _ _ _).mp hremove
    obtain rfl := fdTableRemove_eq_ok hremove
    obtain ⟨hreg, hptr⟩ := he
    refine ⟨⟨rfl, rfl, rfl, rfl, rfl, rfl, id, fun h => registered_set h _ _ _ fun hfd => ?_⟩, rfl⟩
    exact hptr (congrArg Watcher.ptr (h.unique hreg hfd))
  | conn | close | free | step => cases ho

end keeps

/-- Which calls have been made, and which of the function under way are still to come. -/
structure SocketWorld.At (w : SocketWorld) (socket : AsioSocket) (freed : Bool)
    (pending : List SocketEffect) (closes : List SocketClose) (removals : List Watcher) : Prop where
  socket : w.socket = socket
  freed : w.freed = freed
  pending : w.pending = pending
  closes : w.closes = closes
  removals : w.removals = removals

/-- The descriptor from `accept` to `http_connection_close`, and from there on. -/
inductive SocketWorld.Phase (w : SocketWorld) : Prop where
  | accepted (h : w.At ⟨w.stream.fd, w.stream.fd⟩ false [] [] [])
      (ho : w.owner w.stream.fd = some .connection) (ht : w.table.Registered w.stream)
  | closing (hpos : 0 < w.stream.fd)
      (h : w.At ⟨-1, -1⟩ false [.fdTableRemove w.stream.fd, .close w.stream.fd] [] [])
      (ho : w.owner w.stream.fd = some .connection) (ht : w.table.Registered w.stream)
  | removed (h : w.At ⟨-1, -1⟩ false [.close w.stream.fd] [] [w.stream])
      (ho : w.owner w.stream.fd = some .connection)
  | closed (h : w.At ⟨-1, -1⟩ false [] [⟨w.stream.fd, true⟩] [w.stream])
  | freed (h : w.At ⟨-1, -1⟩ true [.close (-1)] [⟨w.stream.fd, true⟩] [w.stream])
  | gone (h : w.At ⟨-1, -1⟩ true [] [⟨w.stream.fd, true⟩, ⟨-1, false⟩] [w.stream])

section phase

variable {w t : SocketWorld}

theorem SocketWorld.At.keep {socket : AsioSocket} {freed : Bool} {pending : List SocketEffect}
    {closes : List SocketClose} {removals : List Watcher}
    (h : w.At socket freed pending closes removals) (hk : w.Keeps t) :
    t.At socket freed pending closes removals :=
  ⟨hk.socket.trans h.socket, hk.freed.trans h.freed, hk.pending.trans h.pending,
    hk.closes.trans h.closes, hk.removals.trans h.removals⟩

theorem SocketWorld.Phase.keep (h : w.Phase) (hk : w.Keeps t) : t.Phase := by
  have hs := hk.stream
  have ho := hk.owner
  have ht := hk.table
  rw [← hs] at ho ht
  cases h with
  | accepted h ho' ht' =>
    rw [← hs] at h ho' ht'
    exact .accepted (h.keep hk) (ho ho') (ht ht')
  | closing hpos h ho' ht' =>
    rw [← hs] at hpos h ho' ht'
    exact .closing hpos (h.keep hk) (ho ho') (ht ht')
  | removed h ho' =>
    rw [← hs] at h ho'
    exact .removed (h.keep hk) (ho ho')
  | closed h =>
    rw [← hs] at h
    exact .closed (h.keep hk)
  | freed h =>
    rw [← hs] at h
    exact .freed (h.keep hk)
  | gone h =>
    rw [← hs] at h
    exact .gone (h.keep hk)

theorem step_close {fd : ℕ} {rest : List SocketEffect} (hp : w.pending = .close fd :: rest) :
    w.exec .step = .ok { w with
      pending := rest
      closes := w.closes ++ [⟨fd, w.owner fd = some .connection⟩]
      owner := Function.update w.owner fd none } := by
  simp only [SocketWorld.exec, hp, SocketWorld.perform, Int.natCast_nonneg, if_true,
    Int.toNat_natCast]

theorem step_remove {rest : List SocketEffect} (ht : w.table.Registered w.stream)
    (hp : w.pending = .fdTableRemove w.stream.fd :: rest) :
    w.exec .step = .ok { w with
      pending := rest
      table := ⟨w.table.count-1, w.table.entries.set w.stream.fd none⟩
      removals := w.removals ++ [w.stream] } := by
  have hentry : w.table.entries[w.stream.fd]? = some (some w.stream) := ht
  simp only [SocketWorld.exec, hp, SocketWorld.perform, Int.toNat_natCast,
    fdTableRemove_registered ht, ok_bind, hentry, Option.join_some, Option.toList_some]

/-- The next call of the function under way goes through. -/
theorem SocketWorld.Phase.performs (h : w.Phase) (hp : w.pending ≠ []) :
    ∃ t, w.exec .step = .ok t ∧ t.Phase ∧ t.freed = w.freed := by
  cases h with
  | accepted h ho ht => exact absurd h.pending hp
  | closing hpos h ho ht =>
    refine ⟨_, step_remove ht h.pending, .removed ⟨h.socket, h.freed, rfl, h.closes, ?_⟩ ho, rfl⟩
    simp only [h.removals, List.nil_append]
  | removed h ho =>
    refine ⟨_, step_close h.pending, .closed ⟨h.socket, h.freed, rfl, ?_, h.removals⟩, rfl⟩
    simp only [h.closes, ho, decide_true, List.nil_append]
  | closed h => exact absurd h.pending hp
  | freed h =>
    refine ⟨{ w with pending := [], closes := [⟨w.stream.fd, true⟩, ⟨-1, false⟩] }, ?_,
      .gone ⟨h.socket, h.freed, rfl, rfl, h.removals⟩, rfl⟩
    have hneg : ¬(0 : ℤ) ≤ -1 := by decide
    simp only [SocketWorld.exec, h.pending, SocketWorld.perform, if_neg hneg, h.closes,
      List.cons_append, List.nil_append]
  | gone h => exact absurd h.pending hp

/-- Between the connection's own calls the descriptor is as `accept` gave it or closed. -/
theorem SocketWorld.Phase.idle (h : w.Phase) (hp : w.pending = []) (hf : w.freed = false) :
    (w.At ⟨w.stream.fd, w.stream.fd⟩ false [] [] [] ∧ w.owner w.stream.fd = some .connection ∧
      w.table.Registered w.stream) ∨ w.At ⟨-1, -1⟩ false [] [⟨w.stream.fd, true⟩] [w.stream] := by
  cases h with
  | accepted h ho ht => exact .inl ⟨h, ho, ht⟩
  | closing hpos h ho ht => cases h.pending.symm.trans hp
  | removed h ho => cases h.pending.symm.trans hp
  | closed h => exact .inr h
  | freed h => cases h.pending.symm.trans hp
  | gone h => cases h.freed.symm.trans hf

theorem httpHandlerFree_freed (h : w.httpHandlerFree = .ok t) : t.freed = true := by
  obtain ⟨r, -, h⟩ := (bind_eq_ok _ _ _).mp h
  obtain rfl := Except.ok.inj h
  rfl

/-- What an event of the connection itself can do to its descriptor. -/
theorem conn_keeps (e : ConnectionEvent) (hx : w.exec (.conn e) = .ok t) :
    t.freed = true ∨ (w.Keeps t ∧ w.conn.exec e = .ok t.conn) := by
  obtain ⟨conn, hconn, hx⟩ := (bind_eq_ok _ _ _).mp hx
  split_ifs at hx with hfailed
  · exact .inl (httpHandlerFree_freed hx)
  · obtain rfl := Except.ok.inj hx
    exact .inr ⟨⟨rfl, rfl, rfl, rfl, rfl, rfl, id, id⟩, hconn⟩

theorem close_eq_ok (hx : w.exec .close = .ok t) :
    0 < w.socket.fd ∧ t = { w with
      socket := ⟨-1, -1⟩
      pending := [.fdTableRemove w.socket.fd, .close w.socket.fd] } := by
  obtain ⟨r, hclose, hx⟩ := (bind_eq_ok _ _ _).mp hx
  rw [httpConnectionClose, asioStreamClose, cAssert_bind_eq_ok, decide_eq_true_eq] at hclose
  obtain ⟨hpos, hclose⟩ := hclose
  obtain rfl := Except.ok.inj hclose
  exact ⟨hpos, (Except.ok.inj hx).symm⟩

theorem SocketWorld.Phase.close (h : w.Phase) (he : w.Enabled .close)
    (hx : w.exec .close = .ok t) : t.Phase := by
  obtain ⟨hpos, rfl⟩ := close_eq_ok hx
  rcases h.idle he.1 he.2 with ⟨hat, ho, ht⟩ | hat
  · have hfd : w.socket.fd = w.stream.fd := congrArg AsioSocket.fd hat.socket
    rw [hfd] at hpos ⊢
    exact .closing (Int.natCast_pos.mp hpos) ⟨rfl, hat.freed, rfl, hat.closes, hat.removals⟩ ho ht
  · rw [hat.socket] at hpos
    cases hpos

theorem SocketWorld.Phase.step (h : w.Phase) (e : SocketEvent) (he : w.Enabled e)
    (hx : w.exec e = .ok t) : (t.Phase ∧ t.freed = w.freed) ∨ (w.freed = false ∧ t.freed = true) := by
  by_cases ho : e.ofOthers = true
  · obtain ⟨hk, -⟩ := others_keep e ho he hx
    exact .inl ⟨h.keep hk, hk.freed⟩
  · cases e with
    | conn e =>
      rcases conn_keeps e hx with hf | ⟨hk, -⟩
      · exact .inr ⟨he.2.1, hf⟩
      · exact .inl ⟨h.keep hk, hk.freed⟩
    | close =>
      have hphase := h.close he hx
      obtain ⟨-, rfl⟩ := close_eq_ok hx
      exact .inl ⟨hphase, rfl⟩
    | free => exact .inr ⟨he.2, httpHandlerFree_freed hx⟩
    | step =>
      obtain ⟨t', hx', ht, hf⟩ := h.performs he
      obtain rfl := Except.ok.inj (hx.symm.trans hx')
      exact .inl ⟨ht, hf⟩
    | otherOpens | otherCloses | otherRegisters | otherDeregisters => exact absurd rfl ho

end phase

/-- A stream read that is outstanding has an argument for its callback. -/
def ReadView.Armed (v : ReadView) : Prop := v.reading ≠ none → v.onReadCbArg ≠ none

theorem ReadStep.armed {v v' : ReadView} {e : ConnectionEvent} (h : ReadStep v e v') (hs : v.Sound)
    (ha : v.Armed) (he : ∀ cb arg, e = .read cb arg → arg ≠ none) : v'.Armed := by
  intro hreading
  cases h with
  | start cb arg iob hv hcb hq hiob => exact he cb arg rfl
  | last cb arg m hv hq => exact absurd (hs.idle hv) hreading
  | queued cb arg m rest hv hq hr => exact absurd (hs.idle hv) hreading
  | deliver => exact absurd rfl hreading
  | nothing => exact absurd rfl hreading
  | eof => exact absurd rfl hreading
  | failed => exact absurd rfl hreading
  | write => exact ha hreading
  | written => exact ha hreading
  | writeFailed => exact ha hreading
  | runPosted => exact ha hreading

/-- With nothing to read the callback is given an error. -/
theorem read_ends {c : ConnectionWorld} (hs : c.readView.Sound) (ha : c.readView.Armed)
    (hr : c.reading ≠ none) (e : ConnectionEvent) (he : e = .readEof ∨ e = .readFailed) :
    ∃ c' status, c.exec e = .ok c' ∧ status ≠ 0 ∧ c'.readCalls = c.readCalls ++ [(none, status)] := by
  obtain ⟨length, hlength⟩ := Option.ne_none_iff_exists'.mp hr
  obtain ⟨-, -, hcb, -, iob, hiob, -⟩ := hs length hlength
  have hbuf : c.conn.activeInputBuffer = some iob := hiob
  have hcall (status : ℤ) := (callOnReadCb_eq_ok c.conn none status _).mpr
    ⟨Option.isSome_iff_ne_none.mpr hcb, Option.isSome_iff_ne_none.mpr (ha hr), rfl⟩
  rcases he with rfl | rfl
  · have hread : readHaveDataCb c.conn 0 ⟨[], .ok⟩ = callOnReadCb c.conn none (-1) := by
      simp only [readHaveDataCb, hbuf, if_true]
    exact ⟨_, -1, (after_eq_ok _ _ _).mpr ⟨_, hread.trans (hcall (-1)), rfl⟩, by decide, rfl⟩
  · have hread : readHaveDataCb c.conn (-1) ⟨[], .ok⟩ = callOnReadCb c.conn none (-2) := by
      simp only [readHaveDataCb, hbuf]
      rfl
    exact ⟨_, -2, (after_eq_ok _ _ _).mpr ⟨_, hread.trans (hcall (-2)), rfl⟩, by decide, rfl⟩

theorem ConnectionWorld.failed_of_call {w t : ConnectionWorld} {msg : Option HttpMessage} {status : ℤ}
    (hne : status ≠ 0) (h : t.readCalls = w.readCalls ++ [(msg, status)]) : w.failed t = true := by
  rw [ConnectionWorld.failed, h, List.drop_left, List.any_cons, List.any_nil, Bool.or_false]
  exact decide_eq_true hne

section run

variable {w t : SocketWorld}

theorem perform_frame (effect : SocketEffect) (hx : w.perform effect = .ok t) :
    t.freed = w.freed ∧ t.conn = w.conn ∧ t.socket = w.socket := by
  cases effect with
  | close fd =>
    simp only [SocketWorld.perform] at hx
    split_ifs at hx <;> obtain rfl := Except.ok.inj hx <;> exact ⟨rfl, rfl, rfl⟩
  | fdTableRemove fd =>
    obtain ⟨table, -, hx⟩ := (bind_eq_ok _ _ _).mp hx
    obtain rfl := Except.ok.inj hx
    exact ⟨rfl, rfl, rfl⟩

theorem step_frame (hx : w.exec .step = .ok t) :
    t.freed = w.freed ∧ t.conn = w.conn ∧ t.socket = w.socket := by
  cases hp : w.pending with
  | nil =>
    simp only [SocketWorld.exec, hp] at hx
    obtain rfl := Except.ok.inj hx
    exact ⟨rfl, rfl, rfl⟩
  | cons effect rest =>
    simp only [SocketWorld.exec, hp] at hx
    have hframe := perform_frame effect hx
    exact hframe

/-- A step before the connection is freed. -/
theorem socket_unfreed (e : SocketEvent) (he : w.Enabled e) (hx : w.exec e = .ok t)
    (ht : t.freed = false) :
    w.freed = false ∧ (t.socket.fd = -1 ↔ w.socket.fd = -1 ∨ e = .close) ∧
      (t.conn = w.conn ∨ ∃ ce, e = .conn ce ∧ w.conn.exec ce = .ok t.conn) := by
  by_cases ho : e.ofOthers = true
  · obtain ⟨hk, hconn⟩ := others_keep e ho he hx
    refine ⟨hk.freed.symm.trans ht, ?_, .inl hconn⟩
    have hne : e ≠ .close := by
      rintro rfl
      cases ho
    rw [hk.socket, or_iff_left hne]
  · cases e with
    | conn e =>
      rcases conn_keeps e hx with hf | ⟨hk, hconn⟩
      · cases hf.symm.trans ht
      · refine ⟨he.2.1, ?_, .inr ⟨e, rfl, hconn⟩⟩
        rw [hk.socket, or_iff_left nofun]
    | close =>
      obtain ⟨-, rfl⟩ := close_eq_ok hx
      exact ⟨he.2, iff_of_true rfl (.inr rfl), .inl rfl⟩
    | free => cases (httpHandlerFree_freed hx).symm.trans ht
    | step =>
      obtain ⟨hf, hconn, hsocket⟩ := step_frame hx
      refine ⟨hf.symm.trans ht, ?_, .inl hconn⟩
      rw [hsocket, or_iff_left nofun]
    | otherOpens | otherCloses | otherRegisters | otherDeregisters => exact absurd rfl ho

theorem run_unfreed {es : List SocketEvent} (h : socketMachine.Run w es t) (ht : t.freed = false) :
    w.freed = false ∧ (t.socket.fd = -1 ↔ w.socket.fd = -1 ∨ .close ∈ es) := by
  induction h with
  | nil w => exact ⟨ht, by simp⟩
  | @cons w u t e es he hx _ ih =>
    obtain ⟨hu, hrest⟩ := ih ht
    obtain ⟨hw, hsocket, -⟩ := socket_unfreed e he hx hu
    refine ⟨hw, ?_⟩
    rw [hrest, hsocket, or_assoc, List.mem_cons, eq_comm (a := SocketEvent.close)]

/-- The descriptor's phase and the connection's, up to the end. -/
structure SocketWorld.Live (w : SocketWorld) : Prop where
  phase : w.Phase
  sound : w.conn.readView.Sound
  armed : w.conn.readView.Armed

theorem live_step (h : w.Live) (e : SocketEvent) (he : w.Enabled e) (hx : w.exec e = .ok t)
    (ht : t.freed = false) : t.Live := by
  have hphase : t.Phase := by
    rcases h.phase.step e he hx with ⟨hphase, -⟩ | ⟨-, hf⟩
    · exact hphase
    · cases hf.symm.trans ht
  obtain ⟨-, -, hconn | ⟨ce, rfl, hconn⟩⟩ := socket_unfreed e he hx ht
  · exact ⟨hphase, hconn ▸ h.sound, hconn ▸ h.armed⟩
  · obtain ⟨-, -, hce, hreceives⟩ := he
    have hstep := exec_readStep w.conn t.conn ce hce hconn
    refine ⟨hphase, hstep.sound h.sound, hstep.armed h.sound h.armed ?_⟩
    rintro cb arg rfl
    exact hreceives.2

theorem run_live {es : List SocketEvent} (h : socketMachine.Run w es t) (hw : w.Live)
    (ht : t.freed = false) : t.Live := by
  induction h with
  | nil w => exact hw
  | @cons w u t e es he hx hr ih =>
    exact ih (live_step hw e he hx (run_unfreed hr ht).1) ht

theorem httpSocketNew_live {stream : Watcher} {table : FdTable} {owner : ℕ → Option SocketOwner}
    (h : httpSocketNew stream table owner = .ok w) :
    w.Live ∧ w.socket.fd = stream.fd := by
  obtain ⟨table', hinsert, h⟩ := (bind_eq_ok _ _ _).mp h
  obtain rfl := Except.ok.inj h
  obtain ⟨hfree, rfl⟩ := fdTableInsert_eq_ok hinsert
  refine ⟨⟨.accepted ⟨rfl, rfl, rfl, rfl, rfl⟩ (Function.update_self _ _ _)
    (registered_insert stream hfree), sound_init, fun hreading => absurd rfl hreading⟩, rfl⟩

theorem run_step {es : List SocketEvent} {u : SocketWorld} (hx : w.exec .step = .ok t)
    (hp : w.pending ≠ []) (hr : socketMachine.Run t es u) : socketMachine.Run w (.step :: es) u :=
  .cons hp hx hr

/-- Freed after `http_connection_close`, a connection closes no descriptor again. -/
theorem tearsDown_of_closed (h : w.At ⟨-1, -1⟩ true [.close (-1)] [⟨w.stream.fd, true⟩] [w.stream]) :
    w.TearsDown := by
  intro es u hrun
  have hu : u.Phase ∧ u.freed = true := by
    refine hrun.keeps (I := fun u => u.Phase ∧ u.freed = true) ?_ ⟨.freed h, h.freed⟩
    rintro u e v ⟨hphase, hf⟩ he hx
    rcases hphase.step e he hx with ⟨hv, hsame⟩ | ⟨hlive, -⟩
    · exact ⟨hv, hsame.trans hf⟩
    · cases hlive.symm.trans hf
  obtain ⟨hphase, hf⟩ := hu
  refine ⟨fun hp => ?_, fun hp => ?_⟩
  · cases hphase with
    | gone h =>
      refine ⟨?_, ?_, ?_⟩
      · have hne : ¬(-1 : ℤ) = u.stream.fd := by omega
        simp only [h.closes, List.countP_cons, List.countP_nil, hne, decide_true, decide_false,
          Bool.false_eq_true, if_true, if_false]
      · intro c hc hpos
        rw [h.closes, List.mem_cons, List.mem_singleton] at hc
        rcases hc with rfl | rfl
        · rfl
        · exact absurd hpos (by decide)
      · rw [h.removals, List.count_singleton_self]
    | accepted h ho ht => cases h.freed.symm.trans hf
    | closed h => cases h.freed.symm.trans hf
    | closing hpos h ho ht => cases h.pending.symm.trans hp
    | removed h ho => cases h.pending.symm.trans hp
    | freed h => cases h.pending.symm.trans hp
  · obtain ⟨v, hx, -⟩ := hphase.performs hp
    exact ⟨v, hx⟩

/-- Freed without it, a connection closes its descriptor twice, or, if that is number 0,
leaves its entry in the table. -/
theorem not_tearsDown (h : w.At ⟨w.stream.fd, w.stream.fd⟩ false [] [] [])
    (ht : w.table.Registered w.stream) (hfree : w.httpHandlerFree = .ok t) : ¬t.TearsDown := by
  intro hdown
  simp only [SocketWorld.httpHandlerFree, httpConnectionFree, asioStreamGetFd, asioStreamFree,
    asioStreamDestroy, asioStreamClose, h.socket, decide_true, cAssert_true, ok_bind,
    Int.natCast_pos] at hfree
  by_cases hpos : 0 < w.stream.fd
  · simp only [hpos, if_true, decide_true, cAssert_true, ok_bind] at hfree
    obtain rfl := Except.ok.inj hfree
    obtain ⟨hdone, -⟩ := hdown [.step, .step, .step] _
      (run_step (step_close rfl) nofun (run_step (step_remove ht rfl) nofun
        (run_step (step_close rfl) nofun (.nil _))))
    have honce := (hdone rfl).once
    simp [h.closes] at honce
  · simp only [hpos, if_false, ok_bind] at hfree
    obtain rfl := Except.ok.inj hfree
    obtain ⟨hdone, -⟩ := hdown [.step] _ (run_step (step_close rfl) nofun (.nil _))
    have hremoved := (hdone rfl).removed
    simp [h.removals] at hremoved

/-- An event that ends the connection frees the handler, unless the parser fails, which
trips an assertion. -/
theorem ends_frees (h : w.Live) (e : SocketEvent) (he : w.Enabled e) (hends : e.Ends) :
    (∃ conn, w.exec e = SocketWorld.httpHandlerFree { w with conn := conn }) ∨
    (0 ≤ w.socket.fd ∧ ∃ fault, w.exec e = .error fault) := by
  have hread (ce : ConnectionEvent) (hce : ce = .readEof ∨ ce = .readFailed)
      (hreading : w.conn.reading ≠ none) :
      ∃ conn, w.exec (.conn ce) = SocketWorld.httpHandlerFree { w with conn := conn } := by
    obtain ⟨conn, status, hx, hne, hcalls⟩ := read_ends h.sound h.armed hreading ce hce
    have hfailed := ConnectionWorld.failed_of_call hne hcalls
    exact ⟨conn, by simp only [SocketWorld.exec, hx, ok_bind, hfailed, if_true]⟩
  cases e with
  | free => exact .inl ⟨w.conn, rfl⟩
  | conn ce =>
    obtain ⟨-, -, hce, hreceives⟩ := he
    cases ce with
    | readEof => exact .inl (hread _ (.inl rfl) hce)
    | readFailed => exact .inl (hread _ (.inr rfl) hce)
    | received block parsed =>
      obtain ⟨length, hlength, hpos, hle⟩ := hce
      refine .inr ⟨hreceives,
        .assertion "IOBuffer_data_len(cref->active_input_buffer_ref) == 0", ?_⟩
      rw [SocketWorld.exec, received_error w.conn length h.sound hlength block hpos hle parsed hends,
        error_bind]
    | read | write | written | writeFailed | runPosted => exact hends.elim
  | close | step | otherOpens | otherCloses | otherRegisters | otherDeregisters => exact hends.elim

end run

/-- However a connection ends, its descriptor is closed once, and its entry in the table
removed once, exactly when `http_connection_close` was called before. -/
theorem socket_closed_once_iff (stream : Watcher) (table : FdTable)
    (owner : ℕ → Option SocketOwner) (w₀ : SocketWorld)
    (hnew : httpSocketNew stream table owner = .ok w₀) (es : List SocketEvent) (w : SocketWorld)
    (h : socketMachine.Run w₀ es w) (e : SocketEvent) (he : w.Enabled e) (hends : e.Ends) :
    (∃ t, w.exec e = .ok t ∧ t.TearsDown) ↔ .close ∈ es := by
  obtain ⟨hlive₀, hfd⟩ := httpSocketNew_live hnew
  have hidle : w.pending = [] ∧ w.freed = false := by
    cases e with
    | conn ce => exact ⟨he.1, he.2.1⟩
    | free => exact he
    | close | step | otherOpens | otherCloses | otherRegisters | otherDeregisters =>
      exact hends.elim
  have hlive := run_live h hlive₀ hidle.2
  have hclosed := (run_unfreed h hidle.2).2
  rw [hfd, or_iff_right (show ¬(stream.fd : ℤ) = -1 by omega)] at hclosed
  have hfrees := ends_frees hlive e he hends
  rcases hlive.phase.idle hidle.1 hidle.2 with ⟨hat, -, ht⟩ | hat
  · have hopen : w.socket.fd = w.stream.fd := congrArg AsioSocket.fd hat.socket
    refine iff_of_false ?_ (hclosed.not.mp (by omega))
    rintro ⟨t, hx, hdown⟩
    rcases hfrees with ⟨conn, hfree⟩ | ⟨-, fault, hfails⟩
    · have hat' : SocketWorld.At { w with conn := conn } _ _ _ _ _ :=
        ⟨hat.socket, hat.freed, hat.pending, hat.closes, hat.removals⟩
      exact not_tearsDown hat' ht (hfree.symm.trans hx) hdown
    · cases hx.symm.trans hfails
  · refine iff_of_true ?_ (hclosed.mp (congrArg AsioSocket.fd hat.socket))
    rcases hfrees with ⟨conn, hfree⟩ | ⟨hpos, -⟩
    · refine ⟨{ w with
        conn := conn
        socket := ⟨-1, -1⟩
        pending := [.close (-1)]
        freed := true }, ?_, tearsDown_of_closed ⟨rfl, rfl, rfl, hat.closes, hat.removals⟩⟩
      rw [hfree, SocketWorld.httpHandlerFree, hat.socket]
      rfl
    · rw [hat.socket] at hpos
      exact absurd hpos (by decide)

/-- `http_connection_close`, and then the application frees the handler. -/
theorem socket_closed_once_explicitly :
    ∃ w₀, httpSocketNew ⟨0, 5⟩ fdTableInit (fun _ => none) = .ok w₀ ∧
      ∃ w, socketMachine.Run w₀ [.close, .step, .step] w ∧
        ∃ t, w.exec .free = .ok t ∧ t.TearsDown := by
  have hrun : ∃ w, socketMachine.Run ⟨⟨0, 5⟩, ⟨5, 5⟩, .init,
        ⟨1, fdTableInit.entries.set 5 (some ⟨0, 5⟩)⟩,
        Function.update (fun _ => none) 5 (some .connection), [], false, [], []⟩
      [.close, .step, .step] w ∧ w.pending = [] ∧ w.freed = false :=
    Machine.exists_run_of_replay _ (by decide +kernel)
  obtain ⟨w, hrun, hidle⟩ := hrun
  exact ⟨_, rfl, w, hrun, (socket_closed_once_iff ⟨0, 5⟩ fdTableInit (fun _ => none) _ rfl _ w hrun .free
    hidle trivial).mpr List.mem_cons_self⟩

/-- The peer closes the connection. Its number is closed, given to another thread, and
closed again. -/
theorem socket_closed_twice :
    ∃ w₀, httpSocketNew ⟨0, 5⟩ fdTableInit (fun _ => none) = .ok w₀ ∧
      ∃ w, socketMachine.Run w₀ [.conn (.read (some 0) (some 0)), .conn .readEof, .step,
          .otherOpens 5, .step, .step] w ∧
        w.pending = [] ∧ w.closes = [⟨5, true⟩, ⟨5, false⟩] ∧ w.owner 5 = none :=
  ⟨_, rfl, Machine.exists_run_of_replay _ (by decide +kernel)⟩

end CHttp
