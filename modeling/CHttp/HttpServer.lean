import CHttp.HttpHandler
import CHttp.HttpSocket

/-! `HttpServer`: the list of handlers, one for every accepted connection. The constructor
of a handler reads from the new connection before the server has put it on the list. -/
namespace CHttp

/-- A handler and the descriptor of its connection. -/
structure ServerHandler where
  socket : AsioSocket
  world : HandlerWorld

/-- The server's list, the table of its run loop, and the handlers in memory by address. -/
structure ServerWorld where
  handlerList : List ℕ
  table : FdTable
  handlers : ℕ → Option ServerHandler

/-- `fcntl` fails for what is not a descriptor, and then `socket_throw_error` asserts 0. -/
def socketSetNonBlocking (socket : ℤ) : Res Unit := cAssert (0 ≤ socket) "0"

def asioStreamNew (table : FdTable) (stream : ℕ) (socket : ℤ) : Res (AsioSocket × FdTable) := do
  socketSetNonBlocking socket
  let table ← runloopRegister table ⟨stream, socket.toNat⟩
  .ok (⟨socket, socket⟩, table)

/-- What the first `read` brings: nothing yet, a block with what the parser makes of it and
the response to its first message, the end of the input, or an error. -/
inductive FirstRead where
  | eagain
  | data (block : Bytes) (parsed : Parsed) (response : HttpMessage)
  | eof
  | failed (errno : ℤ)

/-- What the connection makes of it; an error comes with a count of 0. -/
def FirstRead.event : FirstRead → Option ConnectionEvent
  | .eagain => none
  | .data block parsed _ => some (.received block parsed)
  | .eof | .failed _ => some .readEof

def FirstRead.response : FirstRead → HttpMessage
  | .data _ _ response => response
  | _ => httpMessageNew ⟨false, 0, .get⟩

/-- `http_connection_read` with its call of `asio_stream_read`. -/
def firstRead (href : ℕ) (first : FirstRead) : Res ConnectionWorld := do
  let conn ← ConnectionWorld.init.exec (.read (some 0) (some href))
  match first.event with
  | none => .ok conn
  | some e => conn.exec e

/-- A call of `on_new_message_handler`. -/
def HandlerWorld.onReadCb (response : HttpMessage) (w : HandlerWorld)
    (call : Option HttpMessage × ℤ) : Res HandlerWorld :=
  if call.2 ≠ 0 then w.exec (.readError call.2)
  else match call.1 with
    | none => .error .nullPointer
    | some request => w.exec (.message request response)

/-- The handler that `http_handler_init` leaves behind. -/
def httpHandlerNew (href : ℕ) (first : FirstRead) : Res HandlerWorld := do
  let conn ← firstRead href first
  conn.readCalls.foldlM (HandlerWorld.onReadCb first.response) HandlerWorld.init

def SocketEffect.onTable (table : FdTable) : SocketEffect → Res FdTable
  | .close _ => .ok table
  | .fdTableRemove fd => CHttp.fdTableRemove table fd.toNat

def ServerHandler.httpHandlerFree (h : ServerHandler) (table : FdTable) : Res FdTable := do
  let (_, effects) ← httpConnectionFree h.socket
  let table ← effects.foldlM SocketEffect.onTable table
  CHttp.httpHandlerFree h.world.handler
  .ok table

def onHandlerCompletionCb (server : ServerWorld) (href : ℕ) (h : ServerHandler) :
    Res ServerWorld := do
  cAssert (href ∈ server.handlerList) "x != NULL"
  let table ← h.httpHandlerFree server.table
  .ok ⟨server.handlerList.erase href, table, Function.update server.handlers href none⟩

/-- A handler as its last function leaves it, which may have been the completion callback. -/
def ServerWorld.settle (server : ServerWorld) (href : ℕ) (h : ServerHandler) : Res ServerWorld :=
  if h.world.completed then onHandlerCompletionCb server href h
  else .ok { server with handlers := Function.update server.handlers href (some h) }

/-- `sock2` is what `accept` returned. That it is not positive is printed, and nothing more. -/
def onEventListening (server : ServerWorld) (sock2 : ℤ) (href : ℕ) (first : FirstRead) :
    Res ServerWorld := do
  let (socket, table) ← asioStreamNew server.table href sock2
  let world ← httpHandlerNew href first
  let server ← ServerWorld.settle { server with table := table } href ⟨socket, world⟩
  .ok { server with handlerList := server.handlerList ++ [href] }

inductive ServerEvent where
  | listening (sock2 : ℤ) (href : ℕ) (first : FirstRead)
  | handler (href : ℕ) (e : HandlerEvent)

def FirstRead.Fits : FirstRead → Prop
  | .data block _ _ => 0 < block.length ∧ block.length ≤ readBufferSize
  | _ => True

instance FirstRead.decidableFits (first : FirstRead) : Decidable first.Fits :=
  match first with
  | .data block _ _ => inferInstanceAs (Decidable (0 < block.length ∧ block.length ≤ readBufferSize))
  | .eagain | .eof | .failed _ => inferInstanceAs (Decidable True)

/-- A new handler's address is free, and `accept` fails or returns a descriptor that is not
in use. The events of a handler are those of `handlerMachine`. -/
def ServerWorld.Enabled (w : ServerWorld) : ServerEvent → Prop
  | .listening sock2 href first => (w.handlers href).isNone = true ∧
      (∀ i ∈ w.handlerList, ∀ h ∈ w.handlers i, h.socket.fd ≠ sock2) ∧ first.Fits
  | .handler href e => ∃ h ∈ w.handlers href, h.world.Enabled e

instance ServerWorld.decidableEnabled (w : ServerWorld) (e : ServerEvent) : Decidable (w.Enabled e) :=
  match e with
  | .listening sock2 href first => inferInstanceAs (Decidable ((w.handlers href).isNone = true ∧
      (∀ i ∈ w.handlerList, ∀ h ∈ w.handlers i, h.socket.fd ≠ sock2) ∧ first.Fits))
  | .handler href e => inferInstanceAs (Decidable (∃ h ∈ w.handlers href, h.world.Enabled e))

def ServerWorld.exec (w : ServerWorld) : ServerEvent → Res ServerWorld
  | .listening sock2 href first => onEventListening w sock2 href first
  | .handler href e =>
    match w.handlers href with
    | none => .error .nullPointer
    | some h => do
      let world ← h.world.exec e
      w.settle href { h with world := world }

def serverMachine : Machine ServerWorld ServerEvent Fault := ⟨ServerWorld.Enabled, ServerWorld.exec⟩

instance serverMachine.decidableEnabled (w : ServerWorld) (e : ServerEvent) :
    Decidable (serverMachine.enabled w e) :=
  inferInstanceAs (Decidable (w.Enabled e))

def httpServerNew (table : FdTable) : ServerWorld := ⟨[], table, fun _ => none⟩

/-- The list has every handler in memory once, each for an accepted connection that has
not completed. -/
structure ServerWorld.Tracks (w : ServerWorld) : Prop where
  nodup : w.handlerList.Nodup
  listed : ∀ href, href ∈ w.handlerList ↔ ∃ h, w.handlers href = some h
  accepted : ∀ href h, w.handlers href = some h → 0 ≤ h.socket.fd ∧ h.world.completed = false

/-- The first `read` neither ends the connection nor brings what the parser rejects. -/
def FirstRead.Quiet : FirstRead → Prop
  | .eagain => True
  | .data _ parsed _ => parsed.errno = .ok
  | .eof | .failed _ => False

instance FirstRead.decidableQuiet (first : FirstRead) : Decidable first.Quiet :=
  match first with
  | .eagain => inferInstanceAs (Decidable True)
  | .data _ parsed _ => inferInstanceAs (Decidable (parsed.errno = .ok))
  | .eof | .failed _ => inferInstanceAs (Decidable False)

/-- `accept` returns a descriptor with a free place in the table, and its first read is quiet. -/
def ServerEvent.Admits (w : ServerWorld) : ServerEvent → Prop
  | .listening sock2 _ first => 0 ≤ sock2 ∧ w.table.entries[sock2.toNat]? = some none ∧ first.Quiet
  | .handler _ _ => True

instance ServerEvent.decidableAdmits (w : ServerWorld) (e : ServerEvent) : Decidable (e.Admits w) :=
  match e with
  | .listening sock2 _ first => inferInstanceAs (Decidable
      (0 ≤ sock2 ∧ w.table.entries[sock2.toNat]? = some none ∧ first.Quiet))
  | .handler _ _ => inferInstanceAs (Decidable True)

/-- A handler in memory is in one of its phases and has its place in the table. -/
structure ServerWorld.Holds (w : ServerWorld) (href : ℕ) (h : ServerHandler) : Prop where
  phase : h.world.Phase
  running : h.world.completed = false
  fd : ∃ fd : ℕ, h.socket = ⟨fd, fd⟩ ∧ w.table.Registered ⟨href, fd⟩

/-- The invariant of a server that has met no fault. -/
structure ServerWorld.Sound (w : ServerWorld) : Prop where
  tracks : w.Tracks
  holds : ∀ href h, w.handlers href = some h → w.Holds href h

section first

/-- The connection when the first `read` is made. -/
theorem first_reading (href : ℕ) :
    ∃ conn, ConnectionWorld.init.exec (.read (some 0) (some href)) = .ok conn ∧
      conn.reading = some (readBufferSize : ℤ) ∧ conn.readCalls = [] ∧ conn.readView.Sound ∧
      conn.readView.Armed := by
  obtain ⟨conn, hx, hreading, -, harg, hcalls⟩ := read_starts .init ⟨rfl, rfl, rfl, rfl⟩ rfl
    (some 0) (some href) (by simp)
  refine ⟨conn, hx, hreading, hcalls, ?_, fun _ => ?_⟩
  · exact (exec_readStep .init conn (.read (some 0) (some href)) trivial hx).sound sound_init
  · rw [harg]
    nofun

/-- The end of the input or an error, at once: the handler completes before the server
knows it. -/
theorem httpHandlerNew_ends (href : ℕ) (first : FirstRead) (hends : first.event = some .readEof) :
    ∃ world, httpHandlerNew href first = .ok world ∧ world.completed = true := by
  obtain ⟨conn, hconn, hreading, hcalls, hs, ha⟩ := first_reading href
  have hne : conn.reading ≠ none := by
    rw [hreading]
    nofun
  obtain ⟨conn', status, hx, hstatus, hcalls'⟩ := read_ends hs ha hne .readEof (.inl rfl)
  rw [hcalls, List.nil_append] at hcalls'
  obtain ⟨world, hw, hat⟩ := exec_readError .init ⟨rfl, rfl, rfl, rfl, rfl, rfl, rfl⟩ status hstatus
  refine ⟨world, ?_, hat.completed⟩
  simp only [httpHandlerNew, firstRead, hconn, ok_bind, hends, hx, hcalls', List.foldlM_cons,
    List.foldlM_nil, HandlerWorld.onReadCb, ne_eq, hstatus, not_false_eq_true, if_true, hw]
  rfl

theorem httpHandlerNew_eagain (href : ℕ) : httpHandlerNew href .eagain = .ok .init := by
  obtain ⟨conn, hconn, -, hcalls, -⟩ := first_reading href
  simp only [httpHandlerNew, firstRead, hconn, ok_bind, FirstRead.event, hcalls, List.foldlM_nil]
  rfl

/-- A clean block leads to a call for its first message only. -/
theorem ReadStep.received_calls {v v' : ReadView} {block : Bytes} {msgs : List HttpMessage}
    (h : ReadStep v (.received block ⟨msgs, .ok⟩) v') (hq : v.inputMessageList = []) :
    v'.readCalls = v.readCalls ++ (msgs.head?.map fun m => (some m, 0)).toList := by
  cases h with
  | deliver _ _ m rest hmsgs =>
    rw [hq, List.nil_append] at hmsgs
    subst hmsgs
    rfl
  | nothing _ _ hmsgs =>
    rw [hq, List.nil_append] at hmsgs
    subst hmsgs
    exact (List.append_nil _).symm

theorem httpHandlerNew_data (href : ℕ) (block : Bytes) (msgs : List HttpMessage)
    (response : HttpMessage) (hpos : 0 < block.length) (hle : block.length ≤ readBufferSize) :
    ∃ world, httpHandlerNew href (.data block ⟨msgs, .ok⟩ response) = .ok world ∧ world.Phase ∧
      world.completed = false := by
  obtain ⟨conn, hconn, hreading, hcalls, hs, ha⟩ := first_reading href
  have hle' : (block.length : ℤ) ≤ readBufferSize := by exact_mod_cast hle
  have henabled : conn.Enabled (.received block ⟨msgs, .ok⟩) := ⟨_, hreading, hpos, hle'⟩
  obtain ⟨conn', hx⟩ : ∃ conn', conn.exec (.received block ⟨msgs, .ok⟩) = .ok conn' := by
    cases msgs with
    | nil => exact received_nothing conn _ hs hreading block hpos hle'
    | cons m rest =>
      have harg := ha (show conn.reading ≠ none by rw [hreading]; nofun)
      exact received_delivers conn _ hs hreading harg block hpos hle' m rest
  have hcalls' : conn'.readCalls = (msgs.head?.map fun m => (some m, 0)).toList := by
    have hstep := exec_readStep conn conn' _ henabled hx
    have hview := hstep.received_calls (hs _ hreading).2.2.2.1
    exact hview.trans (by rw [show conn.readView.readCalls = [] from hcalls, List.nil_append])
  have hnew : httpHandlerNew href (.data block ⟨msgs, .ok⟩ response) =
      (msgs.head?.map fun m => (some m, 0)).toList.foldlM (HandlerWorld.onReadCb response) .init := by
    rw [← hcalls', httpHandlerNew, firstRead, hconn, ok_bind, FirstRead.event]
    simp only [hx, ok_bind, FirstRead.response]
  rw [hnew]
  cases msgs with
  | nil => exact ⟨.init, rfl, phase_init, rfl⟩
  | cons m rest =>
    obtain ⟨world, hw, hat⟩ := exec_message .init ⟨rfl, rfl, rfl, rfl, rfl, rfl, rfl⟩ m response
    refine ⟨world, ?_, .writeStartPosted response hat, hat.completed⟩
    simp only [List.head?_cons, Option.map_some, Option.toList_some, List.foldlM_cons,
      List.foldlM_nil, HandlerWorld.onReadCb, ne_eq, not_true_eq_false, if_false, hw]
    rfl

theorem httpHandlerNew_rejected (href : ℕ) (block : Bytes) (parsed : Parsed)
    (response : HttpMessage) (hpos : 0 < block.length) (hle : block.length ≤ readBufferSize)
    (hne : parsed.errno ≠ .ok) :
    httpHandlerNew href (.data block parsed response) =
      .error (.assertion "IOBuffer_data_len(cref->active_input_buffer_ref) == 0") := by
  obtain ⟨conn, hconn, hreading, -, hs, -⟩ := first_reading href
  have hle' : (block.length : ℤ) ≤ readBufferSize := by exact_mod_cast hle
  rw [httpHandlerNew, firstRead, hconn, ok_bind, FirstRead.event]
  simp only [received_error conn readBufferSize hs hreading block hpos hle' parsed hne, error_bind]

/-- A new handler, unless it completes at once: exactly when the first read is quiet. -/
theorem httpHandlerNew_quiet (href : ℕ) (first : FirstRead) (hfits : first.Fits) :
    (first.Quiet ∧ ∃ world, httpHandlerNew href first = .ok world ∧ world.Phase ∧
      world.completed = false) ∨
    (¬first.Quiet ∧ ∀ world, httpHandlerNew href first = .ok world → world.completed = true) := by
  cases first with
  | eagain => exact .inl ⟨trivial, .init, httpHandlerNew_eagain href, phase_init, rfl⟩
  | data block parsed response =>
    by_cases hok : parsed.errno = .ok
    · obtain ⟨msgs, errno⟩ := parsed
      obtain rfl : errno = .ok := hok
      exact .inl ⟨rfl, httpHandlerNew_data href block msgs response hfits.1 hfits.2⟩
    · refine .inr ⟨hok, fun world hw => ?_⟩
      rw [httpHandlerNew_rejected href block parsed response hfits.1 hfits.2 hok] at hw
      cases hw
  | eof =>
    obtain ⟨world, hnew, hcompleted⟩ := httpHandlerNew_ends href .eof rfl
    refine .inr ⟨id, fun world' hw => ?_⟩
    obtain rfl := Except.ok.inj (hnew.symm.trans hw)
    exact hcompleted
  | failed errno =>
    obtain ⟨world, hnew, hcompleted⟩ := httpHandlerNew_ends href (.failed errno) rfl
    refine .inr ⟨id, fun world' hw => ?_⟩
    obtain rfl := Except.ok.inj (hnew.symm.trans hw)
    exact hcompleted

end first

section server

variable {w t : ServerWorld} {href : ℕ} {h : ServerHandler}

theorem asioStreamNew_eq_ok (table : FdTable) (stream : ℕ) (socket : ℤ) (r : AsioSocket × FdTable) :
    asioStreamNew table stream socket = .ok r ↔
      0 ≤ socket ∧ table.entries[socket.toNat]? = some none ∧ r = (⟨socket, socket⟩,
        ⟨table.count+1, table.entries.set socket.toNat (some ⟨stream, socket.toNat⟩)⟩) := by
  rw [asioStreamNew, socketSetNonBlocking, cAssert_bind_eq_ok, decide_eq_true_eq]
  refine and_congr_right fun hpos => ?_
  constructor
  · intro hr
    obtain ⟨table', hinsert, hr⟩ := (bind_eq_ok _ _ _).mp hr
    obtain ⟨hfree, rfl⟩ := fdTableInsert_eq_ok hinsert
    exact ⟨hfree, (Except.ok.inj hr).symm⟩
  · rintro ⟨hfree, rfl⟩
    simp only [runloopRegister, fdTableInsert, hfree, Option.isNone_none, cAssert_true, ok_bind]

/-- A completed handler is freed without a fault, and only its own place in the table is
given up. -/
theorem httpHandlerFree_table (table : FdTable) (fd : ℕ) (hfd : h.socket = ⟨fd, fd⟩)
    (hreg : table.Registered ⟨href, fd⟩) (hfree : CHttp.httpHandlerFree h.world.handler = .ok ()) :
    ∃ table', h.httpHandlerFree table = .ok table' ∧
      ∀ wref, table.Registered wref → wref.fd ≠ fd → table'.Registered wref := by
  by_cases hpos : 0 < fd
  · refine ⟨⟨table.count-1, table.entries.set fd none⟩, ?_, fun wref hw hne =>
      registered_set hw fd _ none (Ne.symm hne)⟩
    have hremove : fdTableRemove table fd = _ := fdTableRemove_registered hreg
    simp only [ServerHandler.httpHandlerFree, httpConnectionFree, asioStreamGetFd, asioStreamFree,
      asioStreamDestroy, asioStreamClose, hfd, decide_true, cAssert_true, ok_bind, Int.natCast_pos,
      hpos, if_true, List.foldlM_cons, List.foldlM_nil, SocketEffect.onTable, Int.toNat_natCast,
      hremove, hfree]
    rfl
  · refine ⟨table, ?_, fun wref hw _ => hw⟩
    simp only [ServerHandler.httpHandlerFree, httpConnectionFree, asioStreamGetFd, asioStreamFree,
      asioStreamDestroy, hfd, decide_true, cAssert_true, ok_bind, Int.natCast_pos, hpos, if_false,
      List.foldlM_cons, List.foldlM_nil, SocketEffect.onTable, hfree]
    rfl

/-- Two handlers do not share a place in the table. -/
theorem ServerWorld.Sound.other_fd (hs : w.Sound) (fd : ℕ) (hreg : w.table.Registered ⟨href, fd⟩)
    (href' : ℕ) (h' : ServerHandler) (hh' : w.handlers href' = some h') (hne : href' ≠ href) :
    ∃ fd' : ℕ, h'.socket = ⟨fd', fd'⟩ ∧ w.table.Registered ⟨href', fd'⟩ ∧ fd' ≠ fd := by
  obtain ⟨fd', hsocket, hreg'⟩ := (hs.holds href' h' hh').fd
  refine ⟨fd', hsocket, hreg', fun hfd => ?_⟩
  exact hne (congrArg Watcher.ptr (hreg.unique hreg' hfd))

theorem update_eq_some {α β : Type} [DecidableEq α] {f : α → Option β} {a b : α} {v : Option β}
    {x : β} (hx : Function.update f a v b = some x) :
    (b = a ∧ v = some x) ∨ (b ≠ a ∧ f b = some x) := by
  rw [Function.update_apply] at hx
  split_ifs at hx with hb
  · exact .inl ⟨hb, hx⟩
  · exact .inr ⟨hb, hx⟩

theorem ServerWorld.Sound.of_holds (hnd : w.handlerList.Nodup)
    (hlisted : ∀ href, href ∈ w.handlerList ↔ ∃ h, w.handlers href = some h)
    (hholds : ∀ href h, w.handlers href = some h → w.Holds href h) : w.Sound := by
  refine ⟨⟨hnd, hlisted, fun href h hh => ⟨?_, (hholds href h hh).running⟩⟩, hholds⟩
  obtain ⟨fd, hsocket, -⟩ := (hholds href h hh).fd
  rw [hsocket]
  exact Int.natCast_nonneg fd

/-- The completion callback finds its handler. -/
theorem sound_completes (hs : w.Sound) (hh : w.handlers href = some h) (world : HandlerWorld)
    (hfree : CHttp.httpHandlerFree world.handler = .ok ()) :
    ∃ t, onHandlerCompletionCb w href { h with world := world } = .ok t ∧ t.Sound := by
  obtain ⟨fd, hsocket, hreg⟩ := (hs.holds href h hh).fd
  have hmem := (hs.tracks.listed href).mpr ⟨h, hh⟩
  obtain ⟨table, htable, hkeep⟩ := httpHandlerFree_table (h := { h with world := world }) w.table fd
    hsocket hreg hfree
  refine ⟨⟨w.handlerList.erase href, table, Function.update w.handlers href none⟩, ?_,
    .of_holds (hs.tracks.nodup.erase href) ?_ ?_⟩
  · simp only [onHandlerCompletionCb, hmem, decide_true, cAssert_true, ok_bind, htable]
  · intro href'
    rw [hs.tracks.nodup.mem_erase_iff, hs.tracks.listed]
    by_cases hne : href' = href
    · subst hne
      simp only [ne_eq, not_true_eq_false, false_and, Function.update_self, reduceCtorEq,
        exists_false]
    · simp only [ne_eq, hne, not_false_eq_true, true_and, Function.update_of_ne hne]
  · intro href' h' hh'
    rcases update_eq_some hh' with ⟨-, hnone⟩ | ⟨hne, hh'⟩
    · cases hnone
    · obtain ⟨fd', hsocket', hreg', hfd⟩ := hs.other_fd fd hreg href' h' hh' hne
      have hold := hs.holds href' h' hh'
      exact ⟨hold.phase, hold.running, fd', hsocket', hkeep _ hreg' hfd⟩

/-- A step of a handler that does not complete it. -/
theorem sound_continues (hs : w.Sound) (hh : w.handlers href = some h) (world : HandlerWorld)
    (hphase : world.Phase) (hrunning : world.completed = false) :
    ServerWorld.Sound { w with
      handlers := Function.update w.handlers href (some { h with world := world }) } := by
  refine .of_holds hs.tracks.nodup ?_ ?_
  · intro href'
    rw [hs.tracks.listed]
    by_cases hne : href' = href
    · subst hne
      simp only [hh, Option.some.injEq, exists_eq', Function.update_self]
    · simp only [Function.update_of_ne hne]
  · intro href' h' hh'
    rcases update_eq_some hh' with ⟨rfl, hsome⟩ | ⟨hne, hh'⟩
    · obtain rfl := Option.some.inj hsome
      obtain ⟨fd, hsocket, hreg⟩ := (hs.holds href' h hh).fd
      exact ⟨hphase, hrunning, fd, hsocket, hreg⟩
    · have hold := hs.holds href' h' hh'
      exact ⟨hold.phase, hold.running, hold.fd⟩

/-- A handler that has completed can be freed. -/
theorem HandlerWorld.Phase.free {world : HandlerWorld} (hphase : world.Phase)
    (hcompleted : world.completed = true) : CHttp.httpHandlerFree world.handler = .ok () := by
  cases hphase with
  | completed hat =>
    rw [hat.handler]
    rfl
  | reading hat => cases hat.completed.symm.trans hcompleted
  | writeStartPosted r hat => cases hat.completed.symm.trans hcompleted
  | writing r hat => cases hat.completed.symm.trans hcompleted
  | readStartPosted hat => cases hat.completed.symm.trans hcompleted

/-- Every event of a handler goes through. -/
theorem sound_handler (hs : w.Sound) (e : HandlerEvent) (he : w.Enabled (.handler href e)) :
    ∃ t, w.exec (.handler href e) = .ok t ∧ t.Sound := by
  obtain ⟨h, hh, he⟩ := he
  have hsome : w.handlers href = some h := hh
  obtain ⟨world, hx, hphase⟩ := (hs.holds href h hsome).phase.step e he
  simp only [ServerWorld.exec, hsome, hx, ok_bind, ServerWorld.settle]
  cases hcompleted : world.completed with
  | false =>
    simp only [Bool.false_eq_true, if_false]
    exact ⟨_, rfl, sound_continues hs hsome world hphase hcompleted⟩
  | true =>
    simp only [if_true]
    exact sound_completes hs hsome world (hphase.free hcompleted)

/-- A new handler, with its descriptor at a free place of the table. -/
theorem sound_adds (hs : w.Sound) (hnew : href ∉ w.handlerList) (fd : ℕ)
    (hfree : w.table.entries[fd]? = some none) (world : HandlerWorld)
    (hphase : world.Phase) (hrunning : world.completed = false) :
    ServerWorld.Sound ⟨w.handlerList ++ [href],
      ⟨w.table.count+1, w.table.entries.set fd (some ⟨href, fd⟩)⟩,
      Function.update w.handlers href (some ⟨⟨fd, fd⟩, world⟩)⟩ := by
  refine .of_holds (nodup_snoc hs.tracks.nodup hnew) ?_ ?_
  · intro href'
    rw [List.mem_append, List.mem_singleton, hs.tracks.listed]
    by_cases hne : href' = href
    · subst hne
      simp only [or_true, Function.update_self, Option.some.injEq, exists_eq']
    · simp only [hne, or_false, Function.update_of_ne hne]
  · intro href' h' hh'
    rcases update_eq_some hh' with ⟨rfl, hsome⟩ | ⟨hne, hh'⟩
    · obtain rfl := Option.some.inj hsome
      exact ⟨hphase, hrunning, fd, rfl, registered_insert ⟨href', fd⟩ hfree⟩
    · have hold := hs.holds href' h' hh'
      obtain ⟨fd', hsocket', hreg'⟩ := hold.fd
      exact ⟨hold.phase, hold.running, fd', hsocket', registered_set hreg' _ _ _ (hreg'.fd_ne hfree)⟩

/-- A new connection is put on the list, and anything else is a fault. -/
theorem sound_listening (hs : w.Sound) (sock2 : ℤ) (first : FirstRead)
    (he : w.Enabled (.listening sock2 href first)) :
    OkIff (w.exec (.listening sock2 href first)) ServerWorld.Sound
      (ServerEvent.Admits w (.listening sock2 href first)) := by
  obtain ⟨hnone, -, hfits⟩ := he
  rw [Option.isNone_iff_eq_none] at hnone
  have hnew : href ∉ w.handlerList := by
    rw [hs.tracks.listed, hnone]
    rintro ⟨h, hh⟩
    cases hh
  rcases httpHandlerNew_quiet href first hfits with ⟨hquiet, world, hworld, hphase, hrunning⟩ |
      ⟨hquiet, hends⟩
  · by_cases hplace : 0 ≤ sock2 ∧ w.table.entries[sock2.toNat]? = some none
    · obtain ⟨fd, rfl⟩ := Int.eq_ofNat_of_zero_le hplace.1
      have hstream := (asioStreamNew_eq_ok w.table href fd _).mpr ⟨hplace.1, hplace.2, rfl⟩
      refine .of_ok ?_ (sound_adds hs hnew fd hplace.2 world hphase hrunning)
        ⟨hplace.1, hplace.2, hquiet⟩
      simp only [ServerWorld.exec, onEventListening, hstream, ok_bind, hworld, ServerWorld.settle,
        hrunning, Bool.false_eq_true, if_false]
      rfl
    · refine .of_faults (fun t hx => ?_) fun hadmits => hplace ⟨hadmits.1, hadmits.2.1⟩
      obtain ⟨r, hstream, -⟩ := (bind_eq_ok _ _ _).mp hx
      obtain ⟨hpos, hfree, -⟩ := (asioStreamNew_eq_ok _ _ _ _).mp hstream
      exact hplace ⟨hpos, hfree⟩
  · refine .of_faults (fun t hx => ?_) fun hadmits => hquiet hadmits.2.2
    obtain ⟨⟨socket, table⟩, -, hx⟩ := (bind_eq_ok _ _ _).mp hx
    obtain ⟨world, hworld, hx⟩ := (bind_eq_ok _ _ _).mp hx
    obtain ⟨u, hsettle, -⟩ := (bind_eq_ok _ _ _).mp hx
    rw [ServerWorld.settle, if_pos (hends world hworld), onHandlerCompletionCb, cAssert_bind_eq_ok,
      decide_eq_true_eq] at hsettle
    exact hnew hsettle.1

theorem sound_new (table : FdTable) : (httpServerNew table).Sound := by
  refine .of_holds List.nodup_nil (fun href => ?_) (fun href h hh => ?_)
  · refine iff_of_false List.not_mem_nil ?_
    rintro ⟨h, hh⟩
    cases hh
  · cases hh

theorem sound_step (hs : w.Sound) (e : ServerEvent) (he : w.Enabled e) :
    OkIff (w.exec e) ServerWorld.Sound (e.Admits w) := by
  cases e with
  | listening sock2 href first => exact sound_listening hs sock2 first he
  | handler href e =>
    obtain ⟨t, hx, ht⟩ := sound_handler hs e he
    exact .of_ok hx ht trivial

end server

/-- Events, each one possible where those before it lead, go through with the list true to the
live connections all the time, exactly when every `accept` returns a descriptor with a free
place in the table, and the first read from it neither ends the connection nor brings what the
parser rejects. -/
theorem http_server_tracks_iff (table : FdTable) (es : List ServerEvent) :
    serverMachine.Performs ServerWorld.Tracks (httpServerNew table) es ↔
      Machine.Admits serverMachine.next (fun w e => w.Enabled e ∧ e.Admits w)
        (httpServerNew table) es :=
  Machine.performs_iff_admits_next (J := fun w _ => w.Sound) (fun _ _ hs => hs.tracks)
    (fun _ e _ hs he => sound_step hs e he) _ es (sound_new table)

/-- Two connections, of which one has nothing to read at first. The other ends, and its
descriptor comes again. -/
theorem http_server_tracks_three :
    serverMachine.Performs ServerWorld.Tracks (httpServerNew fdTableInit)
      [.listening 5 0 .eagain,
        .listening 6 1 (.data (ascii "G") ⟨[], .ok⟩ (httpMessageNew ⟨false, 0, .get⟩)),
        .handler 0 (.readError (-1)), .listening 5 2 .eagain] :=
  (http_server_tracks_iff fdTableInit _).mpr (by decide +kernel)

/-- A connection that its peer has closed at once, and an `accept` that fails. -/
theorem http_server_aborts :
    serverMachine.enabled (httpServerNew fdTableInit) (.listening 5 0 .eof) ∧
      (httpServerNew fdTableInit).exec (.listening 5 0 .eof) = .error (.assertion "x != NULL") ∧
      serverMachine.enabled (httpServerNew fdTableInit) (.listening (-1) 0 .eagain) ∧
      (httpServerNew fdTableInit).exec (.listening (-1) 0 .eagain) = .error (.assertion "0") :=
  ⟨by decide, rfl, by decide, rfl⟩

end CHttp
