import CHttp.TcpListener

/-! The echo server, `server_ctx.c`, over the TCP listener. Its callback builds an app instance
for the socket and posts the function that accepts again, so exactly one of that function, an
attempt and a pending accept is under way. Whatever error the listener has to report, it
passes socket 0, and the callback asserts that the socket is not 0. -/
namespace CHttp

/-- `ServerCtx_s` with its listener. App instances are numbered as they are created. -/
structure ServerCtx where
  listener : AcceptWorld
  /-- `postable_start` in the ready list -/
  starts : ℕ
  connectionList : List ℕ
  /-- calls of `APP_NEW` so far -/
  apps : ℕ
  /-- instances that `APP_RUN` was called for, and that are not done -/
  running : Finset ℕ

namespace ServerCtx

/-- `server_ctx_init` and `server_ctx_run`. -/
def run (rlevent : KqueueEvent) (kq : Kqueue) : ServerCtx :=
  ⟨AcceptWorld.tcpListenerInit rlevent kq, 1, [], 0, ∅⟩

def handleNewSocket (ctx : ServerCtx) (newSock : ℕ) (error : ℤ) : Res ServerCtx := do
  cAssert (newSock ≠ 0) "new_sock != 0"
  -- the instance is created before the error is looked at
  let appRef := ctx.apps
  let ctx := { ctx with apps := ctx.apps+1 }
  let ctx := if error = 0 then
      { ctx with
        connectionList := ctx.connectionList ++ [appRef], running := insert appRef ctx.running }
    else ctx
  .ok { ctx with starts := ctx.starts+1 }

/-- The call of `invoke_accept_callback` that the listener recorded. -/
def acceptCallback (ctx : ServerCtx) (x : AcceptEntry) : Res ServerCtx :=
  match x.acceptCb with
  | none => .error .nullPointer
  | some _ => ctx.handleNewSocket x.newSock x.error

/-- The listener after one of its functions, and the callbacks that the function called. -/
def withListener (ctx : ServerCtx) (listener : AcceptWorld) : Res ServerCtx :=
  (listener.entered.drop ctx.listener.entered.length).foldlM acceptCallback
    { ctx with listener := listener }

/-- `postable_start`. The argument of the callback is the server. -/
def postableStart (ctx : ServerCtx) : Res ServerCtx := do
  let listener ← ctx.listener.tcpAccept (some 0)
  ctx.withListener listener

def appInstanceDoneCb (ctx : ServerCtx) (app : ℕ) : Res ServerCtx := do
  cAssert (app ∈ ctx.connectionList) "itr != NULL"
  .ok { ctx with
    connectionList := ctx.connectionList.erase app, running := ctx.running.erase app }

end ServerCtx

/-- `runStart` and `tryAccept` are functions in the ready list, `report` is a return of
`kevent` and `handle` the handler it leads to. With an attempt comes the result of `accept`,
for the case that it is called. -/
inductive EchoServerEvent where
  | runStart
  | tryAccept (result : AcceptResult)
  | report
  | handle (result : AcceptResult)
  | done (app : ℕ)
  deriving DecidableEq, Repr

namespace ServerCtx

/-- `runloop_run` calls `kevent` when the ready list is empty, and takes up the list again when
it has called the handlers. -/
def Enabled (ctx : ServerCtx) : EchoServerEvent → Prop
  | .runStart => 0 < ctx.starts ∧ ctx.listener.reported = false
  | .tryAccept _ => 0 < ctx.listener.posted ∧ ctx.listener.reported = false
  | .report => ctx.starts = 0 ∧ ctx.listener.posted = 0 ∧ ctx.listener.reported = false ∧
      ctx.listener.knote.any Knote.enabled = true
  | .handle _ => ctx.listener.reported = true
  | .done app => app ∈ ctx.running

/-- The server listens on a socket for which `listen` returns 0. -/
def exec (ctx : ServerCtx) : EchoServerEvent → Res ServerCtx
  | .runStart => { ctx with starts := ctx.starts-1 }.postableStart
  | .tryAccept result => do
    let listener ← ctx.listener.exec (.runPosted true result)
    ctx.withListener listener
  | .report => do
    let listener ← ctx.listener.exec .report
    ctx.withListener listener
  | .handle result => do
    let listener ← ctx.listener.exec (.handle result)
    ctx.withListener listener
  | .done app => ctx.appInstanceDoneCb app

/-- The list has exactly the running instances, each once, and there is one instance for each
socket that was accepted. -/
structure Tracks (ctx : ServerCtx) : Prop where
  once : ctx.connectionList.Nodup
  running : ∀ app, app ∈ ctx.connectionList ↔ app ∈ ctx.running
  created : ctx.apps = ctx.listener.sockets.length

end ServerCtx

def echoServerMachine : Machine ServerCtx EchoServerEvent Fault :=
  ⟨ServerCtx.Enabled, ServerCtx.exec⟩

instance ServerCtx.decidableEnabled (ctx : ServerCtx) (e : EchoServerEvent) :
    Decidable (ctx.Enabled e) :=
  match e with
  | .runStart => inferInstanceAs (Decidable (0 < ctx.starts ∧ ctx.listener.reported = false))
  | .tryAccept _ =>
    inferInstanceAs (Decidable (0 < ctx.listener.posted ∧ ctx.listener.reported = false))
  | .report =>
    inferInstanceAs (Decidable (ctx.starts = 0 ∧ ctx.listener.posted = 0 ∧
      ctx.listener.reported = false ∧ ctx.listener.knote.any Knote.enabled = true))
  | .handle _ => inferInstanceAs (Decidable (ctx.listener.reported = true))
  | .done app => inferInstanceAs (Decidable (app ∈ ctx.running))

/-- A descriptor that is not 0, or no connection yet. -/
def AcceptResult.Delivers : AcceptResult → Prop
  | .accepted sock => sock ≠ 0
  | .again => True
  | .failed _ => False

instance : (result : AcceptResult) → Decidable result.Delivers
  | .accepted sock => inferInstanceAs (Decidable (sock ≠ 0))
  | .again => inferInstanceAs (Decidable True)
  | .failed _ => inferInstanceAs (Decidable False)

/-- The condition on an event: `accept` does not fail. -/
def EchoServerEvent.Delivers : EchoServerEvent → Prop
  | .tryAccept result | .handle result => result.Delivers
  | .runStart | .report | .done _ => True

instance : (e : EchoServerEvent) → Decidable e.Delivers
  | .tryAccept result | .handle result => inferInstanceAs (Decidable result.Delivers)
  | .runStart | .report | .done _ => inferInstanceAs (Decidable True)

namespace ServerCtx

variable {ctx : ServerCtx}

/-- Where the one accept of the server is. -/
inductive Phase (starts : ℕ) (l : AcceptWorld) : Prop where
  | starting (hstarts : starts = 1) (hposted : l.posted = 0) (hcb : l.acceptCb = none)
      (harg : l.acceptCbArg = none) (hreported : l.reported = false)
      (hstate : l.lState = .initial ∨ l.lState = .ready)
  | attempting (hstarts : starts = 0) (hposted : l.posted = 1) (hcb : l.acceptCb ≠ none)
      (hreported : l.reported = false) (hstate : l.lState = .initial ∨ l.lState = .ready)
  | waiting (hstarts : starts = 0) (hposted : l.posted = 0) (hcb : l.acceptCb ≠ none)
      (hpostable : l.listenPostable = some .onAcceptReady) (hstate : l.lState = .eagain)

structure Known (ctx : ServerCtx) : Prop extends ctx.Tracks where
  below : ∀ app ∈ ctx.connectionList, app < ctx.apps
  phase : Phase ctx.starts ctx.listener

/-- A function of the listener that calls no callback. -/
theorem withListener_silent (ctx : ServerCtx) {l : AcceptWorld}
    (hentered : l.entered = ctx.listener.entered) :
    ctx.withListener l = .ok { ctx with listener := l } := by
  rw [withListener, hentered, List.drop_length]
  rfl

/-- A function of the listener that calls the callback once. -/
theorem withListener_calls (ctx : ServerCtx) {l : AcceptWorld} {x : AcceptEntry}
    (hentered : l.entered = ctx.listener.entered ++ [x]) :
    ctx.withListener l = { ctx with listener := l }.acceptCallback x := by
  rw [withListener, hentered, List.drop_left, List.foldlM_cons]
  cases { ctx with listener := l }.acceptCallback x with
  | error e => rfl
  | ok t => rfl

/-- Socket 0 trips the assertion, or there is no callback to call. -/
theorem acceptCallback_zero {x : AcceptEntry} (hzero : x.newSock = 0) (t : ServerCtx) :
    ctx.acceptCallback x ≠ .ok t := by
  intro hx
  unfold acceptCallback at hx
  split at hx
  · cases hx
  · rw [hzero] at hx
    cases hx

/-- An instance that is new to the list joins it. -/
theorem Known.addApp (h : ctx.Known) {l : AcceptWorld} {sock : ℕ} (c : ℕ) (arg : Option ℕ)
    (hsockets : l.sockets = ctx.listener.sockets ++ [sock+1]) (hphase : Phase (ctx.starts+1) l) :
    ∃ t, { ctx with listener := l }.acceptCallback ⟨some c, arg, sock+1, 0⟩ = .ok t ∧ t.Known := by
  have hnew : ctx.apps ∉ ctx.connectionList := fun hmem => (h.below _ hmem).false
  refine ⟨_, rfl, ⟨⟨nodup_snoc h.once hnew, fun app => ?_, ?_⟩, fun app happ => ?_, hphase⟩⟩
  · show app ∈ ctx.connectionList ++ [ctx.apps] ↔ app ∈ insert ctx.apps ctx.running
    rw [List.mem_append, List.mem_singleton, Finset.mem_insert, h.running, or_comm]
  · show ctx.apps+1 = l.sockets.length
    rw [hsockets, List.length_append, List.length_singleton, h.created]
  · rcases List.mem_append.mp happ with hold | hnew
    · exact (h.below app hold).trans (Nat.lt_succ_self _)
    · rw [List.mem_singleton.mp hnew]
      exact Nat.lt_succ_self _

/-- An attempt to accept for the pending accept goes through exactly if `accept` did not fail. -/
theorem tryAccept_okIff (h : ctx.Known) {l : AcceptWorld}
    (hentered : l.entered = ctx.listener.entered) (hsockets : l.sockets = ctx.listener.sockets)
    (hstarts : ctx.starts = 0) (hposted : l.posted = 0) (hcb : l.acceptCb ≠ none)
    (hreported : l.reported = false) (result : AcceptResult) :
    OkIff (ctx.withListener (l.tryAccept result)) Known result.Delivers := by
  match result with
  | .accepted 0 =>
    have hcalls := withListener_calls ctx (l := l.tryAccept (.accepted 0))
      (x := ⟨l.acceptCb, l.acceptCbArg, 0, -33⟩) (congrArg (· ++ [_]) hentered)
    rw [hcalls]
    exact .of_faults (acceptCallback_zero rfl) fun hne => hne rfl
  | .accepted (sock+1) =>
    have hcalls := withListener_calls ctx (l := l.tryAccept (.accepted (sock+1)))
      (x := ⟨l.acceptCb, l.acceptCbArg, sock+1, 0⟩) (congrArg (· ++ [_]) hentered)
    obtain ⟨c, hc⟩ := Option.ne_none_iff_exists'.mp hcb
    rw [hc] at hcalls
    obtain ⟨t, ht, hknown⟩ := h.addApp (l := l.tryAccept (.accepted (sock+1)))
      c l.acceptCbArg (congrArg (· ++ [sock+1]) hsockets)
      (.starting (by rw [hstarts]) hposted rfl rfl hreported (.inr rfl))
    exact .of_ok (hcalls.trans ht) hknown (Nat.succ_ne_zero sock)
  | .again =>
    have hphase : Phase ctx.starts (l.tryAccept .again) := .waiting hstarts hposted hcb rfl rfl
    refine .of_ok (withListener_silent ctx (l := l.tryAccept .again) hentered) ?_ trivial
    have hcreated := h.created.trans (congrArg List.length hsockets.symm)
    exact ⟨⟨h.once, h.running, hcreated⟩, h.below, hphase⟩
  | .failed errno =>
    have hcalls := withListener_calls ctx (l := l.tryAccept (.failed errno))
      (x := ⟨l.acceptCb, l.acceptCbArg, 0, errno⟩) (congrArg (· ++ [_]) hentered)
    rw [hcalls]
    exact .of_faults (acceptCallback_zero rfl) id

theorem runStart_okIff (h : ctx.Known) (he : ctx.Enabled .runStart) :
    OkIff (ctx.exec .runStart) Known True := by
  cases h.phase with
  | starting hstarts hposted hcb harg hreported hstate =>
    let l : AcceptWorld := { ctx.listener with
      acceptCb := some ctx.listener.accepts, acceptCbArg := some 0
      accepts := ctx.listener.accepts+1, posted := ctx.listener.posted+1 }
    have haccept : ctx.listener.tcpAccept (some 0) = .ok l := by
      rw [AcceptWorld.tcpAccept, hcb, harg]
      rcases hstate with hinitial | hready
      · simp only [hinitial, Option.isNone_none, cAssert_true, ok_bind, l]
      · simp only [hready, Option.isNone_none, cAssert_true, ok_bind, l]
    refine .of_ok (r := { ctx with listener := l, starts := ctx.starts-1 }) ?_ ?_ trivial
    · rw [exec, postableStart]
      dsimp only
      rw [haccept, ok_bind]
      exact withListener_silent _ rfl
    · refine ⟨⟨h.once, h.running, h.created⟩, h.below, .attempting ?_ ?_ ?_ hreported hstate⟩
      · show ctx.starts-1 = 0
        rw [hstarts]
      · show ctx.listener.posted+1 = 1
        rw [hposted]
      · exact Option.some_ne_none _
  | attempting hstarts => exact absurd he.1 (by rw [hstarts]; exact lt_irrefl 0)
  | waiting hstarts => exact absurd he.1 (by rw [hstarts]; exact lt_irrefl 0)

theorem postableTryAccept_tries {l : AcceptWorld} (h : l.lState = .initial ∨ l.lState = .ready)
    (result : AcceptResult) :
    l.postableTryAccept true result =
      .ok (({ l with lState := .ready }.runloopListenerArm .onAcceptReady).tryAccept result) := by
  obtain ⟨lState⟩ := l
  rcases h with rfl | rfl <;> rfl

theorem tryAccept_step (h : ctx.Known) (result : AcceptResult)
    (he : ctx.Enabled (.tryAccept result)) :
    OkIff (ctx.exec (.tryAccept result)) Known result.Delivers := by
  cases h.phase with
  | starting _ hposted => exact absurd he.1 (by rw [hposted]; exact lt_irrefl 0)
  | waiting _ hposted => exact absurd he.1 (by rw [hposted]; exact lt_irrefl 0)
  | attempting hstarts hposted hcb hreported hstate =>
    have hattempt := tryAccept_okIff h
      (l := { ctx.listener with
        posted := ctx.listener.posted-1, lState := .ready }.runloopListenerArm .onAcceptReady)
      rfl rfl hstarts (by show ctx.listener.posted-1 = 0; rw [hposted]) hcb hreported result
    have hexec : ctx.exec (.tryAccept result) = ctx.withListener
        (({ ctx.listener with
          posted := ctx.listener.posted-1, lState := .ready }.runloopListenerArm
            .onAcceptReady).tryAccept result) := by
      have htries := postableTryAccept_tries (l := { ctx.listener with
        posted := ctx.listener.posted-1 }) hstate result
      rw [exec, AcceptWorld.exec, htries, ok_bind]
    rw [hexec]
    exact hattempt

theorem report_okIff (h : ctx.Known) (he : ctx.Enabled .report) :
    OkIff (ctx.exec .report) Known True := by
  cases h.phase with
  | starting hstarts => exact absurd he.1 (by rw [hstarts]; exact one_ne_zero)
  | attempting _ hposted => exact absurd he.2.1 (by rw [hposted]; exact one_ne_zero)
  | waiting hstarts hposted hcb hpostable hstate =>
    refine .of_ok (withListener_silent ctx (l := ctx.listener.report) rfl) ?_ trivial
    exact ⟨⟨h.once, h.running, h.created⟩, h.below, .waiting hstarts hposted hcb hpostable hstate⟩

theorem handle_step (h : ctx.Known) (result : AcceptResult) (he : ctx.Enabled (.handle result)) :
    OkIff (ctx.exec (.handle result)) Known result.Delivers := by
  have hreported : ctx.listener.reported = true := he
  cases h.phase with
  | starting _ _ _ _ hnot => rw [hreported] at hnot; cases hnot
  | attempting _ _ _ hnot => rw [hreported] at hnot; cases hnot
  | waiting hstarts hposted hcb hpostable hstate =>
    have hattempt := tryAccept_okIff h
      (l := { ctx.listener with reported := false, lState := .ready }) rfl rfl hstarts hposted hcb
      rfl result
    have hexec : ctx.exec (.handle result) = ctx.withListener
        ({ ctx.listener with reported := false, lState := .ready }.tryAccept result) := by
      have hsome : ctx.listener.acceptCb.isSome = true := Option.isSome_iff_ne_none.mpr hcb
      simp only [exec, AcceptWorld.exec, AcceptWorld.handler, hpostable, AcceptWorld.onAcceptReady,
        hstate, hsome, if_true, ok_bind]
    rw [hexec]
    exact hattempt

theorem done_okIff (h : ctx.Known) (app : ℕ) (he : ctx.Enabled (.done app)) :
    OkIff (ctx.exec (.done app)) Known True := by
  have hmem : app ∈ ctx.connectionList := (h.running app).mpr he
  refine .of_ok (r := { ctx with
    connectionList := ctx.connectionList.erase app, running := ctx.running.erase app }) ?_ ?_ trivial
  · rw [exec, appInstanceDoneCb, decide_eq_true hmem, cAssert_true, ok_bind]
  · refine ⟨⟨h.once.erase app, fun app' => ?_, h.created⟩, fun app' happ' => ?_, h.phase⟩
    · show app' ∈ ctx.connectionList.erase app ↔ app' ∈ ctx.running.erase app
      rw [h.once.mem_erase_iff, Finset.mem_erase, h.running]
    · exact h.below app' (List.mem_of_mem_erase happ')

theorem known_step (h : ctx.Known) (e : EchoServerEvent) (he : ctx.Enabled e) :
    OkIff (ctx.exec e) Known e.Delivers := by
  cases e with
  | runStart => exact runStart_okIff h he
  | tryAccept result => exact tryAccept_step h result he
  | report => exact report_okIff h he
  | handle result => exact handle_step h result he
  | done app => exact done_okIff h app he

theorem run_known (rlevent : KqueueEvent) (kq : Kqueue) : (run rlevent kq).Known where
  once := List.nodup_nil
  running := fun app => by simp [run]
  created := rfl
  below := fun app happ => by cases happ
  phase := .starting rfl rfl rfl rfl rfl (.inl rfl)

end ServerCtx

/-- Events that may happen one after another go through, with the list true to the running
instances all the time, exactly when every `accept` returns a descriptor other than 0 or finds
no connection. -/
theorem echo_server_tracks_iff (rlevent : KqueueEvent) (kq : Kqueue) (es : List EchoServerEvent)
    (hes : Machine.Admits echoServerMachine.next ServerCtx.Enabled (.run rlevent kq) es) :
    echoServerMachine.Performs ServerCtx.Tracks (.run rlevent kq) es ↔ ∀ e ∈ es, e.Delivers :=
  Machine.performs_iff_forall_next (J := ServerCtx.Known) (fun _ h => h.toTracks)
    (fun _ e h he => ServerCtx.known_step h e he) _ es (ServerCtx.run_known rlevent kq) hes

/-- Two connections, the second after the listener had to wait. The first is done before. -/
theorem echo_server_tracks_two :
    echoServerMachine.Performs ServerCtx.Tracks (.run ⟨4096, 3⟩ fun _ => none)
      [.runStart, .tryAccept (.accepted 5), .runStart, .tryAccept .again, .report, .done 0,
        .handle (.accepted 6), .runStart, .tryAccept .again, .done 1] :=
  (echo_server_tracks_iff ⟨4096, 3⟩ _ _ (by decide +kernel)).mpr (by decide)

/-- `accept` fails with EMFILE: the callback is called with socket 0. -/
theorem echo_server_aborts :
    ((ServerCtx.run ⟨4096, 3⟩ fun _ => none).exec .runStart >>= fun ctx =>
      ctx.exec (.tryAccept (.failed 24))) = .error (.assertion "new_sock != 0") :=
  rfl

end CHttp
