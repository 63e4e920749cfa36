import CHttp.HttpMessage

/-! `HttpHandler`: the cycle of reading a request, filling its response and writing
it. The connection is seen through its contract only: a read or a write calls back at
most once, perhaps before the call that started it returns. That call is always the
last thing a function of the handler does, so the callback is a later event either way. -/
namespace CHttp

/-- The functions a handler posts to the run loop. -/
inductive HandlerPost where
  | postableWriteStart | handlerPostableReadStart
  deriving DecidableEq, Repr

inductive HandlerEffect where
  | httpConnectionRead
  | httpConnectionWrite (response : HttpMessage)
  | runloopPost (f : HandlerPost)
  | completionCallback
  deriving DecidableEq

/-- `HttpHandler_s`. -/
structure HttpHandler where
  inputList : List HttpMessage
  outputList : List HttpMessage
  activeResponse : Option HttpMessage
  deriving DecidableEq

abbrev HandlerStep := Res (HttpHandler × List HandlerEffect)

def httpHandlerInit : HttpHandler × List HandlerEffect := (⟨[], [], none⟩, [.httpConnectionRead])

def httpHandlerFree (this : HttpHandler) : Res Unit := do
  cAssert (this.inputList.length = 0) "List_size(this->input_list) == 0"
  cAssert (this.outputList.length = 0) "List_size(this->output_list) == 0"

/-- `on_new_message_handler`; `response` is the new message as `request_handler` filled it. -/
def onNewMessageHandler (handler : HttpHandler) (response : HttpMessage) (errorCode : ℤ) :
    HandlerStep :=
  if errorCode ≠ 0 then .ok (handler, [.completionCallback])
  else
    let handler := { handler with outputList := handler.outputList ++ [response] }
    -- a second response while one waits is the `assert(false)` of the source
    if 1 < handler.outputList.length then .error (.assertion "false")
    else if handler.outputList.length = 1 then
      .ok (handler, [.runloopPost .postableWriteStart])
    else .ok (handler, [])

def postableWriteStart (handler : HttpHandler) : HandlerStep :=
  if handler.activeResponse.isSome then .ok (handler, [])
  else match handler.outputList with
    | [] => .ok (handler, [])
    | response :: rest =>
      .ok ({ handler with outputList := rest, activeResponse := some response },
        [.httpConnectionWrite response])

/-- `on_write_complete_cb` frees the active response and does not look at `status`. -/
def onWriteCompleteCb (handler : HttpHandler) (_status : ℤ) : HandlerStep :=
  match handler.activeResponse with
  | none => .error .nullPointer
  | some _ =>
    let handler := { handler with activeResponse := none }
    if 1 ≤ handler.outputList.length then .ok (handler, [.runloopPost .postableWriteStart])
    else .ok (handler, [.runloopPost .handlerPostableReadStart])

def handlerPostableReadStart (handler : HttpHandler) : HandlerStep :=
  .ok (handler, [.httpConnectionRead])

def HandlerPost.call (handler : HttpHandler) : HandlerPost → HandlerStep
  | .postableWriteStart => CHttp.postableWriteStart handler
  | .handlerPostableReadStart => CHttp.handlerPostableReadStart handler

/-- A handler with its surroundings. `served` pairs each received request with the
response filled for it, `written` lists the responses passed to
`http_connection_write`, and `overlapped` tells whether the connection was ever called
while a read or a write was outstanding. -/
structure HandlerWorld where
  handler : HttpHandler
  reading : Bool
  writing : Bool
  posted : List HandlerPost
  completed : Bool
  served : List (HttpMessage × HttpMessage)
  written : List HttpMessage
  overlapped : Bool

def HandlerWorld.perform (w : HandlerWorld) : HandlerEffect → HandlerWorld
  | .httpConnectionRead =>
    { w with reading := true, overlapped := w.overlapped || w.reading || w.writing }
  | .httpConnectionWrite response =>
    { w with writing := true, written := w.written ++ [response]
             overlapped := w.overlapped || w.reading || w.writing }
  | .runloopPost f => { w with posted := w.posted ++ [f] }
  | .completionCallback => { w with completed := true }

def HandlerWorld.after (w : HandlerWorld) (step : HandlerStep) : Res HandlerWorld := do
  let (handler, effects) ← step
  .ok (effects.foldl HandlerWorld.perform { w with handler := handler })

/-- The world once `http_handler_init` has returned. -/
def HandlerWorld.init : HandlerWorld :=
  httpHandlerInit.2.foldl HandlerWorld.perform
    ⟨httpHandlerInit.1, false, false, [], false, [], [], false⟩

inductive HandlerEvent where
  | message (request response : HttpMessage)
  | readError (errorCode : ℤ)
  | writeDone (status : ℤ)
  | runPosted

/-- The connection calls back only for a call that is outstanding. -/
def HandlerWorld.Enabled (w : HandlerWorld) : HandlerEvent → Prop
  | .message _ _ => w.reading = true
  | .readError errorCode => w.reading = true ∧ errorCode ≠ 0
  | .writeDone _ => w.writing = true
  | .runPosted => w.posted ≠ []

instance HandlerWorld.decidableEnabled (w : HandlerWorld) (e : HandlerEvent) :
    Decidable (w.Enabled e) :=
  match e with
  | .message _ _ => inferInstanceAs (Decidable (w.reading = true))
  | .readError errorCode => inferInstanceAs (Decidable (w.reading = true ∧ errorCode ≠ 0))
  | .writeDone _ => inferInstanceAs (Decidable (w.writing = true))
  | .runPosted => inferInstanceAs (Decidable (w.posted ≠ []))

def HandlerWorld.exec (w : HandlerWorld) : HandlerEvent → Res HandlerWorld
  | .message request response =>
    HandlerWorld.after { w with reading := false, served := w.served ++ [(request, response)] }
      (onNewMessageHandler w.handler response 0)
  -- no response is made on this path, and the one given here is never looked at
  | .readError errorCode =>
    HandlerWorld.after { w with reading := false }
      (onNewMessageHandler w.handler (httpMessageNew ⟨false, 0, .get⟩) errorCode)
  | .writeDone status =>
    HandlerWorld.after { w with writing := false } (onWriteCompleteCb w.handler status)
  | .runPosted =>
    match w.posted with
    | [] => .ok w
    | f :: rest => HandlerWorld.after { w with posted := rest } (f.call w.handler)

def handlerMachine : Machine HandlerWorld HandlerEvent Fault :=
  ⟨HandlerWorld.Enabled, HandlerWorld.exec⟩

/-- The world has the token at one place of the cycle: `reading`, `posted` and
`writing` are as given, `out` is queued, `active` is being written, and all other
filled responses have been written. -/
structure HandlerWorld.At (w : HandlerWorld) (reading writing completed : Bool)
    (posted : List HandlerPost) (out : List HttpMessage) (active : Option HttpMessage) :
    Prop where
  handler : w.handler = ⟨[], out, active⟩
  reading : w.reading = reading
  writing : w.writing = writing
  posted : w.posted = posted
  completed : w.completed = completed
  served : w.served.map Prod.snd = w.written ++ out
  overlapped : w.overlapped = false

/-- The places of the token. -/
inductive HandlerWorld.Phase (w : HandlerWorld) : Prop where
  | reading (h : w.At true false false [] [] none)
  | writeStartPosted (r : HttpMessage) (h : w.At false false false [.postableWriteStart] [r] none)
  | writing (r : HttpMessage) (h : w.At false true false [] [] (some r))
  | readStartPosted (h : w.At false false false [.handlerPostableReadStart] [] none)
  | completed (h : w.At false false true [] [] none)

theorem phase_init : HandlerWorld.init.Phase := .reading ⟨rfl, rfl, rfl, rfl, rfl, rfl, rfl⟩

theorem exec_message (w : HandlerWorld) (h : w.At true false false [] [] none)
    (request response : HttpMessage) :
    ∃ w', w.exec (.message request response) = .ok w' ∧
      w'.At false false false [.postableWriteStart] [response] none := by
  obtain ⟨hh, -, hw, hp, hc, hs, ho⟩ := h
  refine ⟨{ w with
    handler := ⟨[], [response], none⟩
    reading := false
    posted := [.postableWriteStart]
    served := w.served ++ [(request, response)] }, ?_, rfl, rfl, hw, rfl, hc, ?_, ho⟩
  · simp [HandlerWorld.exec, HandlerWorld.after, onNewMessageHandler, hh, hp, HandlerWorld.perform]
  · simp only [List.map_append, hs, List.append_nil, List.map_cons, List.map_nil]

theorem exec_readError (w : HandlerWorld) (h : w.At true false false [] [] none) (errorCode : ℤ)
    (he : errorCode ≠ 0) :
    ∃ w', w.exec (.readError errorCode) = .ok w' ∧ w'.At false false true [] [] none := by
  obtain ⟨hh, -, hw, hp, -, hs, ho⟩ := h
  refine ⟨{ w with reading := false, completed := true }, ?_, hh, rfl, hw, hp, rfl, hs, ho⟩
  simp [HandlerWorld.exec, HandlerWorld.after, onNewMessageHandler, he, HandlerWorld.perform]

theorem exec_writeStart (w : HandlerWorld) (r : HttpMessage)
    (h : w.At false false false [.postableWriteStart] [r] none) :
    ∃ w', w.exec .runPosted = .ok w' ∧ w'.At false true false [] [] (some r) := by
  obtain ⟨hh, hr, hw, hp, hc, hs, ho⟩ := h
  refine ⟨{ w with
    handler := ⟨[], [], some r⟩
    writing := true
    posted := []
    written := w.written ++ [r] }, ?_, rfl, hr, rfl, rfl, hc, ?_, ho⟩
  · simp [HandlerWorld.exec, HandlerWorld.after, HandlerPost.call, postableWriteStart, hp, hh,
      HandlerWorld.perform, ho, hr, hw]
  · rw [hs, List.append_nil]

theorem exec_writeDone (w : HandlerWorld) (r : HttpMessage)
    (h : w.At false true false [] [] (some r)) (status : ℤ) :
    ∃ w', w.exec (.writeDone status) = .ok w' ∧
      w'.At false false false [.handlerPostableReadStart] [] none := by
  obtain ⟨hh, hr, -, hp, hc, hs, ho⟩ := h
  refine ⟨{ w with
    handler := ⟨[], [], none⟩
    writing := false
    posted := [.handlerPostableReadStart] }, ?_, rfl, hr, rfl, rfl, hc, hs, ho⟩
  simp [HandlerWorld.exec, HandlerWorld.after, onWriteCompleteCb, hp, hh, HandlerWorld.perform]

theorem exec_readStart (w : HandlerWorld)
    (h : w.At false false false [.handlerPostableReadStart] [] none) :
    ∃ w', w.exec .runPosted = .ok w' ∧ w'.At true false false [] [] none := by
  obtain ⟨hh, hr, hw, hp, hc, hs, ho⟩ := h
  refine ⟨{ w with reading := true, posted := [] }, ?_, hh, rfl, hw, rfl, hc, hs, ho⟩
  simp [HandlerWorld.exec, HandlerWorld.after, HandlerPost.call, handlerPostableReadStart, hp,
    HandlerWorld.perform, ho, hr, hw]

/-- Only one place of the cycle has a read outstanding, only one a write. -/
theorem HandlerWorld.Phase.of_reading {w : HandlerWorld} (h : w.Phase) (hr : w.reading = true) :
    w.At true false false [] [] none := by
  cases h with
  | reading h => exact h
  | writeStartPosted r h => exact absurd (h.reading.symm.trans hr) (by decide)
  | writing r h => exact absurd (h.reading.symm.trans hr) (by decide)
  | readStartPosted h => exact absurd (h.reading.symm.trans hr) (by decide)
  | completed h => exact absurd (h.reading.symm.trans hr) (by decide)

theorem HandlerWorld.Phase.of_writing {w : HandlerWorld} (h : w.Phase) (hw : w.writing = true) :
    ∃ r, w.At false true false [] [] (some r) := by
  cases h with
  | reading h => exact absurd (h.writing.symm.trans hw) (by decide)
  | writeStartPosted r h => exact absurd (h.writing.symm.trans hw) (by decide)
  | writing r h => exact ⟨r, h⟩
  | readStartPosted h => exact absurd (h.writing.symm.trans hw) (by decide)
  | completed h => exact absurd (h.writing.symm.trans hw) (by decide)

theorem HandlerWorld.Phase.of_posted {w : HandlerWorld} (h : w.Phase) (hp : w.posted ≠ []) :
    (∃ r, w.At false false false [.postableWriteStart] [r] none) ∨
      w.At false false false [.handlerPostableReadStart] [] none := by
  cases h with
  | reading h => exact absurd h.posted hp
  | writeStartPosted r h => exact Or.inl ⟨r, h⟩
  | writing r h => exact absurd h.posted hp
  | readStartPosted h => exact Or.inr h
  | completed h => exact absurd h.posted hp

/-- Every event the connection and the run loop can produce passes the token on. -/
theorem HandlerWorld.Phase.step {w : HandlerWorld} (h : w.Phase) (e : HandlerEvent)
    (he : w.Enabled e) : ∃ w', w.exec e = .ok w' ∧ w'.Phase := by
  cases e with
  | message request response =>
    obtain ⟨w', hx, h'⟩ := exec_message w (h.of_reading he) request response
    exact ⟨w', hx, .writeStartPosted response h'⟩
  | readError errorCode =>
    obtain ⟨w', hx, h'⟩ := exec_readError w (h.of_reading he.1) errorCode he.2
    exact ⟨w', hx, .completed h'⟩
  | writeDone status =>
    obtain ⟨r, hat⟩ := h.of_writing he
    obtain ⟨w', hx, h'⟩ := exec_writeDone w r hat status
    exact ⟨w', hx, .readStartPosted h'⟩
  | runPosted =>
    rcases h.of_posted he with ⟨r, hat⟩ | hat
    · obtain ⟨w', hx, h'⟩ := exec_writeStart w r hat
      exact ⟨w', hx, .writing r h'⟩
    · obtain ⟨w', hx, h'⟩ := exec_readStart w hat
      exact ⟨w', hx, .reading h'⟩

theorem run_phase {w : HandlerWorld} {es : List HandlerEvent}
    (h : handlerMachine.Run .init es w) : w.Phase :=
  h.keeps_of_total (fun _ e hs he => hs.step e he) phase_init

/-- How many of the four things that can keep a handler going are there, with a
function posted twice counted twice. -/
def HandlerWorld.tokens (w : HandlerWorld) : ℕ :=
  w.reading.toNat+w.posted.count .postableWriteStart+w.writing.toNat+
    w.posted.count .handlerPostableReadStart

/-- One response per request, in order, one at a time. -/
structure HandlerWorld.Orderly (w : HandlerWorld) : Prop where
  token : w.completed = false → w.tokens = 1
  output : w.handler.outputList.length ≤ 1
  safe : ∀ e, w.Enabled e → ∃ w', w.exec e = .ok w'
  inOrder : w.written <+: w.served.map Prod.snd
  exclusive : w.overlapped = false
  released : w.completed = true → w.handler.inputList = [] ∧ w.handler.outputList = [] ∧
    w.handler.activeResponse = none ∧ httpHandlerFree w.handler = .ok ()

theorem HandlerWorld.At.orderly {w : HandlerWorld} {reading writing completed : Bool}
    {posted : List HandlerPost} {out : List HttpMessage} {active : Option HttpMessage}
    (h : w.At reading writing completed posted out active) (hphase : w.Phase)
    (htoken : completed = false → reading.toNat+posted.count .postableWriteStart+writing.toNat+
      posted.count .handlerPostableReadStart = 1) (hout : out.length ≤ 1)
    (hfree : completed = true → out = [] ∧ active = none) : w.Orderly where
  token := by
    rw [HandlerWorld.tokens, h.reading, h.writing, h.posted, h.completed]
    exact htoken
  output := by
    rw [h.handler]
    exact hout
  safe := fun e he => (hphase.step e he).imp fun _ h => h.1
  inOrder := ⟨out, h.served.symm⟩
  exclusive := h.overlapped
  released := by
    rw [h.completed, h.handler]
    intro hc
    obtain ⟨rfl, rfl⟩ := hfree hc
    exact ⟨rfl, rfl, rfl, rfl⟩

/-- Every run of a handler, from `http_handler_init` on, is orderly in all its states. -/
theorem handler_orderly (es : List HandlerEvent) (w : HandlerWorld)
    (h : handlerMachine.Run .init es w) : w.Orderly := by
  have hphase := run_phase h
  cases id hphase with
  | reading h => exact h.orderly hphase (by decide) (by simp) (by simp)
  | writeStartPosted r h => exact h.orderly hphase (by decide) (by simp) (by simp)
  | writing r h => exact h.orderly hphase (by decide) (by simp) (by simp)
  | readStartPosted h => exact h.orderly hphase (by decide) (by simp) (by simp)
  | completed h => exact h.orderly hphase (by decide) (by simp) (by simp)

/-- One request, its response, and the end of the connection. -/
def oneRequest (m : HttpMessage) : List HandlerEvent :=
  [.message m m, .runPosted, .writeDone 0, .runPosted, .readError (-1)]

theorem handler_orderly_oneRequest :
    ∃ w, handlerMachine.Run .init (oneRequest (httpMessageNew ⟨false, 0, .get⟩)) w ∧
      w.completed = true ∧ w.Orderly := by
  obtain ⟨w1, hx1, h1⟩ := exec_message .init ⟨rfl, rfl, rfl, rfl, rfl, rfl, rfl⟩
    (httpMessageNew ⟨false, 0, .get⟩) (httpMessageNew ⟨false, 0, .get⟩)
  obtain ⟨w2, hx2, h2⟩ := exec_writeStart w1 _ h1
  obtain ⟨w3, hx3, h3⟩ := exec_writeDone w2 _ h2 0
  obtain ⟨w4, hx4, h4⟩ := exec_readStart w3 h3
  obtain ⟨w5, hx5, h5⟩ := exec_readError w4 h4 (-1) (by decide)
  have hrun : handlerMachine.Run .init (oneRequest (httpMessageNew ⟨false, 0, .get⟩)) w5 :=
    .cons rfl hx1 (.cons (by simp [handlerMachine, HandlerWorld.Enabled, h1.posted]) hx2
      (.cons h2.writing hx3 (.cons (by simp [handlerMachine, HandlerWorld.Enabled, h3.posted]) hx4
        (.cons ⟨h4.reading, by decide⟩ hx5 (.nil w5)))))
  exact ⟨w5, hrun, h5.completed, handler_orderly _ w5 hrun⟩

end CHttp
