import CHttp.HttpParserRequests
import CHttp.MessageObjects
import CHttp.Runs

/-! The objects in use while a connection serves requests, from `message_begin_cb` to
`on_write_complete_cb`. What the callbacks of the parser do to the contents of a message is
`parserCallback`; here they also allocate and free. -/
namespace CHttp

open Objects

/-- The objects that one connection, its parser and its handler own. A list holds its nodes
together with what they point to; a response is kept with its contents. -/
structure RequestWorld where
  heap : LibraryHeap
  parser : HttpMessageParser
  current : Option MessageObjects
  inputMessageList : List (LibraryObject × MessageObjects)
  outputList : List (LibraryObject × MessageObjects × HttpMessage)
  activeResponse : Option MessageObjects
  activeOutputBuffer : Option LibraryObject

/-- The number of segments in the body of the current message. -/
def HttpMessageParser.bodySegments (p : HttpMessageParser) : ℕ :=
  ((p.currentMessage.bind HttpMessage.body).map fun chain => chain.mChain.length).getD 0

/-- The step both header callbacks share, if there is a pending pair. -/
def Objects.commitHeader (h : LibraryHeap) (m : MessageObjects) (pending : Bool) :
    LibraryHeap × MessageObjects :=
  if pending then httpMessageAddHeader h m else (h, m)

/-- `body_data_cb`, where `BufferChain_append` adds `n` segments. -/
def Objects.bodyData (h : LibraryHeap) (m : MessageObjects) (n : ℕ) :
    LibraryHeap × MessageObjects :=
  match m.body with
  | none =>
    let (h, c) := Objects.bufferChainNew h
    let (h, c) := addSegments h c n
    (h, { m with body := some c })
  | some c =>
    let (h, c) := addSegments h c n
    (h, { m with body := some c })

/-- What a callback between the first and the last does to the objects of the current message,
when it takes the parser from `before` to `after`. -/
def innerCallback (before after : HttpMessageParser) (h : LibraryHeap) (m : MessageObjects) :
    Callback → LibraryHeap × MessageObjects
  | .headerField _ =>
    Objects.commitHeader h m (before.mHeaderState ≠ .field ∧ cbufferSize before.mNameBuf ≠ 0)
  | .headersComplete _ _ _ => Objects.commitHeader h m (cbufferSize before.mNameBuf ≠ 0)
  | .body _ => bodyData h m (after.bodySegments-before.bodySegments)
  | _ => (h, m)

namespace RequestWorld

/-- A callback of the parser; `message_complete_cb` goes on into
`on_parser_new_message_complete`. -/
def callback (mem : ℕ → MessageMem) (w : RequestWorld) (c : Callback) : Res RequestWorld := do
  let parser ← parserCallback cbufferAppend mem w.parser c
  match c, w.current with
  | .messageBegin, none =>
    let (h, m) := Objects.httpMessageNew w.heap
    .ok { w with heap := h, parser := parser, current := some m }
  | .messageBegin, some m => do
    let h ← httpMessageFree w.heap m
    let (h, m) := Objects.httpMessageNew h
    .ok { w with heap := h, parser := parser, current := some m }
  | .messageComplete, none => .error .nullPointer
  | .messageComplete, some tmp =>
    let (h, m) := Objects.httpMessageNew w.heap
    let (node, h) := h.alloc .node
    .ok { w with
      heap := h, parser := parser, current := some m
      inputMessageList := w.inputMessageList ++ [(node, tmp)] }
  | _, none => .ok { w with parser := parser }
  | c, some m =>
    let (h, m) := innerCallback w.parser parser w.heap m c
    .ok { w with heap := h, parser := parser, current := some m }

/-- `read_have_data_cb` takes the first message out of the input list. -/
def readMessage (w : RequestWorld) : Res (MessageObjects × RequestWorld) :=
  match w.inputMessageList with
  | [] => .error .nullPointer
  | (node, request) :: rest => do
    let h ← w.heap.free .outOfBounds node
    .ok (request, { w with heap := h, inputMessageList := rest })

/-- A `request_handler` that makes `response` of a new message: it adds the headers, and gives
it a body chain or none. -/
def requestHandler (h : LibraryHeap) (m : MessageObjects) (response : HttpMessage) :
    LibraryHeap × MessageObjects :=
  let (h, pairs) := addEntries h .pair m.pairs response.headers.length
  let m := { m with pairs := pairs }
  match response.body with
  | none => (h, m)
  | some body =>
    let (h, c) := Objects.bufferChainNew h
    let (h, c) := addSegments h c body.mChain.length
    (h, { m with body := some c })

def onNewMessageHandler (w : RequestWorld) (request : MessageObjects) (response : HttpMessage) :
    Res RequestWorld := do
  let (h, m) := Objects.httpMessageNew w.heap
  let (h, m) := requestHandler h m response
  let h ← httpMessageFree h request
  let (node, h) := h.alloc .node
  cAssert (decide (¬(w.outputList ++ [(node, m, response)]).length > 1)) "false"
  .ok { w with heap := h, outputList := w.outputList ++ [(node, m, response)] }

/-- `postable_write_start` and `http_connection_write`. -/
def postableWriteStart (w : RequestWorld) : Res RequestWorld :=
  match w.activeResponse, w.outputList with
  | some _, _ => .ok w
  | none, [] => .ok w
  | none, (node, m, response) :: rest => do
    let h ← w.heap.free .outOfBounds node
    let (h, result) ← Objects.httpMessageSerialize h response
    .ok { w with
      heap := h, outputList := rest, activeResponse := some m, activeOutputBuffer := some result }

/-- `writer_cb` when all of the output buffer has been written. -/
def writerCb (w : RequestWorld) : Res RequestWorld :=
  match w.activeOutputBuffer with
  | none => .error .nullPointer
  | some iob => do
    let h ← w.heap.free .outOfBounds iob
    .ok { w with heap := h, activeOutputBuffer := none }

def onWriteCompleteCb (w : RequestWorld) : Res RequestWorld :=
  match w.activeResponse with
  | none => .error .nullPointer
  | some m => do
    let h ← httpMessageFree w.heap m
    .ok { w with heap := h, activeResponse := none }

end RequestWorld

/-- One request: what `llhttp` reports between the begin and the end of the message, and the
response that the handler makes. -/
structure RequestCycle where
  callbacks : List Callback
  response : HttpMessage
  inner : ∀ c ∈ callbacks, c ≠ .messageBegin ∧ c ≠ .messageComplete

namespace RequestCycle

def allCallbacks (e : RequestCycle) : List Callback :=
  .messageBegin :: (e.callbacks ++ [.messageComplete])

/-- The callbacks go through, and the response can be serialised. -/
def Completes (mem : ℕ → MessageMem) (p : HttpMessageParser) (e : RequestCycle) : Prop :=
  (∃ q, runCallbacks cbufferAppend mem p e.allCallbacks = .ok q) ∧
    ∃ iob, CHttp.httpMessageSerialize e.response = .ok iob

/-- The parser after the request. -/
def next (mem : ℕ → MessageMem) (p : HttpMessageParser) (e : RequestCycle) : HttpMessageParser :=
  match runCallbacks cbufferAppend mem p e.allCallbacks with
  | .ok q => q
  | .error _ => p

/-- Neither the request nor the response has a body. -/
def Bodiless (e : RequestCycle) : Prop :=
  (∀ text, .body text ∉ e.callbacks) ∧ e.response.body = none

end RequestCycle

namespace RequestWorld

def exec (mem : ℕ → MessageMem) (w : RequestWorld) (e : RequestCycle) : Res RequestWorld := do
  let w ← e.allCallbacks.foldlM (callback mem) w
  let (request, w) ← w.readMessage
  let w ← w.onNewMessageHandler request e.response
  let w ← w.postableWriteStart
  let w ← w.writerCb
  w.onWriteCompleteCb

def currentObjects (w : RequestWorld) : Multiset LibraryObject :=
  (w.current.map MessageObjects.objects).getD 0

/-- The objects in use are `rest` and the current message, which is empty. -/
structure Balanced (rest : Multiset LibraryObject) (w : RequestWorld) : Prop where
  live : w.heap.Holds (rest+w.currentObjects)
  empty : ∀ m ∈ w.current, m.pairs = [] ∧ m.body = none

/-- No request is being served. -/
structure Idle (rest : Multiset LibraryObject) (w : RequestWorld) : Prop
    extends w.Balanced rest where
  input : w.inputMessageList = []
  output : w.outputList = []
  response : w.activeResponse = none
  buffer : w.activeOutputBuffer = none

end RequestWorld

def requestMachine (mem : ℕ → MessageMem) : Machine RequestWorld RequestCycle Fault where
  enabled := fun _ _ => True
  exec := RequestWorld.exec mem

namespace Objects

variable {h : LibraryHeap} {m : MessageObjects} {s : Multiset LibraryObject}

theorem commitHeader_holds (hs : h.Holds (s+m.objects)) (pending : Bool) :
    (Objects.commitHeader h m pending).1.Holds
      (s+(Objects.commitHeader h m pending).2.objects) ∧
      (Objects.commitHeader h m pending).2.body = m.body := by
  cases pending with
  | true => exact ⟨addPairs_holds hs 1, rfl⟩
  | false => exact ⟨hs, rfl⟩

theorem newBody_holds (hm : m.body = none) (hs : h.Holds (s+m.objects)) (n : ℕ) :
    (addSegments (Objects.bufferChainNew h).1 (Objects.bufferChainNew h).2 n).1.Holds
      (s+{ m with body := some (addSegments (Objects.bufferChainNew h).1
        (Objects.bufferChainNew h).2 n).2 }.objects) := by
  have hfreed : s+m.objects = s+↑m.freed := by
    rw [MessageObjects.objects, MessageObjects.bodyObjects, hm]
    exact congrArg (s+·) (zero_add _)
  exact bodyObjects_holds (addSegments_holds (Objects.bufferChainNew_holds (hs.congr hfreed)) n)

theorem bodyData_holds (hs : h.Holds (s+m.objects)) (n : ℕ) :
    (bodyData h m n).1.Holds (s+(bodyData h m n).2.objects) ∧ (bodyData h m n).2.body ≠ none := by
  unfold bodyData
  split
  · next hm => exact ⟨newBody_holds hm hs n, Option.some_ne_none _⟩
  · next c hm =>
    have hbody : m.objects = ↑c.objects+↑m.freed := by
      rw [MessageObjects.objects, MessageObjects.bodyObjects, hm]
      rfl
    have hsum : s+m.objects = s+↑m.freed+↑c.objects := by
      rw [hbody]
      abel
    exact ⟨bodyObjects_holds (addSegments_holds (hs.congr hsum) n), Option.some_ne_none _⟩

/-- Every callback inside a message keeps its account, and only one for the body gives it a
body. -/
theorem innerCallback_holds (before after : HttpMessageParser) (hs : h.Holds (s+m.objects))
    (c : Callback) :
    (innerCallback before after h m c).1.Holds (s+(innerCallback before after h m c).2.objects) ∧
      ((innerCallback before after h m c).2.body = none ↔
        m.body = none ∧ ∀ text, c ≠ .body text) := by
  have hother {x : LibraryHeap × MessageObjects} (hx : x.1.Holds (s+x.2.objects) ∧
      x.2.body = m.body) (hc : ∀ text, c ≠ .body text) :
      x.1.Holds (s+x.2.objects) ∧ (x.2.body = none ↔ m.body = none ∧ ∀ text, c ≠ .body text) := by
    refine ⟨hx.1, ?_⟩
    rw [hx.2]
    exact (and_iff_left hc).symm
  cases c with
  | headerField text => exact hother (commitHeader_holds hs _) fun _ => Callback.noConfusion
  | headersComplete major minor method =>
    exact hother (commitHeader_holds hs _) fun _ => Callback.noConfusion
  | body text =>
    obtain ⟨hh, hbody⟩ := bodyData_holds hs (after.bodySegments-before.bodySegments)
    exact ⟨hh, iff_of_false hbody fun hnone => hnone.2 text rfl⟩
  | messageBegin => exact hother ⟨hs, rfl⟩ fun _ => Callback.noConfusion
  | url text => exact hother ⟨hs, rfl⟩ fun _ => Callback.noConfusion
  | status code text => exact hother ⟨hs, rfl⟩ fun _ => Callback.noConfusion
  | headerValue text => exact hother ⟨hs, rfl⟩ fun _ => Callback.noConfusion
  | messageComplete => exact hother ⟨hs, rfl⟩ fun _ => Callback.noConfusion

end Objects

namespace RequestWorld

variable {mem : ℕ → MessageMem} {w : RequestWorld} {s : Multiset LibraryObject}

theorem callback_inner {m : MessageObjects} (hm : w.current = some m)
    (hs : w.heap.Holds (s+m.objects)) {c : Callback}
    (hc : c ≠ .messageBegin ∧ c ≠ .messageComplete) {q : HttpMessageParser}
    (hq : parserCallback cbufferAppend mem w.parser c = .ok q) :
    ∃ h' m', w.callback mem c = .ok { w with heap := h', parser := q, current := some m' } ∧
      h'.Holds (s+m'.objects) ∧ (m'.body = none ↔ m.body = none ∧ ∀ text, c ≠ .body text) := by
  refine ⟨_, _, ?_, innerCallback_holds w.parser q hs c⟩
  rw [callback, hq, ok_bind]
  cases c with
  | messageBegin => exact absurd rfl hc.1
  | messageComplete => exact absurd rfl hc.2
  | _ => rw [hm]

theorem callbacks_inner {cs : List Callback} {m : MessageObjects} (hm : w.current = some m)
    (hs : w.heap.Holds (s+m.objects)) (hcs : ∀ c ∈ cs, c ≠ .messageBegin ∧ c ≠ .messageComplete)
    {q : HttpMessageParser} (hq : runCallbacks cbufferAppend mem w.parser cs = .ok q) :
    ∃ h' m', cs.foldlM (callback mem) w =
        .ok { w with heap := h', parser := q, current := some m' } ∧
      h'.Holds (s+m'.objects) ∧
      (m'.body = none ↔ m.body = none ∧ ∀ text, .body text ∉ cs) := by
  induction cs generalizing w m with
  | nil =>
    obtain rfl := Except.ok.inj hq
    refine ⟨w.heap, m, ?_, hs, ?_⟩
    · rw [← hm]
      rfl
    · exact (and_iff_left fun _ => List.not_mem_nil).symm
  | cons c cs ih =>
    obtain ⟨hc, hrest⟩ := List.forall_mem_cons.mp hcs
    rw [runCallbacks, List.foldlM_cons, bind_eq_ok] at hq
    obtain ⟨p, hp, hq⟩ := hq
    obtain ⟨h1, m1, hx, hs1, hbody1⟩ := callback_inner hm hs hc hp
    obtain ⟨h2, m2, hfold, hs2, hbody2⟩ := ih
      (w := { w with heap := h1, parser := p, current := some m1 }) rfl hs1 hrest hq
    refine ⟨h2, m2, ?_, hs2, ?_⟩
    · rw [List.foldlM_cons, hx, ok_bind, hfold]
    · rw [hbody2, hbody1, and_assoc, ← forall_and]
      simp only [List.mem_cons, not_or, ne_comm]

/-- `message_begin_cb` replaces the empty message. -/
theorem callback_begin (mem : ℕ → MessageMem) (h : w.Balanced s) :
    ∃ h' m, w.callback mem .messageBegin =
        .ok { w with heap := h', parser := messageBeginCb mem w.parser, current := some m } ∧
      h'.Holds (s+m.objects) ∧ m.body = none := by
  have hlive := h.live
  rw [currentObjects] at hlive
  cases hcurrent : w.current with
  | none =>
    rw [hcurrent] at hlive
    obtain ⟨hs, -, hbody⟩ := httpMessageNew_holds (hlive.congr (add_zero s))
    refine ⟨_, _, ?_, hs, hbody⟩
    rw [callback, parserCallback, ok_bind, hcurrent]
  | some m =>
    rw [hcurrent] at hlive
    obtain ⟨h1, hfree, hs1⟩ := httpMessageFree_holds hlive
    rw [m.bodyObjects_eq_zero.mpr (h.empty m hcurrent).2, add_zero] at hs1
    obtain ⟨hs, -, hbody⟩ := httpMessageNew_holds hs1
    refine ⟨_, _, ?_, hs, hbody⟩
    rw [callback, parserCallback, ok_bind, hcurrent]
    show (httpMessageFree w.heap m >>= _) = _
    rw [hfree, ok_bind]

/-- `message_complete_cb` hands the message over and starts an empty one. -/
theorem callback_complete {m : MessageObjects} (hm : w.current = some m)
    (hs : w.heap.Holds (s+m.objects)) {q : HttpMessageParser}
    (hq : parserCallback cbufferAppend mem w.parser .messageComplete = .ok q) :
    ∃ h' m' node, w.callback mem .messageComplete = .ok { w with
        heap := h', parser := q, current := some m'
        inputMessageList := w.inputMessageList ++ [(node, m)] } ∧
      h'.Holds (s+m.objects+m'.objects+{node}) ∧ m'.pairs = [] ∧ m'.body = none := by
  obtain ⟨hs', hempty⟩ := httpMessageNew_holds hs
  refine ⟨_, _, _, ?_, hs'.alloc .node, hempty⟩
  rw [callback, hq, ok_bind, hm]

/-- `read_have_data_cb` frees the node of the message. -/
theorem readMessage_holds {node : LibraryObject} {request : MessageObjects}
    (hs : w.heap.Holds (s+{node})) (hinput : w.inputMessageList = [(node, request)]) :
    ∃ h', w.readMessage = .ok (request, { w with heap := h', inputMessageList := [] }) ∧
      h'.Holds s := by
  obtain ⟨h', hfree, hs'⟩ := hs.free Fault.outOfBounds
  refine ⟨h', ?_, hs'⟩
  rw [readMessage, hinput]
  dsimp only
  rw [hfree, ok_bind]

theorem requestHandler_holds {h : LibraryHeap} {m : MessageObjects} (hs : h.Holds (s+m.objects))
    (hm : m.body = none) (response : HttpMessage) :
    (requestHandler h m response).1.Holds (s+(requestHandler h m response).2.objects) ∧
      ((requestHandler h m response).2.body = none ↔ response.body = none) := by
  have hpairs := addPairs_holds hs response.headers.length
  cases hbody : response.body with
  | none =>
    simp only [requestHandler, hbody]
    exact ⟨hpairs, iff_of_true hm trivial⟩
  | some body =>
    simp only [requestHandler, hbody]
    have hnone : { m with
        pairs := (addEntries h .pair m.pairs response.headers.length).2 }.body = none := hm
    exact ⟨newBody_holds hnone hpairs body.mChain.length,
      iff_of_false (Option.some_ne_none _) (Option.some_ne_none _)⟩

/-- `on_new_message_handler` frees the request but for its body, and queues the response. -/
theorem onNewMessageHandler_holds {request : MessageObjects}
    (hs : w.heap.Holds (s+request.objects)) (hout : w.outputList = []) (response : HttpMessage) :
    ∃ h' m node, w.onNewMessageHandler request response =
        .ok { w with heap := h', outputList := [(node, m, response)] } ∧
      h'.Holds (s+↑request.bodyObjects+m.objects+{node}) ∧
      (m.body = none ↔ response.body = none) := by
  obtain ⟨hnew, -, hbody⟩ := httpMessageNew_holds hs
  obtain ⟨hfill, hiff⟩ := requestHandler_holds hnew hbody response
  obtain ⟨h', hfree, hs'⟩ := httpMessageFree_holds (hfill.congr (add_right_comm s _ _))
  refine ⟨_, _, _, ?_, (hs'.congr (add_right_comm s _ _)).alloc .node, hiff⟩
  unfold onNewMessageHandler
  dsimp only
  rw [hfree, ok_bind, hout]
  rfl

/-- `postable_write_start` serialises the queued response. -/
theorem postableWriteStart_holds {node : LibraryObject} {m : MessageObjects}
    {response : HttpMessage} (hs : w.heap.Holds (s+{node})) (hactive : w.activeResponse = none)
    (hout : w.outputList = [(node, m, response)]) {iob : IOBuffer}
    (hser : CHttp.httpMessageSerialize response = .ok iob) :
    ∃ h' result, w.postableWriteStart = .ok { w with
        heap := h', outputList := [], activeResponse := some m
        activeOutputBuffer := some result } ∧
      h'.Holds (s+{result}) := by
  obtain ⟨h1, hfree, hs1⟩ := hs.free Fault.outOfBounds
  obtain ⟨h2, result, hx, hs2⟩ := Objects.httpMessageSerialize_holds hs1 hser
  refine ⟨h2, result, ?_, hs2⟩
  rw [postableWriteStart, hactive, hout]
  dsimp only
  rw [hfree, ok_bind, hx, ok_bind]

theorem writerCb_holds {iob : LibraryObject} (hs : w.heap.Holds (s+{iob}))
    (hbuffer : w.activeOutputBuffer = some iob) :
    ∃ h', w.writerCb = .ok { w with heap := h', activeOutputBuffer := none } ∧ h'.Holds s := by
  obtain ⟨h', hfree, hs'⟩ := hs.free Fault.outOfBounds
  refine ⟨h', ?_, hs'⟩
  rw [writerCb, hbuffer]
  dsimp only
  rw [hfree, ok_bind]

/-- `on_write_complete_cb` frees the response but for its body. -/
theorem onWriteCompleteCb_holds {m : MessageObjects} (hs : w.heap.Holds (s+m.objects))
    (hactive : w.activeResponse = some m) :
    ∃ h', w.onWriteCompleteCb = .ok { w with heap := h', activeResponse := none } ∧
      h'.Holds (s+↑m.bodyObjects) := by
  obtain ⟨h', hfree, hs'⟩ := httpMessageFree_holds hs
  refine ⟨h', ?_, hs'⟩
  rw [onWriteCompleteCb, hactive]
  dsimp only
  rw [hfree, ok_bind]

/-- All callbacks of a request: its message waits in the input list. -/
theorem callbacks_holds (h : w.Balanced s) (hinput : w.inputMessageList = []) {e : RequestCycle}
    {q : HttpMessageParser} (hq : runCallbacks cbufferAppend mem w.parser e.allCallbacks = .ok q) :
    ∃ h' request m node, e.allCallbacks.foldlM (callback mem) w = .ok { w with
        heap := h', parser := q, current := some m, inputMessageList := [(node, request)] } ∧
      h'.Holds (s+request.objects+m.objects+{node}) ∧ (m.pairs = [] ∧ m.body = none) ∧
      (request.body = none ↔ ∀ text, .body text ∉ e.callbacks) := by
  have hsplit : (runCallbacks cbufferAppend mem (messageBeginCb mem w.parser) e.callbacks >>= fun p =>
      runCallbacks cbufferAppend mem p [.messageComplete]) = .ok q := by
    rw [← runCallbacks_append]
    exact hq
  obtain ⟨p, hp, hlast⟩ := (bind_eq_ok _ _ _).mp hsplit
  rw [runCallbacks_cons, bind_eq_ok] at hlast
  obtain ⟨q', hcomplete, hlast⟩ := hlast
  obtain rfl := Except.ok.inj hlast
  obtain ⟨h1, m1, hx1, hs1, hbody1⟩ := callback_begin mem h
  obtain ⟨h2, m2, hx2, hs2, hbody2⟩ := callbacks_inner
    (w := { w with heap := h1, parser := messageBeginCb mem w.parser, current := some m1 })
    rfl hs1 e.inner hp
  obtain ⟨h3, m3, node, hx3, hs3, hempty⟩ := callback_complete
    (w := { w with heap := h2, parser := p, current := some m2 }) rfl hs2 hcomplete
  refine ⟨h3, m2, m3, node, ?_, hs3, hempty, ?_⟩
  · rw [RequestCycle.allCallbacks, List.foldlM_cons, hx1, ok_bind, List.foldlM_append, hx2, ok_bind,
      List.foldlM_cons, hx3, ok_bind]
    show Except.ok _ = _
    rw [hinput]
    rfl
  · rw [hbody2]
    exact and_iff_right hbody1

/-- A request leaves behind the chains of its two bodies, and nothing else. -/
theorem exec_holds {rest : Multiset LibraryObject} (h : w.Idle rest) {e : RequestCycle}
    (he : e.Completes mem w.parser) :
    ∃ t lost, w.exec mem e = .ok t ∧ t.Idle (rest+lost) ∧ t.parser = e.next mem w.parser ∧
      (lost = 0 ↔ e.Bodiless) := by
  obtain ⟨⟨q, hq⟩, iob, hser⟩ := he
  obtain ⟨h1, request, m, node, hx1, hs1, hempty, hrequest⟩ :=
    callbacks_holds h.toBalanced h.input hq
  let w1 : RequestWorld := { w with
    heap := h1, parser := q, current := some m, inputMessageList := [(node, request)] }
  obtain ⟨h2, hx2, hs2⟩ := readMessage_holds (w := w1) hs1 rfl
  let w2 : RequestWorld := { w1 with heap := h2, inputMessageList := [] }
  obtain ⟨h3, response, node', hx3, hs3, hresponse⟩ := onNewMessageHandler_holds (w := w2)
    (hs2.congr (add_right_comm rest _ _)) h.output e.response
  let w3 : RequestWorld := { w2 with
    heap := h3, outputList := [(node', response, e.response)] }
  obtain ⟨h4, result, hx4, hs4⟩ := postableWriteStart_holds (w := w3) hs3 h.response rfl hser
  let w4 : RequestWorld := { w3 with
    heap := h4, outputList := [], activeResponse := some response
    activeOutputBuffer := some result }
  obtain ⟨h5, hx5, hs5⟩ := writerCb_holds (w := w4) hs4 rfl
  let w5 : RequestWorld := { w4 with heap := h5, activeOutputBuffer := none }
  obtain ⟨h6, hx6, hs6⟩ := onWriteCompleteCb_holds (w := w5) hs5 rfl
  let t : RequestWorld := { w5 with heap := h6, activeResponse := none }
  refine ⟨t, ↑request.bodyObjects+↑response.bodyObjects, ?_,
    ⟨⟨hs6.congr ?_, ?_⟩, rfl, rfl, rfl, rfl⟩, ?_, ?_⟩
  · rw [exec, hx1, ok_bind, hx2, ok_bind]
    dsimp only
    rw [hx3, ok_bind, hx4, ok_bind, hx5, ok_bind, hx6]
  · show rest+m.objects+_+_ = rest+(_+_)+m.objects
    abel
  · intro m' hm'
    obtain rfl := Option.some.inj hm'
    exact hempty
  · rw [RequestCycle.next, hq]
  · rw [add_eq_zero, MessageObjects.bodyObjects_eq_zero, MessageObjects.bodyObjects_eq_zero,
      hrequest, hresponse]
    rfl

end RequestWorld

/-- However many requests a connection serves: after each of them the objects in use are those
from before and the parser's empty message, exactly if no request and no response has a body. -/
theorem request_cycles_balanced_iff (mem : ℕ → MessageMem) (rest : Multiset LibraryObject)
    (w : RequestWorld) (h : w.Idle rest) (es : List RequestCycle)
    (hes : Machine.Admits (RequestCycle.next mem) (RequestCycle.Completes mem) w.parser es) :
    (requestMachine mem).Performs (RequestWorld.Balanced rest) w es ↔ ∀ e ∈ es, e.Bodiless := by
  refine Machine.performs_iff_forall (J := RequestWorld.Idle rest) RequestWorld.parser
    (fun w hw => hw.toBalanced) ?_ ?_ w es h hes
  · intro w e hw he hbodiless
    obtain ⟨t, lost, hx, ht, hparser, hlost⟩ := RequestWorld.exec_holds hw he
    rw [hlost.mpr hbodiless, add_zero] at ht
    exact ⟨trivial, t, hx, ht, hparser⟩
  · intro w e t hw he hbody hx hbalanced
    obtain ⟨t', lost, hx', ht', -, hlost⟩ := RequestWorld.exec_holds hw he
    obtain rfl := Except.ok.inj (hx.symm.trans hx')
    have hsum : rest+t.currentObjects = rest+lost+t.currentObjects :=
      hbalanced.live.symm.trans ht'.live
    rw [add_right_comm, left_eq_add] at hsum
    exact hbody (hlost.mp hsum)

/-- A connection that has served nothing, with no other object in use. -/
def RequestWorld.fresh : RequestWorld := ⟨.empty, httpMessageParserNew, none, [], [], none, none⟩

/-- A response without headers and body. -/
def bareResponse : HttpMessage :=
  { CHttp.httpMessageNew ⟨false, 200, .get⟩ with reason := cbufferClear cbufferNew }

def getCallbacks : List Callback :=
  [.url (ascii "/"), .headerField (ascii "Host"), .headerValue (ascii "a"),
    .headersComplete 1 1 .get]

theorem getCallbacks_inner : ∀ c ∈ getCallbacks, c ≠ .messageBegin ∧ c ≠ .messageComplete := by
  decide

def getCycle : RequestCycle := ⟨getCallbacks, bareResponse, getCallbacks_inner⟩

theorem getCycle_completes {mem : ℕ → MessageMem} {p : HttpMessageParser}
    (h : (runCallbacks cbufferAppend mem p getCycle.allCallbacks).isOk = true) : getCycle.Completes mem p := by
  obtain ⟨iob, c, hser, -⟩ := httpMessageSerialize_holds bareResponse [] rfl bufferChainNew_holds
    (by decide)
  refine ⟨?_, iob, hser⟩
  cases hrun : runCallbacks cbufferAppend mem p getCycle.allCallbacks with
  | error e =>
    rw [hrun] at h
    cases h
  | ok q => exact ⟨q, rfl⟩

/-- Two requests with a header and without a body. -/
theorem request_cycles_balanced_two :
    (requestMachine fun _ => ⟨false, 0, .get⟩).Performs (RequestWorld.Balanced 0) .fresh
      [getCycle, getCycle] := by
  have hidle : RequestWorld.fresh.Idle 0 :=
    ⟨⟨rfl, fun m hm => absurd hm (Option.not_mem_none m)⟩, rfl, rfl, rfl, rfl⟩
  have hbodiless : getCycle.Bodiless := ⟨fun text => by simp [getCycle, getCallbacks], rfl⟩
  refine (request_cycles_balanced_iff _ 0 .fresh hidle _ ?_).mpr ?_
  · exact ⟨getCycle_completes (by decide +kernel), getCycle_completes (by decide +kernel), trivial⟩
  · simp only [List.forall_mem_cons]
    exact ⟨hbodiless, hbodiless, fun e he => absurd he List.not_mem_nil⟩

theorem postCallbacks_inner : ∀ c ∈ getCallbacks ++ [.body (ascii "x")],
    c ≠ .messageBegin ∧ c ≠ .messageComplete := by
  decide

/-- A request with one byte of body. Before it no object is in use, and after it eight: four for
the parser's new message, and the chain of the body, its list, one segment and one node. -/
theorem request_cycle_loses_body :
    RequestWorld.fresh.heap.live.card = 0 ∧
      (RequestWorld.fresh.exec (fun _ => ⟨false, 0, .get⟩)
        ⟨getCallbacks ++ [.body (ascii "x")], bareResponse, postCallbacks_inner⟩).map
          (fun t => (t.heap.live.card, t.currentObjects.card,
            (t.heap.live.filter fun o => o.kind = .chain).card)) = .ok (8, 4, 1) := by
  decide +kernel

end CHttp
