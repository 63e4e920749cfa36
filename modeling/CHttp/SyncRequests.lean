import CHttp.HttpSyncSocket
import CHttp.RoundTripRequest

/-! Requests from one `HttpSyncSocket` to another: `http_syncsocket_write_message` on the one
side, `http_syncsocket_read_message` on the other, and a stream between them that is read in
pieces of any size while further requests are written. -/
namespace CHttp

section sentences

variable {α : Type} {marks : α → Bool}

/-- A list that ends with its only marked element. -/
def Sentence (marks : α → Bool) (t : List α) : Prop :=
  ∃ body last, t = body ++ [last] ∧ marks last = true ∧ body.countP marks = 0

theorem Sentence.countP {t : List α} (h : Sentence marks t) : t.countP marks = 1 := by
  obtain ⟨body, last, rfl, hlast, hbody⟩ := h
  rw [List.countP_append, hbody, List.countP_singleton, if_pos hlast]

/-- The first part of a text made of sentences has as many marks as it has whole sentences. -/
theorem le_countP_iff_prefix {ts : List (List α)} (hts : ∀ t ∈ ts, Sentence marks t) {cs : List α}
    (hcs : cs <+: ts.flatten) {k : ℕ} (hk : k ≤ ts.length) :
    k ≤ cs.countP marks ↔ (ts.take k).flatten <+: cs := by
  induction ts generalizing cs k with
  | nil =>
    obtain rfl := Nat.le_zero.mp hk
    exact iff_of_true (Nat.zero_le _) List.nil_prefix
  | cons t ts ih =>
    cases k with
    | zero => exact iff_of_true (Nat.zero_le _) List.nil_prefix
    | succ k =>
      have ht := hts t List.mem_cons_self
      rw [List.flatten_cons] at hcs
      rw [List.take_succ_cons, List.flatten_cons]
      by_cases hwhole : t <+: cs
      · obtain ⟨cs, rfl⟩ := hwhole
        rw [List.prefix_append_right_inj] at hcs
        rw [List.countP_append, ht.countP, Nat.add_comm 1, Nat.add_le_add_iff_right,
          List.prefix_append_right_inj]
        exact ih (fun t ht => hts t (List.mem_cons_of_mem _ ht)) hcs (Nat.le_of_succ_le_succ hk)
      · have hpart : cs <+: t :=
          (List.prefix_or_prefix_of_prefix hcs (List.prefix_append t ts.flatten)).resolve_right hwhole
        obtain ⟨body, last, rfl, -, hbody⟩ := ht
        have hcs' : cs <+: body := by
          rcases List.prefix_concat_iff.mp hpart with rfl | hbody
          · exact absurd List.prefix_rfl hwhole
          · exact hbody
        have hzero : cs.countP marks = 0 :=
          Nat.le_zero.mp (hbody ▸ hcs'.sublist.countP_le)
        apply iff_of_false
        · rw [hzero]
          exact Nat.not_succ_le_zero k
        · intro hmore
          exact hwhole ((List.prefix_append _ _).trans hmore)

end sentences

section handled

variable {mem : ℕ → MessageMem}

theorem commitHeader_handled {p q : HttpMessageParser} (h : commitHeader p = .ok q) :
    q.handled = p.handled := by
  rw [commitHeader] at h
  split_ifs at h with hname
  · obtain ⟨m, -, h⟩ := (bind_eq_ok _ _ _).mp h
    obtain rfl := Except.ok.inj h
    rfl
  · obtain rfl := Except.ok.inj h
    rfl

theorem headerFieldDataCb_handled {p q : HttpMessageParser} {text : Bytes}
    (h : headerFieldDataCb cbufferAppend p text = .ok q) : q.handled = p.handled := by
  cases hstate : p.mHeaderState with
  | nothing | value =>
    simp only [headerFieldDataCb, hstate] at h
    obtain ⟨p', hcommit, h⟩ := (bind_eq_ok _ _ _).mp h
    obtain ⟨b, -, h⟩ := (bind_eq_ok _ _ _).mp h
    have hp' : p'.handled = p.handled := commitHeader_handled hcommit
    obtain rfl := Except.ok.inj h
    exact hp'
  | field =>
    simp only [headerFieldDataCb, hstate, ok_bind] at h
    obtain ⟨b, -, h⟩ := (bind_eq_ok _ _ _).mp h
    obtain rfl := Except.ok.inj h
    rfl

theorem headerValueDataCb_handled {p q : HttpMessageParser} {text : Bytes}
    (h : headerValueDataCb cbufferAppend p text = .ok q) : q.handled = p.handled := by
  rw [headerValueDataCb] at h
  split at h
  · obtain ⟨b, -, h⟩ := (bind_eq_ok _ _ _).mp h
    obtain rfl := Except.ok.inj h
    rfl
  · obtain ⟨b, -, h⟩ := (bind_eq_ok _ _ _).mp h
    obtain rfl := Except.ok.inj h
    rfl
  · cases h

theorem headersCompleteCb_handled {p q : HttpMessageParser} {major minor : ℕ} {method : LlhttpMethod}
    (h : headersCompleteCb cbufferAppend p major minor method = .ok q) : q.handled = p.handled := by
  obtain ⟨p', hcommit, h⟩ := (bind_eq_ok _ _ _).mp h
  obtain ⟨m, -, h⟩ := (bind_eq_ok _ _ _).mp h
  have hp' : p'.handled = p.handled := commitHeader_handled hcommit
  dsimp only at h
  split_ifs at h with hurl
  · obtain rfl := Except.ok.inj h
    exact hp'
  · obtain ⟨m', -, h⟩ := (bind_eq_ok _ _ _).mp h
    obtain rfl := Except.ok.inj h
    exact hp'

/-- One callback in all passes a message on. -/
def Callback.completes : Callback → Bool
  | .messageComplete => true
  | _ => false

theorem parserCallback_handled {p q : HttpMessageParser} {c : Callback}
    (h : parserCallback cbufferAppend mem p c = .ok q) :
    ∃ ds, q.handled = p.handled ++ ds ∧ ds.length = if c.completes then 1 else 0 := by
  have hsame (hq : q.handled = p.handled) : ∃ ds : List HttpMessage,
      q.handled = p.handled ++ ds ∧ ds.length = 0 := ⟨[], by rw [hq, List.append_nil], rfl⟩
  cases c with
  | messageBegin =>
    obtain rfl := Except.ok.inj h
    exact hsame rfl
  | url text =>
    obtain ⟨m, -, h⟩ := (bind_eq_ok _ _ _).mp h
    obtain ⟨b, -, h⟩ := (bind_eq_ok _ _ _).mp h
    obtain rfl := Except.ok.inj h
    exact hsame rfl
  | status code text =>
    obtain ⟨m, -, h⟩ := (bind_eq_ok _ _ _).mp h
    obtain ⟨b, -, h⟩ := (bind_eq_ok _ _ _).mp h
    obtain ⟨m', -, h⟩ := (bind_eq_ok _ _ _).mp h
    obtain rfl := Except.ok.inj h
    exact hsame rfl
  | headerField text => exact hsame (headerFieldDataCb_handled h)
  | headerValue text => exact hsame (headerValueDataCb_handled h)
  | headersComplete major minor method => exact hsame (headersCompleteCb_handled h)
  | body text =>
    obtain ⟨m, -, h⟩ := (bind_eq_ok _ _ _).mp h
    obtain ⟨chain, -, h⟩ := (bind_eq_ok _ _ _).mp h
    obtain rfl := Except.ok.inj h
    exact hsame rfl
  | messageComplete =>
    obtain ⟨m, -, h⟩ := (bind_eq_ok _ _ _).mp h
    obtain rfl := Except.ok.inj h
    exact ⟨[m], rfl, rfl⟩

/-- A run passes on one message for each callback that completes one, behind those before. -/
theorem runCallbacks_handled {cs : List Callback} {p q : HttpMessageParser}
    (h : runCallbacks cbufferAppend mem p cs = .ok q) :
    ∃ ds, q.handled = p.handled ++ ds ∧ ds.length = cs.countP Callback.completes := by
  induction cs generalizing p with
  | nil =>
    obtain rfl := Except.ok.inj h
    exact ⟨[], (List.append_nil _).symm, rfl⟩
  | cons c cs ih =>
    rw [runCallbacks_cons] at h
    obtain ⟨p', hc, h⟩ := (bind_eq_ok _ _ _).mp h
    obtain ⟨ds, hds, hlen⟩ := parserCallback_handled hc
    obtain ⟨ds', hds', hlen'⟩ := ih h
    refine ⟨ds ++ ds', by rw [hds', hds, List.append_assoc], ?_⟩
    rw [List.length_append, hlen, hlen', List.countP_cons, Nat.add_comm]

/-- The callbacks of a message complete it with the last one. -/
theorem MessageFrags.sentence (f : MessageFrags) : Sentence Callback.completes f.callbacks := by
  have hfields (fs : List FieldFrags) :
      (fs.flatMap FieldFrags.callbacks).countP Callback.completes = 0 := by
    rw [List.countP_eq_zero]
    intro c hc
    obtain ⟨g, -, hc⟩ := List.mem_flatMap.mp hc
    rcases List.mem_append.mp hc with hc | hc
    · obtain ⟨text, -, rfl⟩ := List.mem_map.mp hc
      exact Bool.false_ne_true
    · obtain ⟨text, -, rfl⟩ := List.mem_map.mp hc
      exact Bool.false_ne_true
  have hstart : f.start.callbacks.countP Callback.completes = 0 := by
    rw [List.countP_eq_zero]
    intro c hc
    cases hs : f.start with
    | request url =>
      rw [hs] at hc
      obtain ⟨text, -, rfl⟩ := List.mem_map.mp hc
      exact Bool.false_ne_true
    | response code reason =>
      rw [hs] at hc
      obtain ⟨text, -, rfl⟩ := List.mem_map.mp hc
      exact Bool.false_ne_true
  have hbody : (f.body.map Callback.body).countP Callback.completes = 0 := by
    rw [List.countP_eq_zero]
    intro c hc
    obtain ⟨text, -, rfl⟩ := List.mem_map.mp hc
    exact Bool.false_ne_true
  refine ⟨.messageBegin :: (f.start.callbacks ++ (f.headers.flatMap FieldFrags.callbacks ++
    (.headersComplete f.httpMajor f.httpMinor f.method :: (f.body.map .body ++
      f.trailers.flatMap FieldFrags.callbacks)))), .messageComplete, ?_, rfl, ?_⟩
  · simp only [MessageFrags.callbacks, List.cons_append, List.append_assoc]
  · simp only [List.countP_cons, List.countP_append, hfields, hstart, hbody, Callback.completes]
    rfl

end handled

/-- A request that can be written and read back: one of those for which a round trip is asked,
with a target, names and values below 512 bytes and a text whose length `int` can handle. -/
structure SentRequest where
  message : HttpMessage
  body : Bytes
  request : RequestMessage message body
  target : message.target.data.length < 512
  fits : ∀ kv ∈ message.headers, kv.label.length < 512 ∧ kv.value.length < 512
  size : message.headText.length+body.length+101 < 2^31

/-- The text of a request. -/
def SentRequest.wire (r : SentRequest) : Bytes := r.message.headText ++ r.body

/-- The text of one request after the other. -/
def wires (rs : List SentRequest) : Bytes := (rs.map SentRequest.wire).flatten

/-- `http_syncsocket_write_message`, up to its result, with what it gave to `write`. The
result after a whole text is whatever `errno` was before. -/
def httpSyncsocketWriteMessage (msgRef : HttpMessage) (bytesWritten errno : ℤ) :
    Res (ℤ × List Cell) := do
  let outbuf ← httpMessageSerialize msgRef
  let outData := iobufferData outbuf
  let outLen : ℤ := iobufferDataLen outbuf
  cAssert (outLen > 0) "out_len > 0"
  if bytesWritten ≠ outLen then
    if bytesWritten > 0 then .error (.assertion "0")
    else if bytesWritten = 0 then .ok (-1, outData)
    else .ok (errno, outData)
  else .ok (errno, outData)

/-- The parser of a socket: the blocks that `llhttp` was given, and what its callbacks have made
of the `HttpMessageParser`, or the fault that ended the program in one of them. -/
structure LlhttpState where
  chunks : List Bytes
  parser : Res HttpMessageParser

def LlhttpState.handled (s : LlhttpState) : List HttpMessage :=
  match s.parser with
  | .ok p => p.handled
  | .error _ => []

section world

variable (mem : ℕ → MessageMem) (llhttp : List Bytes → List Callback) (llerrno : List Bytes → ℤ)

/-- `llhttp_execute` on the next block: the callbacks for all blocks go on from those for the
blocks before. -/
def llhttpExecute (s : LlhttpState) (data : List Cell) : Execution LlhttpState HttpMessage :=
  let chunks := s.chunks ++ [data.reduceOption]
  let callbacks := (llhttp chunks).drop (llhttp s.chunks).length
  let next : LlhttpState := ⟨chunks, s.parser >>= fun p => runCallbacks cbufferAppend mem p callbacks⟩
  ⟨next, next.handled.drop s.handled.length, llerrno chunks⟩

/-- A socket that writes requests, the requests whose text it has sent, the bytes that are
under way, and the socket that reads. -/
structure SyncPair where
  sent : List SentRequest
  wire : Bytes
  peer : SyncWorld LlhttpState HttpMessage

/-- A call of `http_syncsocket_write_message`, with what `write` returns in it, or an event of
the other side. -/
inductive SyncPairEvent where
  | write (r : SentRequest) (bytesWritten errno : ℤ)
  | peer (e : SyncEvent)

/-- What is assumed of `llhttp` on `chunks`, a first part of the requests `sent`: it reports
these requests one after the other, as far as `chunks` go, and reports a request completely
exactly if `chunks` have all of it. -/
def ReadsRequests (sent : List SentRequest) (chunks : List Bytes) : Prop :=
  ∃ traces : List (List Callback),
    List.Forall₂ (fun r trace => ∀ t : RequestText, t.wire = r.wire → t.Reported trace) sent traces ∧
    llhttp chunks <+: traces.flatten ∧
    ∀ k ≤ sent.length, (traces.take k).flatten <+: llhttp chunks ↔
      wires (sent.take k) <+: chunks.flatten

namespace SyncPair

def chunks (w : SyncPair) : List Bytes := w.peer.clientRef.parserRef.chunks

/-- The socket takes all of a text or nothing. The other side reads what is under way, and
`llhttp` accepts it as requests. -/
def Enabled (w : SyncPair) : SyncPairEvent → Prop
  | .write r bytesWritten _ => bytesWritten = r.wire.length ∨ bytesWritten ≤ 0
  | .peer (.read (.data block)) => w.peer.Enabled (.read (.data block)) ∧ block <+: w.wire ∧
      llhttp w.chunks <+: llhttp (w.chunks ++ [block]) ∧ llerrno (w.chunks ++ [block]) = 0 ∧
      ReadsRequests llhttp w.sent (w.chunks ++ [block])
  | .peer e => w.peer.Enabled e

def exec (w : SyncPair) : SyncPairEvent → Res SyncPair
  | .write r bytesWritten errno => do
    let (_, outData) ← httpSyncsocketWriteMessage r.message bytesWritten errno
    .ok { w with
      sent := if 0 < bytesWritten then w.sent ++ [r] else w.sent
      wire := w.wire ++ outData.reduceOption.take bytesWritten.toNat }
  | .peer e => do
    let peer ← w.peer.exec (llhttpExecute mem llhttp llerrno) e
    match e with
    | .read (.data block) => .ok { w with peer := peer, wire := w.wire.drop block.length }
    | .call | .read (.nothing _) => .ok { w with peer := peer }

end SyncPair

end world

/-- Two lists that are related through a third. -/
theorem forall₂_through {α β γ : Type} {R : α → β → Prop} {S : β → γ → Prop} {T : α → γ → Prop}
    (h : ∀ a b c, R a b → S b c → T a c) {as : List α} {bs : List β} {cs : List γ}
    (hR : List.Forall₂ R as bs) (hS : List.Forall₂ S bs cs) : List.Forall₂ T as cs := by
  induction hR generalizing cs with
  | nil =>
    cases hS
    exact .nil
  | cons hab _ ih =>
    cases hS with
    | cons hbc hS => exact .cons (h _ _ _ hab hbc) (ih hS)

section reported

/-- What `llhttp` reports of a request is short, and delivered as the request. -/
theorem SentRequest.reported (r : SentRequest) {trace : List Callback}
    (h : ∀ t : RequestText, t.wire = r.wire → t.Reported trace) :
    ∃ f : MessageFrags, trace = f.callbacks ∧ (∃ url, f.ShortRequest blockRoom url) ∧
      ∀ junk d, f.Delivered junk d → SameRequest r.message d := by
  obtain ⟨t, hwire, -, hmethod, htarget, hheaders, hbody⟩ := r.request.exists_text
  obtain ⟨f, url, htrace, hstart, hurl, hfm, -, hfh, hfb, hft⟩ := h t hwire
  have hfits := r.fits
  rw [← hheaders] at hfits
  have hshort : f.ShortRequest blockRoom url := t.short f url hstart
    (by rw [hurl, htarget]; exact r.target) hfh hfits hft
  refine ⟨f, htrace, ⟨url, hshort⟩, ?_⟩
  intro junk d hdel
  have hdstart := hdel.start
  rw [hstart] at hdstart
  obtain ⟨hreq, hdm, hdt, -⟩ := hdstart
  refine ⟨hreq, by rw [hdm, hfm, hmethod], ?_, ?_, ?_⟩
  · rw [hdt, hurl, htarget]
    exact (cstr_eq_self_iff _).mpr fun hz => absurd (r.request.target 0 hz).1 (by decide)
  · rw [hdel.headers, hft, ← hheaders, ← hfh, List.map_map, List.map_nil, List.dropLast_nil,
      List.append_nil]
    rfl
  · rw [HttpMessage.bodyContent, HttpMessage.bodyContent, hdel.body.content,
      r.request.chain.content, hfb, hbody]

theorem reported_frags {sent : List SentRequest} {traces : List (List Callback)}
    (h : List.Forall₂ (fun r trace => ∀ t : RequestText, t.wire = r.wire → t.Reported trace)
      sent traces) :
    ∃ frags : List MessageFrags, traces = frags.map MessageFrags.callbacks ∧
      (∀ f ∈ frags, ∃ url, f.ShortRequest blockRoom url) ∧
      List.Forall₂ (fun r f => ∀ junk d, f.Delivered junk d → SameRequest r.message d) sent frags := by
  induction h with
  | nil => exact ⟨[], rfl, by simp, .nil⟩
  | @cons r trace sent traces hr _ ih =>
    obtain ⟨f, rfl, hshort, hsame⟩ := r.reported hr
    obtain ⟨frags, rfl, hshorts, hsames⟩ := ih
    refine ⟨f :: frags, rfl, ?_, .cons hsame hsames⟩
    exact List.forall_mem_cons.mpr ⟨hshort, hshorts⟩

/-- The messages `ds` are the first of the requests `sent`, those whose text is whole in
`chunks`. -/
structure Arrived (sent : List SentRequest) (chunks : List Bytes) (ds : List HttpMessage) : Prop where
  count : ds.length ≤ sent.length
  same : List.Forall₂ (fun r d => SameRequest r.message d) (sent.take ds.length) ds
  whole : ∀ k ≤ sent.length, k ≤ ds.length ↔ wires (sent.take k) <+: chunks.flatten

/-- On a first part of the requests the callbacks all return, and have passed on the requests
that the part has whole. -/
theorem ReadsRequests.run {llhttp : List Bytes → List Callback} {sent : List SentRequest}
    {chunks : List Bytes} (h : ReadsRequests llhttp sent chunks) (mem : ℕ → MessageMem) :
    ∃ q, runCallbacks cbufferAppend mem httpMessageParserNew (llhttp chunks) = .ok q ∧
      Arrived sent chunks q.handled := by
  obtain ⟨traces, hreported, ⟨rest, hrest⟩, hwhole⟩ := h
  obtain ⟨frags, rfl, hshorts, hsames⟩ := reported_frags hreported
  have hflat : (frags.map MessageFrags.callbacks).flatten = frags.flatMap MessageFrags.callbacks := rfl
  have hmessages := run_messages_okIff mem cbufferAppend_appends frags httpMessageParserNew
    (by decide)
  obtain ⟨qf, hrun⟩ := hmessages.iff.mpr (admits_of_short frags _ newCapacities_grown hshorts)
  obtain ⟨-, ds, hqf, hall⟩ := hmessages.result qf hrun
  rw [← hflat, ← hrest, runCallbacks_append] at hrun
  obtain ⟨q, hq, hrun⟩ := (bind_eq_ok _ _ _).mp hrun
  obtain ⟨ds₁, hds₁, hcount⟩ := runCallbacks_handled hq
  obtain ⟨ds₂, hds₂, -⟩ := runCallbacks_handled hrun
  have hhandled : q.handled = ds₁ := hds₁
  have hsplit : ds = ds₁ ++ ds₂ := by
    rw [← hhandled, ← hds₂, hqf]
    rfl
  have hsame : List.Forall₂ (fun r d => SameRequest r.message d) sent ds := by
    refine forall₂_through ?_ hsames hall
    rintro r f d hrf ⟨k, hdel⟩
    exact hrf (mem k) d hdel
  have hlength : sent.length = ds.length := hsame.length_eq
  refine ⟨q, hq, ?_, ?_, ?_⟩
  · rw [hhandled, hlength, hsplit, List.length_append]
    exact Nat.le_add_right _ _
  · have htake := List.forall₂_take ds₁.length hsame
    rw [hsplit, List.take_left] at htake
    rw [hhandled]
    exact htake
  · intro k hk
    have hsentences : ∀ t ∈ frags.map MessageFrags.callbacks, Sentence Callback.completes t := by
      intro t ht
      obtain ⟨f, -, rfl⟩ := List.mem_map.mp ht
      exact f.sentence
    have hfrags : k ≤ (frags.map MessageFrags.callbacks).length := by
      rw [List.length_map, ← hsames.length_eq]
      exact hk
    rw [hhandled, hcount, ← hwhole k hk]
    exact le_countP_iff_prefix hsentences ⟨rest, hrest⟩ hfrags

end reported

section steps

variable {mem : ℕ → MessageMem} {llhttp : List Bytes → List Callback} {llerrno : List Bytes → ℤ}

/-- What holds between two events: the parser of the reading side has gone through the blocks
it was given, and its messages are the requests that these have whole. -/
structure SyncPair.Carries (mem : ℕ → MessageMem) (llhttp : List Bytes → List Callback)
    (w : SyncPair) (q : HttpMessageParser) : Prop where
  known : w.peer.Known
  stream : w.chunks.flatten ++ w.wire = wires w.sent
  parser : w.peer.clientRef.parserRef.parser = .ok q
  run : runCallbacks cbufferAppend mem httpMessageParserNew (llhttp w.chunks) = .ok q
  completed : w.peer.completed = q.handled
  arrived : Arrived w.sent w.chunks q.handled

theorem SentRequest.serializes (r : SentRequest) :
    ∃ iob, httpMessageSerialize r.message = .ok iob ∧ iobufferData iob = r.wire.map some ∧
      iobufferDataLen iob = r.wire.length := by
  have hready : r.message.FirstLineReady := by
    rw [HttpMessage.FirstLineReady, if_pos r.request.isRequest]
    exact r.message.target.known r.request.target_ne
  obtain ⟨iob, c, hser, hiob⟩ := httpMessageSerialize_holds r.message (r.body.map some) hready
    r.request.chain (by rw [List.length_map]; exact r.size)
  refine ⟨iob, hser, ?_, ?_⟩
  · rw [hiob.data, SentRequest.wire, List.map_append]
  · rw [iobufferDataLen, hiob.remaining, SentRequest.wire, List.length_append, List.length_append,
      List.length_map, List.length_map]

theorem SentRequest.wire_pos (r : SentRequest) : 0 < r.wire.length := by
  have hcrlf : crlf.length = 2 := rfl
  rw [SentRequest.wire, HttpMessage.headText, List.length_append, List.length_append, hcrlf]
  omega

theorem reduceOption_map_some (b : Bytes) : (b.map some).reduceOption = b := by
  rw [List.reduceOption, List.filterMap_map]
  exact List.filterMap_some

theorem wires_append (rs : List SentRequest) (r : SentRequest) :
    wires (rs ++ [r]) = wires rs ++ r.wire := by
  rw [wires, List.map_append, List.flatten_append, List.map_singleton, List.flatten_singleton]
  rfl

/-- Requests sent later do not change which of the earlier ones have arrived. -/
theorem Arrived.send {sent : List SentRequest} {chunks : List Bytes} {ds : List HttpMessage}
    (h : Arrived sent chunks ds) (hread : chunks.flatten <+: wires sent) (r : SentRequest) :
    Arrived (sent ++ [r]) chunks ds := by
  have hlength : (sent ++ [r]).length = sent.length+1 := List.length_append
  refine ⟨?_, ?_, ?_⟩
  · rw [hlength]
    exact h.count.trans (Nat.le_succ _)
  · rw [List.take_append_of_le_length h.count]
    exact h.same
  · intro k hk
    rw [hlength] at hk
    rcases Nat.lt_or_eq_of_le hk with hlt | rfl
    · have hle : k ≤ sent.length := Nat.le_of_lt_succ hlt
      rw [List.take_append_of_le_length hle]
      exact h.whole k hle
    · apply iff_of_false
      · exact Nat.not_le_of_lt (Nat.lt_succ_of_le h.count)
      · rw [← hlength, List.take_length, wires_append]
        intro hall
        have hle := hall.length_le
        rw [List.length_append] at hle
        have hle' := hread.length_le
        have hpos := r.wire_pos
        omega

/-- Unless `write` takes a part of the text, the call returns. -/
theorem SentRequest.writes (r : SentRequest) {bytesWritten : ℤ} (errno : ℤ)
    (he : bytesWritten = r.wire.length ∨ bytesWritten ≤ 0) :
    ∃ rc, httpSyncsocketWriteMessage r.message bytesWritten errno = .ok (rc, r.wire.map some) := by
  obtain ⟨iob, hser, hdata, hlen⟩ := r.serializes
  have hout : decide ((r.wire.length : ℤ) > 0) = true :=
    decide_eq_true (Int.natCast_pos.mpr r.wire_pos)
  simp only [httpSyncsocketWriteMessage, hser, ok_bind, hlen, hdata, hout, cAssert_true]
  rcases he with rfl | hle
  · exact ⟨errno, if_neg (not_not_intro rfl)⟩
  · have hne : bytesWritten ≠ r.wire.length := by
      have hpos := r.wire_pos
      omega
    rw [if_pos hne, if_neg (not_lt.mpr hle)]
    split_ifs
    · exact ⟨-1, rfl⟩
    · exact ⟨errno, rfl⟩

/-- A call that returns has sent the whole text or nothing. -/
theorem SyncPair.Carries.write {w : SyncPair} {q : HttpMessageParser} (h : w.Carries mem llhttp q)
    {r : SentRequest} {bytesWritten : ℤ} (errno : ℤ)
    (he : bytesWritten = r.wire.length ∨ bytesWritten ≤ 0) :
    ∃ t, w.exec mem llhttp llerrno (.write r bytesWritten errno) = .ok t ∧ t.Carries mem llhttp q := by
  obtain ⟨rc, hwrite⟩ := r.writes errno he
  have hread : w.chunks.flatten <+: wires w.sent := ⟨w.wire, h.stream⟩
  rcases he with rfl | hle
  · refine ⟨{ w with sent := w.sent ++ [r], wire := w.wire ++ r.wire }, ?_, h.known, ?_, h.parser,
      h.run, h.completed, h.arrived.send hread r⟩
    · simp only [SyncPair.exec, hwrite, ok_bind, Int.natCast_pos.mpr r.wire_pos, if_true,
        reduceOption_map_some, Int.toNat_natCast, List.take_length]
    · show w.chunks.flatten ++ (w.wire ++ r.wire) = wires (w.sent ++ [r])
      rw [← List.append_assoc, h.stream, wires_append]
  · refine ⟨w, ?_, h⟩
    simp only [SyncPair.exec, hwrite, ok_bind, not_lt.mpr hle, if_false, Int.toNat_of_nonpos hle,
      List.take_zero, List.append_nil]

section peer

variable {σ M : Type} {execute : σ → List Cell → Execution σ M}

theorem SyncWorld.loop_parser (w : SyncWorld σ M) (call : OpenCall M) :
    (w.loop call).clientRef.parserRef = w.clientRef.parserRef ∧
      (w.loop call).completed = w.completed := by
  rw [SyncWorld.loop]
  split
  · exact ⟨rfl, rfl⟩
  · exact ⟨rfl, rfl⟩

/-- The parser is left alone, except by a block. -/
theorem SyncWorld.exec_parser {w t : SyncWorld σ M} {e : SyncEvent} (he : w.Enabled e)
    (hne : ∀ block, e ≠ .read (.data block)) (hx : w.exec execute e = .ok t) :
    t.clientRef.parserRef = w.clientRef.parserRef ∧ t.completed = w.completed := by
  cases e with
  | call =>
    obtain rfl := Except.ok.inj hx
    exact w.loop_parser _
  | read result =>
    cases result with
    | data block => exact absurd rfl (hne block)
    | nothing bytesRead =>
      obtain ⟨call, hcall⟩ := Option.isSome_iff_exists.mp he.1
      simp only [SyncWorld.exec, hcall, SyncWorld.gotRead] at hx
      obtain rfl := Except.ok.inj hx
      exact ⟨rfl, rfl⟩

/-- A block goes to the parser, whose messages are counted among the completed ones. -/
theorem SyncWorld.exec_block {w t : SyncWorld σ M} {block : Bytes}
    (he : w.Enabled (.read (.data block))) (hx : w.exec execute (.read (.data block)) = .ok t) :
    t.clientRef.parserRef = (execute w.clientRef.parserRef (block.map some)).parser ∧
      t.completed = w.completed ++ (execute w.clientRef.parserRef (block.map some)).messages := by
  obtain ⟨hsome, hne, hle⟩ := he
  obtain ⟨call, hcall⟩ := Option.isSome_iff_exists.mp hsome
  simp only [SyncWorld.exec, hcall, SyncWorld.gotRead, syncReadBlock_eq w.clientRef hne hle,
    ok_bind] at hx
  split_ifs at hx
  · obtain rfl := Except.ok.inj hx
    exact ⟨rfl, rfl⟩
  · obtain rfl := Except.ok.inj hx
    exact SyncWorld.loop_parser _ _

end peer

/-- Calls and failed reads of the other side. -/
theorem SyncPair.Carries.peer {w : SyncPair} {q : HttpMessageParser} (h : w.Carries mem llhttp q)
    {e : SyncEvent} (he : w.peer.Enabled e) (hne : ∀ block, e ≠ .read (.data block)) :
    ∃ t, w.exec mem llhttp llerrno (.peer e) = .ok t ∧ t.Carries mem llhttp q := by
  obtain ⟨peer, hx, hknown⟩ :
      ∃ peer, w.peer.exec (llhttpExecute mem llhttp llerrno) e = .ok peer ∧ peer.Known :=
    SyncWorld.exec_known h.known e he
  obtain ⟨hparser, hcompleted⟩ := SyncWorld.exec_parser he hne hx
  have hchunks : peer.clientRef.parserRef.chunks = w.chunks := congrArg LlhttpState.chunks hparser
  refine ⟨{ w with peer := peer }, ?_, hknown, ?_, ?_, ?_, ?_, ?_⟩
  · cases e with
    | call => simp only [SyncPair.exec, hx, ok_bind]
    | read result =>
      cases result with
      | data block => exact absurd rfl (hne block)
      | nothing bytesRead => simp only [SyncPair.exec, hx, ok_bind]
  · show peer.clientRef.parserRef.chunks.flatten ++ w.wire = wires w.sent
    rw [hchunks]
    exact h.stream
  · show peer.clientRef.parserRef.parser = .ok q
    rw [hparser]
    exact h.parser
  · show runCallbacks cbufferAppend mem httpMessageParserNew (llhttp peer.clientRef.parserRef.chunks) = .ok q
    rw [hchunks]
    exact h.run
  · exact hcompleted.trans h.completed
  · show Arrived w.sent peer.clientRef.parserRef.chunks q.handled
    rw [hchunks]
    exact h.arrived

/-- A block of what is under way. -/
theorem SyncPair.Carries.block {w : SyncPair} {q : HttpMessageParser} (h : w.Carries mem llhttp q)
    {block : Bytes} (he : w.Enabled llhttp llerrno (.peer (.read (.data block)))) :
    ∃ t q', w.exec mem llhttp llerrno (.peer (.read (.data block))) = .ok t ∧
      t.Carries mem llhttp q' := by
  obtain ⟨henabled, ⟨wire, hwire⟩, ⟨more, hmore⟩, hok, hreads⟩ := he
  obtain ⟨q', hrun', harrived⟩ := hreads.run mem
  obtain ⟨peer, hx, hknown⟩ : ∃ peer,
      w.peer.exec (llhttpExecute mem llhttp llerrno) (.read (.data block)) = .ok peer ∧ peer.Known :=
    SyncWorld.exec_known h.known _ henabled
  obtain ⟨hparser, hcompleted⟩ := SyncWorld.exec_block henabled hx
  have hnew : runCallbacks cbufferAppend mem q more = .ok q' := by
    rw [← hmore, runCallbacks_append_ok _ _ _ _ h.run] at hrun'
    exact hrun'
  have hdrop : (llhttp (w.peer.clientRef.parserRef.chunks ++ [block])).drop
      (llhttp w.peer.clientRef.parserRef.chunks).length = more := by
    show (llhttp (w.chunks ++ [block])).drop (llhttp w.chunks).length = more
    rw [← hmore, List.drop_left]
  have hok' : llerrno (w.peer.clientRef.parserRef.chunks ++ [block]) = 0 := hok
  have hexecute : llhttpExecute mem llhttp llerrno w.peer.clientRef.parserRef (block.map some) =
      ⟨⟨w.chunks ++ [block], .ok q'⟩, q'.handled.drop q.handled.length, 0⟩ := by
    simp only [llhttpExecute, reduceOption_map_some, h.parser, ok_bind, LlhttpState.handled, hdrop, hnew,
      hok']
    rfl
  rw [hexecute] at hparser hcompleted
  have hchunks : peer.clientRef.parserRef.chunks = w.chunks ++ [block] :=
    congrArg LlhttpState.chunks hparser
  refine ⟨{ w with peer := peer, wire := w.wire.drop block.length }, q', ?_, hknown, ?_, ?_, ?_, ?_, ?_⟩
  · simp only [SyncPair.exec, hx, ok_bind]
  · show peer.clientRef.parserRef.chunks.flatten ++ w.wire.drop block.length = wires w.sent
    rw [hchunks, List.flatten_append, List.flatten_singleton, ← hwire, List.drop_left,
      List.append_assoc, hwire]
    exact h.stream
  · show peer.clientRef.parserRef.parser = .ok q'
    rw [hparser]
  · show runCallbacks cbufferAppend mem httpMessageParserNew (llhttp peer.clientRef.parserRef.chunks) = .ok q'
    rw [hchunks]
    exact hrun'
  · obtain ⟨ds, hds, -⟩ := runCallbacks_handled hnew
    show peer.completed = q'.handled
    rw [hcompleted, h.completed, hds, List.drop_left]
  · show Arrived w.sent peer.clientRef.parserRef.chunks q'.handled
    rw [hchunks]
    exact harrived

theorem SyncPair.Carries.step {w : SyncPair} {q : HttpMessageParser} (h : w.Carries mem llhttp q)
    (e : SyncPairEvent) (he : w.Enabled llhttp llerrno e) :
    ∃ t, w.exec mem llhttp llerrno e = .ok t ∧ ∃ q', t.Carries mem llhttp q' := by
  cases e with
  | write r bytesWritten errno =>
    obtain ⟨t, hx, ht⟩ := h.write errno he
    exact ⟨t, hx, q, ht⟩
  | peer e =>
    cases e with
    | call =>
      have hcall : w.peer.Enabled .call := he
      obtain ⟨t, hx, ht⟩ := h.peer hcall (by simp)
      exact ⟨t, hx, q, ht⟩
    | read result =>
      cases result with
      | data block =>
        obtain ⟨t, q', hx, ht⟩ := h.block he
        exact ⟨t, hx, q', ht⟩
      | nothing bytesRead =>
        have hread : w.peer.Enabled (.read (.nothing bytesRead)) := he
        obtain ⟨t, hx, ht⟩ := h.peer hread (by simp)
        exact ⟨t, hx, q, ht⟩

end steps

section concrete

end concrete

end CHttp
