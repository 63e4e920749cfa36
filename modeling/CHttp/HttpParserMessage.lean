import CHttp.HttpParserStart

/-! Whole messages through the parser: which ones run to the end and what the
handler receives for them. -/
namespace CHttp

variable {append : Cbuffer → Bytes → Res Cbuffer} {room : ℕ → ℕ → Prop} {mem : ℕ → MessageMem}

/-- The message `m'` that `headers_complete_cb` makes of `m`, given the pairs that
were still to be added and the text in the URL buffer. -/
structure HttpMessage.HeadersDone (m m' : HttpMessage) (pairs : List KVPair) (url : Bytes)
    (minor : ℕ) (method : LlhttpMethod) : Prop where
  headers : m'.headers = m.headers ++ pairs
  body : m'.body = m.body
  minor : m'.minorVers = minor
  isRequest : m'.isRequest = m.isRequest
  statusCode : m'.statusCode = m.statusCode
  reason : m'.reason = m.reason
  target : m'.target.data = cstr url
  method : url ≠ [] → m'.method = method

/-- `headers_complete_cb` on a message whose target is unset. The URL is copied to a buffer of
the message. -/
theorem headersComplete_okIff (mem : ℕ → MessageMem) (happ : Appends append room) (p : HttpMessageParser) (m : HttpMessage)
    (major minor : ℕ) (method : LlhttpMethod) (hm : p.currentMessage = some m)
    (ht : m.target = cbufferNew) (hu : p.mUrlBuf.terminated = true) :
    OkIff (parserCallback append mem p (.headersComplete major minor method))
      (fun q => q.capacities = p.capacities ∧ ∃ m' n v, q = p.holding m' n v p.mHeaderState ∧
        n.data = [] ∧ m.HeadersDone m' (pendingPair p) p.mUrlBuf.data minor method)
      (cbufferNew.sizes.Takes room (cstr p.mUrlBuf.data)) := by
  obtain ⟨n, v, hcommit, hn, hncap, hvcap⟩ := commitHeader_eq p m hm
  have hcaps (m' : HttpMessage) : (p.holding m' n v p.mHeaderState).capacities = p.capacities :=
    congrArg (ParserCapacities.mk _ _) (congrArg₂ FieldCapacities.mk hncap hvcap)
  by_cases hz : p.mUrlBuf.data = []
  · have hsize : cbufferSize p.mUrlBuf = 0 := by simp [cbufferSize, hz]
    simp only [parserCallback, headersCompleteCb, hcommit, HttpMessageParser.current, ok_bind,
      HttpMessageParser.holding, if_pos hsize, httpMessageSetVersion]
    refine .of_ok rfl ⟨hcaps _, _, n, v, rfl, hn, ⟨rfl, rfl, rfl, rfl, rfl, rfl, ?_,
      fun h => absurd hz h⟩⟩ (.inl (by rw [hz]; rfl))
    rw [hz, ht]
    rfl
  · have hsize : cbufferSize p.mUrlBuf ≠ 0 := by simp [cbufferSize, hz]
    have hset := setOnce_okIff happ m.target p.mUrlBuf
      "(this->target != NULL) && (Cbuffer_size(this->target) == 0)" (by rw [ht]; rfl) hu
    rw [ht] at hset
    simp only [parserCallback, headersCompleteCb, hcommit, HttpMessageParser.current, ok_bind,
      HttpMessageParser.holding, if_neg hsize, httpMessageSetVersion, httpMessageSetTargetCbuffer,
      bind_assoc, ht]
    exact hset.bind _ fun t htd => ⟨hcaps _, _, n, v, rfl, hn,
      ⟨rfl, rfl, rfl, rfl, rfl, rfl, htd, fun _ => rfl⟩⟩

/-- The capacities after a message. -/
def MessageFrags.grow (c : ParserCapacities) (f : MessageFrags) : ParserCapacities :=
  { f.start.grow c with fields := (f.headers ++ f.trailers).foldl FieldFrags.grow c.fields }

/-- The start line fits, and so does the copy of the URL in the message. -/
structure MessageFrags.StartFits (room : ℕ → ℕ → Prop) (c : ParserCapacities) (f : MessageFrags) :
    Prop where
  start : f.start.Accepted room c
  target : cbufferNew.sizes.Takes room (cstr f.start.url)

/-- The messages whose callbacks all succeed, in a parser with the given capacities. -/
structure MessageFrags.Accepted (room : ℕ → ℕ → Prop) (c : ParserCapacities) (f : MessageFrags) :
    Prop extends f.StartFits room c where
  fields : FieldsFit room c.fields (f.headers ++ f.trailers)

instance MessageFrags.decidableAccepted [∀ capacity n, Decidable (room capacity n)]
    (c : ParserCapacities) (f : MessageFrags) : Decidable (f.Accepted room c) :=
  decidable_of_iff ((f.start.Accepted room c ∧ cbufferNew.sizes.Takes room (cstr f.start.url)) ∧
    FieldsFit room c.fields (f.headers ++ f.trailers))
    ⟨fun h => ⟨⟨h.1.1, h.1.2⟩, h.2⟩, fun h => ⟨⟨h.start, h.target⟩, h.fields⟩⟩

/-- The start-line fields of the message `d` that the handler receives: a response
without a reason keeps what malloc left. -/
def StartLine.Delivered (junk : MessageMem) (method : LlhttpMethod) (d : HttpMessage) :
    StartLine → Prop
  | .request url => d.isRequest = true ∧ d.method = method ∧ d.target.data = cstr url.flatten ∧
      d.reason.data = []
  | .response code reason => d.target.data = [] ∧
      (reason = [] → d.isRequest = junk.isRequest ∧ d.statusCode = junk.statusCode ∧
        d.reason.data = []) ∧
      (reason ≠ [] → d.isRequest = false ∧ d.statusCode = code ∧
        d.reason.data = cstr reason.flatten)

/-- What the handler receives for an accepted message. The last trailer never
leaves the parser's buffers. -/
structure MessageFrags.Delivered (f : MessageFrags) (junk : MessageMem) (d : HttpMessage) :
    Prop where
  start : f.start.Delivered junk f.method d
  minor : d.minorVers = f.httpMinor
  headers : d.headers = f.headers.map FieldFrags.pair ++ (f.trailers.map FieldFrags.pair).dropLast
  body : BodyHolds d.body (f.body.flatten.map some)

/-- What comes after the header block, body and trailers, leaves the start line alone. -/
theorem StartLine.Outcome.delivered (st : StartLine) (hok : st.Ok) (junk : MessageMem)
    (m d : HttpMessage) (u : Cbuffer) (pairs : List KVPair) (minor : ℕ) (method : LlhttpMethod)
    (h : st.Outcome (httpMessageNew junk) m u) (hd : m.HeadersDone d pairs u.data minor method)
    (hs : List KVPair) (b : Option BufferChain) :
    st.Delivered junk method { d with headers := hs, body := b } := by
  cases st with
  | request url =>
    obtain ⟨rfl, hu⟩ := h
    exact ⟨hd.isRequest, hd.method (by rw [hu]; exact hok), by rw [hd.target, hu],
      by rw [hd.reason]; rfl⟩
  | response code reason =>
    obtain ⟨hu, hnone, hsome⟩ := h
    refine ⟨by rw [hd.target, hu]; rfl, fun hr => ?_, fun hr => ?_⟩
    · obtain rfl := hnone hr
      exact ⟨hd.isRequest, hd.statusCode, by rw [hd.reason]; rfl⟩
    · obtain ⟨r, rfl, hrd⟩ := hsome hr
      exact ⟨hd.isRequest, hd.statusCode, by rw [hd.reason]; exact hrd⟩

theorem StartLine.Outcome.keeps (st : StartLine) (m m' : HttpMessage) (u : Cbuffer)
    (h : st.Outcome m m' u) :
    m'.headers = m.headers ∧ m'.body = m.body ∧ m'.target = m.target := by
  cases st with
  | request url =>
    obtain ⟨rfl, -⟩ := h
    exact ⟨rfl, rfl, rfl⟩
  | response code reason =>
    obtain ⟨-, hnone, hsome⟩ := h
    by_cases hr : reason = []
    · obtain rfl := hnone hr
      exact ⟨rfl, rfl, rfl⟩
    · obtain ⟨r, rfl, -⟩ := hsome hr
      exact ⟨rfl, rfl, rfl⟩

/-- Committed pairs are all pairs but a pending one. -/
theorem committed_of_pending (hs : List KVPair) (n v : Cbuffer) (old : List KVPair)
    (fs : List FieldFrags)
    (h : hs ++ (if n.data = [] then [] else [kvpairNew n.data v.data]) = old ++ fs.map FieldFrags.pair)
    (hne : fs ≠ [] → n.data ≠ []) (heq : fs = [] → n.data = []) :
    hs = old ++ (fs.map FieldFrags.pair).dropLast := by
  by_cases hfs : fs = []
  · subst hfs
    rw [if_pos (heq rfl), List.append_nil] at h
    simpa using h
  · rw [if_neg (hne hfs)] at h
    have hdrop := congrArg List.dropLast h
    rw [List.dropLast_concat, List.dropLast_append_of_ne_nil (by simpa using hfs)] at hdrop
    exact hdrop

theorem runCallbacks_append_ok (p q : HttpMessageParser) (cs ds : List Callback)
    (h : runCallbacks append mem p cs = .ok q) :
    runCallbacks append mem p (cs ++ ds) = runCallbacks append mem q ds :=
  foldlM_append_ok _ _ _ _ _ h

/-- The parser works on the message `m`, has no pair pending, is not inside a
header name, and has passed on the messages `done`. -/
structure HttpMessageParser.Working (p : HttpMessageParser) (m : HttpMessage)
    (done : List HttpMessage) : Prop where
  current : p.currentMessage = some m
  state : p.mHeaderState ≠ .field
  name : p.mNameBuf.data = []
  handled : p.handled = done

theorem HttpMessageParser.Working.pending {p : HttpMessageParser} {m : HttpMessage}
    {done : List HttpMessage} (h : p.Working m done) : pendingPair p = [] := if_pos h.name

theorem StartLine.grow_fields (st : StartLine) (c : ParserCapacities) :
    (st.grow c).fields = c.fields := by
  cases st <;> rfl

theorem run_begin (happ : Appends append room) (st : StartLine) (hok : st.Ok)
    (p : HttpMessageParser) (hp : p.mHeaderState ≠ .field) :
    OkIff (runCallbacks append mem p (.messageBegin :: st.callbacks))
      (fun q => q.capacities = st.grow p.capacities ∧ q.mUrlBuf.terminated = true ∧
        q.mUrlBuf.data = st.url ∧ ∃ m, q.Working m p.handled ∧
        st.Outcome (httpMessageNew (mem p.allocated)) m q.mUrlBuf)
      (st.Accepted room p.capacities) := by
  refine (run_start_okIff happ st hok (messageBeginCb mem p) (httpMessageNew (mem p.allocated))
    ⟨rfl, rfl, rfl, rfl, rfl, rfl⟩).imp ?_
  rintro q ⟨m, u, s, rfl, hut, hu, hout, hcaps⟩
  exact ⟨hcaps, hut, hu, m, ⟨rfl, hp, rfl, rfl⟩, hout⟩

theorem run_header_block (happ : Appends append room) (f : MessageFrags) (p : HttpMessageParser)
    (m : HttpMessage) (done : List HttpMessage) (hp : p.Working m done) (ht : m.target = cbufferNew)
    (hu : p.mUrlBuf.terminated = true) :
    OkIff (runCallbacks append mem p (f.headers.flatMap FieldFrags.callbacks ++
        [.headersComplete f.httpMajor f.httpMinor f.method]))
      (fun q => q.capacities =
          { p.capacities with fields := f.headers.foldl FieldFrags.grow p.capacities.fields } ∧
        ∃ m', q.Working m' done ∧
          m.HeadersDone m' (f.headers.map FieldFrags.pair) p.mUrlBuf.data f.httpMinor f.method)
      (FieldsFit room p.capacities.fields f.headers ∧
        cbufferNew.sizes.Takes room (cstr p.mUrlBuf.data)) := by
  rw [runCallbacks_append]
  refine (run_fields_okIff happ f.headers p m hp.current hp.state).andThen ?_
  rintro q ⟨hcaps, hs, n, v, st, rfl, hst, hcol, -, -⟩
  have hdone := headersComplete_okIff mem happ (p.holding { m with headers := hs } n v st)
    { m with headers := hs } f.httpMajor f.httpMinor f.method rfl ht hu
  rw [runCallbacks, List.foldlM_cons]
  refine hdone.bind id ?_
  rintro q ⟨hcaps', m', n', v', rfl, hn', hh⟩
  refine ⟨?_, m', ⟨rfl, hst, hn', hp.handled⟩, { hh with headers := ?_ }⟩
  · exact hcaps'.trans (congrArg (ParserCapacities.mk _ _) hcaps)
  · rw [hp.pending, List.append_nil] at hcol
    exact hh.headers.trans hcol

/-- Trailers run through the header callbacks, but nothing commits the last one. -/
theorem run_trailers (mem : ℕ → MessageMem) (happ : Appends append room) (fs : List FieldFrags) (p : HttpMessageParser)
    (m : HttpMessage) (done : List HttpMessage) (hp : p.Working m done) :
    OkIff (runCallbacks append mem p (fs.flatMap FieldFrags.callbacks ++ [.messageComplete]))
      (fun q => q.capacities =
          { p.capacities with fields := fs.foldl FieldFrags.grow p.capacities.fields } ∧
        q.mHeaderState ≠ .field ∧ q.handled = done ++
          [{ m with headers := m.headers ++ (fs.map FieldFrags.pair).dropLast }])
      (FieldsFit room p.capacities.fields fs) := by
  rw [runCallbacks_append]
  refine ((run_fields_okIff happ fs p m hp.current hp.state).andThen (b := True) ?_).congr
    (and_iff_left trivial)
  rintro q ⟨hcaps, hs, n, v, st, rfl, hst, hcol, hne, heq⟩
  rw [hp.pending, List.append_nil] at hcol
  have hheaders := committed_of_pending hs n v m.headers fs hcol hne
    (fun h => by rw [heq h, hp.name])
  refine .of_ok rfl ⟨congrArg (ParserCapacities.mk _ _) hcaps, hst, ?_⟩ trivial
  show p.handled ++ [{ m with headers := hs }] = _
  rw [hp.handled, hheaders]

theorem MessageFrags.callbacks_stages (f : MessageFrags) :
    f.callbacks = (.messageBegin :: f.start.callbacks) ++
      ((f.headers.flatMap FieldFrags.callbacks ++
        [.headersComplete f.httpMajor f.httpMinor f.method]) ++ (f.body.map .body ++
          (f.trailers.flatMap FieldFrags.callbacks ++ [.messageComplete]))) := by
  simp [MessageFrags.callbacks]

theorem MessageFrags.accepted_iff (f : MessageFrags) (c : ParserCapacities) :
    f.Accepted room c ↔ f.start.Accepted room c ∧
      (FieldsFit room c.fields f.headers ∧ cbufferNew.sizes.Takes room (cstr f.start.url)) ∧
        FieldsFit room (f.headers.foldl FieldFrags.grow c.fields) f.trailers := by
  constructor
  · rintro ⟨⟨hstart, htarget⟩, hfields⟩
    obtain ⟨hheaders, htrailers⟩ := (fieldsFit_append _ _ _).mp hfields
    exact ⟨hstart, ⟨hheaders, htarget⟩, htrailers⟩
  · rintro ⟨hstart, ⟨hheaders, htarget⟩, htrailers⟩
    exact ⟨⟨hstart, htarget⟩, (fieldsFit_append _ _ _).mpr ⟨hheaders, htrailers⟩⟩

/-- An accepted message reaches the handler exactly once, from any state the parser
can be in between messages, and every other message makes some callback fail. -/
theorem run_message_okIff (mem : ℕ → MessageMem) (happ : Appends append room) (f : MessageFrags) (p : HttpMessageParser)
    (hp : p.mHeaderState ≠ .field) :
    OkIff (runCallbacks append mem p f.callbacks)
      (fun q => q.capacities = f.grow p.capacities ∧ q.mHeaderState ≠ .field ∧
        ∃ d k, q.handled = p.handled ++ [d] ∧ f.Delivered (mem k) d)
      (f.Accepted room p.capacities) := by
  rw [f.callbacks_stages, runCallbacks_append, f.accepted_iff]
  refine (run_begin happ f.start f.start_ok p hp).andThen ?_
  rintro q1 ⟨hcaps1, hu1, hurl1, m1, hw1, hout⟩
  obtain ⟨hh1, hb1, ht1⟩ := StartLine.Outcome.keeps _ _ _ _ hout
  have hfields1 : q1.capacities.fields = p.capacities.fields := by
    rw [hcaps1, StartLine.grow_fields]
  rw [runCallbacks_append, ← hurl1, ← hfields1]
  refine (run_header_block happ f q1 m1 _ hw1 ht1 hu1).andThen ?_
  rintro q2 ⟨hcaps2, m2, hw2, hdone⟩
  obtain ⟨b, hrun3, hbody⟩ := run_body f.body q2 m2 [] hw2.current
    (by rw [hdone.body, hb1]; exact bufferChainNew_holds) f.body_ok
  have htrailers := run_trailers mem happ f.trailers
    { q2 with currentMessage := some { m2 with body := b } } { m2 with body := b } p.handled
    ⟨rfl, hw2.state, hw2.name, hw2.handled⟩
  have hcaps3 : { q2 with currentMessage := some { m2 with body := b } }.capacities =
      { q1.capacities with fields := f.headers.foldl FieldFrags.grow q1.capacities.fields } := hcaps2
  rw [runCallbacks_append_ok _ _ _ _ hrun3]
  rw [hcaps3] at htrailers
  refine htrailers.imp ?_
  rintro q4 ⟨hcaps4, hst4, hhandled⟩
  refine ⟨?_, hst4, _, p.allocated, hhandled, ?_, hdone.minor, ?_, hbody⟩
  · rw [hcaps4, hfields1, hcaps1, ← List.foldl_append]
    rfl
  · exact StartLine.Outcome.delivered f.start f.start_ok _ m1 m2 _ _ _ f.method hout hdone _ b
  · change m2.headers ++ _ = _
    rw [hdone.headers, hh1]
    rfl

theorem run_messages_okIff (mem : ℕ → MessageMem) (happ : Appends append room) (fs : List MessageFrags)
    (p : HttpMessageParser) (hp : p.mHeaderState ≠ .field) :
    OkIff (runCallbacks append mem p (fs.flatMap MessageFrags.callbacks))
      (fun q => q.mHeaderState ≠ .field ∧ ∃ ds, q.handled = p.handled ++ ds ∧
        List.Forall₂ (fun f d => ∃ k, f.Delivered (mem k) d) fs ds)
      (Machine.Admits MessageFrags.grow (MessageFrags.Accepted room) p.capacities fs) := by
  induction fs generalizing p with
  | nil => exact .of_ok rfl ⟨hp, [], (List.append_nil _).symm, .nil⟩ trivial
  | cons f fs ih =>
    rw [List.flatMap_cons, runCallbacks_append]
    refine (run_message_okIff _ happ f p hp).andThen ?_
    rintro q ⟨hcaps, hq, d, k, hd, hdel⟩
    rw [← hcaps]
    refine (ih q hq).imp ?_
    rintro r ⟨hst, ds, hr, hall⟩
    refine ⟨hst, d :: ds, ?_, .cons ⟨k, hdel⟩ hall⟩
    rw [hr, hd, List.append_assoc, List.singleton_append]

section fresh

/-- The capacities of a new parser. -/
def newCapacities : ParserCapacities :=
  ⟨strategyMinSize, strategyMinSize, ⟨strategyMinSize, strategyMinSize⟩⟩

/-- Messages through a new parser: the handler gets one message for each, if all are
accepted. -/
theorem run_new_okIff (mem : ℕ → MessageMem) (happ : Appends append room) {ι : Type} (rs : List ι) (frags : ι → MessageFrags) :
    OkIff (runCallbacks append mem httpMessageParserNew (rs.flatMap fun r => (frags r).callbacks))
      (fun q => q.mHeaderState ≠ .field ∧
        List.Forall₂ (fun r d => ∃ k, (frags r).Delivered (mem k) d) rs q.handled)
      (Machine.Admits MessageFrags.grow (MessageFrags.Accepted room) newCapacities (rs.map frags)) := by
  rw [← List.flatMap_map frags MessageFrags.callbacks]
  refine (run_messages_okIff _ happ (rs.map frags) httpMessageParserNew (by decide)).imp ?_
  rintro q ⟨hst, ds, hq, hall⟩
  rw [List.forall₂_map_left_iff] at hall
  have hds : q.handled = ds := hq
  rw [hds]
  exact ⟨hst, hall⟩

/-- One message through a new parser. -/
theorem run_new_one_okIff (mem : ℕ → MessageMem) (happ : Appends append room) (f : MessageFrags) :
    OkIff (runCallbacks append mem httpMessageParserNew f.callbacks)
      (fun q => ∃ d k, q.handled = [d] ∧ f.Delivered (mem k) d) (f.Accepted room newCapacities) := by
  refine (run_message_okIff _ happ f httpMessageParserNew (by decide)).imp ?_
  rintro q ⟨-, -, d, k, hq, hd⟩
  exact ⟨d, k, hq, hd⟩

end fresh

section short

/-- Capacities of blocks that only grew. -/
structure ParserCapacities.Grown (c : ParserCapacities) : Prop where
  url : strategyMinSize ≤ c.url
  status : strategyMinSize ≤ c.status
  fields : c.fields.Grown

theorem newCapacities_grown : newCapacities.Grown := ⟨le_rfl, le_rfl, le_rfl, le_rfl⟩

theorem ParserCapacities.Grown.grow {c : ParserCapacities} (h : c.Grown) (f : MessageFrags) :
    (f.grow c).Grown := by
  have hfields := h.fields.growAll (f.headers ++ f.trailers)
  cases hst : f.start with
  | request url =>
    rw [MessageFrags.grow, hst]
    exact ⟨h.url.trans (CbufferSizes.le_appendAll_capacity (.empty c.url) url), h.status, hfields⟩
  | response code reason =>
    rw [MessageFrags.grow, hst]
    exact ⟨h.url, h.status.trans (CbufferSizes.le_appendAll_capacity (.empty c.status) reason),
      hfields⟩

/-- Which messages are accepted in turn, with the fields of all of them in one list. -/
theorem admits_accepted_iff (fs : List MessageFrags) (c : ParserCapacities) :
    Machine.Admits MessageFrags.grow (MessageFrags.Accepted room) c fs ↔
      Machine.Admits MessageFrags.grow (MessageFrags.StartFits room) c fs ∧
        FieldsFit room c.fields (fs.flatMap fun f => f.headers ++ f.trailers) := by
  induction fs generalizing c with
  | nil => exact iff_of_true trivial ⟨trivial, trivial⟩
  | cons f fs ih =>
    rw [List.flatMap_cons, fieldsFit_append]
    constructor
    · rintro ⟨hf, hrest⟩
      obtain ⟨hstarts, hfields⟩ := (ih _).mp hrest
      exact ⟨⟨hf.toStartFits, hstarts⟩, hf.fields, hfields⟩
    · rintro ⟨⟨hf, hstarts⟩, hown, hfields⟩
      exact ⟨⟨hf, hown⟩, (ih _).mpr ⟨hstarts, hfields⟩⟩

/-- A request whose texts are all short. -/
structure MessageFrags.ShortRequest (room : ℕ → ℕ → Prop) (f : MessageFrags) (url : List Bytes) :
    Prop where
  start : f.start = .request url
  url : AlwaysFits room url.flatten.length
  fields : ∀ h ∈ f.headers ++ f.trailers,
    AlwaysFits room h.name.flatten.length ∧ AlwaysFits room h.value.flatten.length

theorem AlwaysFits.mono {n k : ℕ} (h : AlwaysFits room n) (hk : k ≤ n) : AlwaysFits room k :=
  fun capacity requested hc hr => h capacity requested hc (hr.trans hk)

theorem MessageFrags.ShortRequest.accepted {f : MessageFrags} {url : List Bytes}
    (h : f.ShortRequest room url) {c : ParserCapacities} (hc : c.Grown) : f.Accepted room c where
  start := by
    rw [h.start]
    exact h.url.takesAll hc.url
  target := by
    rw [h.start]
    exact (h.url.mono (cstr_length_le _)).takes le_rfl
  fields := fieldsFit_of_always _ _ hc.fields h.fields

theorem admits_of_short (fs : List MessageFrags) (c : ParserCapacities) (hc : c.Grown)
    (h : ∀ f ∈ fs, ∃ url, f.ShortRequest room url) :
    Machine.Admits MessageFrags.grow (MessageFrags.Accepted room) c fs := by
  induction fs generalizing c with
  | nil => exact trivial
  | cons f fs ih =>
    obtain ⟨⟨url, hf⟩, hfs⟩ := List.forall_mem_cons.mp h
    exact ⟨hf.accepted hc, ih _ (hc.grow f) hfs⟩

end short

end CHttp
