import CHttp.HttpParserFields

/-! Start lines and bodies through the parser. -/
namespace CHttp

variable {append : Cbuffer → Bytes → Res Cbuffer} {room : ℕ → ℕ → Prop} {mem : ℕ → MessageMem}

theorem run_url_tail (p : HttpMessageParser) (m : HttpMessage) (hm : p.currentMessage = some m)
    (hr : m.isRequest = true) (frags : List Bytes) :
    runCallbacks append mem p (frags.map .url) =
      frags.foldlM append p.mUrlBuf >>= fun b => .ok { p with mUrlBuf := b } := by
  have hsame : ({ m with isRequest := true } : HttpMessage) = m := by rw [← hr]
  rw [runCallbacks, List.foldlM_map]
  refine foldlM_component _ append (fun b => { p with mUrlBuf := b }) ?_ p.mUrlBuf frags
  intro b t
  simp only [parserCallback, urlDataCb, HttpMessageParser.current, hm, ok_bind, hsame]

/-- The fragments of a URL mark the message as a request and collect in the buffer. -/
theorem run_url (p : HttpMessageParser) (m : HttpMessage) (hm : p.currentMessage = some m)
    (frags : List Bytes) (hf : frags ≠ []) :
    runCallbacks append mem p (frags.map .url) =
      frags.foldlM append p.mUrlBuf >>= fun b =>
        .ok { p with currentMessage := some { m with isRequest := true }, mUrlBuf := b } := by
  cases frags with
  | nil => exact absurd rfl hf
  | cons t frags =>
    rw [List.map_cons, runCallbacks_cons, List.foldlM_cons]
    simp only [parserCallback, urlDataCb, HttpMessageParser.current, hm, ok_bind]
    cases append p.mUrlBuf t with
    | error e => rfl
    | ok b =>
      simp only [ok_bind]
      rw [run_url_tail _ _ rfl rfl]

/-- The message after a fragment of the reason was accepted. -/
def HttpMessage.withStatus (m : HttpMessage) (code : ℕ) (r : Cbuffer) : HttpMessage :=
  { m with isRequest := false, statusCode := code, reason := r }

/-- One fragment of a reason, as long as no earlier one left anything in the message: it goes
to the status buffer, and what is there goes to the message. -/
theorem status_step_okIff (mem : ℕ → MessageMem) (happ : Appends append room) (p : HttpMessageParser) (m : HttpMessage)
    (code : ℕ) (f : Bytes) (hm : p.currentMessage = some m) (hr : m.reason.data = [])
    (ht : p.mStatusBuf.terminated = true) :
    OkIff (parserCallback append mem p (.status code f))
      (fun q => ∃ r b, q = { p with currentMessage := some (m.withStatus code r), mStatusBuf := b } ∧
        p.mStatusBuf.Extended f b ∧ r.data = cstr (p.mStatusBuf.data ++ f))
      (p.mStatusBuf.sizes.Takes room f ∧ m.reason.sizes.Takes room (cstr (p.mStatusBuf.data ++ f))) := by
  simp only [parserCallback, statusDataCb, HttpMessageParser.current, hm, ok_bind]
  refine (happ p.mStatusBuf f).andThen fun b hb => ?_
  have hset := setOnce_okIff happ m.reason b
    "(this->reason != NULL) && (Cbuffer_size(this->reason) == 0)" hr (hb.terminated (.inl ht))
  rw [hb.data] at hset
  simp only [httpMessageSetReasonCbuffer, bind_assoc, ok_bind]
  exact hset.bind _ fun r hrd => ⟨r, b, rfl, hb, hrd⟩

/-- A fragment of a reason that the message has already. -/
theorem status_step_fail (p : HttpMessageParser) (m : HttpMessage) (code : ℕ) (f : Bytes)
    (hm : p.currentMessage = some m) (hr : m.reason.data ≠ []) (q : HttpMessageParser) :
    parserCallback append mem p (.status code f) ≠ .ok q := by
  intro hq
  simp only [parserCallback, statusDataCb, HttpMessageParser.current, hm, ok_bind] at hq
  obtain ⟨b, -, hq⟩ := (bind_eq_ok _ _ _).mp hq
  simp only [httpMessageSetReasonCbuffer, setOnce_fail _ _ _ hr, error_bind] at hq
  cases hq

theorem cstr_of_head_zero (b : Bytes) (h : b.head? = some 0) : cstr b = [] := by
  cases b with
  | nil => rfl
  | cons x b =>
    have hx : x = 0 := by simpa using h
    simp [cstr, hx]

theorem cstr_ne_nil (b : Bytes) (hb : b ≠ []) (h : b.head? ≠ some 0) : cstr b ≠ [] := by
  cases b with
  | nil => exact absurd rfl hb
  | cons x b =>
    have hx : x ≠ 0 := by simpa using h
    simp [cstr, hx]

/-- A reason that starts with NUL never puts anything into the message, so no
fragment of it trips the setter. -/
theorem run_status_nul (happ : Appends append room) (code : ℕ) (frags : List Bytes)
    (p : HttpMessageParser) (m : HttpMessage) (hm : p.currentMessage = some m)
    (hr : m.reason.data = []) (ht : p.mStatusBuf.terminated = true)
    (h0 : p.mStatusBuf.data.head? = some 0) :
    OkIff (runCallbacks append mem p (frags.map (.status code)))
      (fun q => ∃ m' b, q = { p with currentMessage := some m', mStatusBuf := b } ∧
        b.sizes = p.mStatusBuf.sizes.appendAll frags ∧
        (m' = m ∨ ∃ r, m' = m.withStatus code r ∧ r.data = []))
      (p.mStatusBuf.sizes.TakesAll room frags) := by
  induction frags generalizing p m with
  | nil => exact .of_ok rfl ⟨m, p.mStatusBuf, by rw [← hm], rfl, .inl rfl⟩ trivial
  | cons f frags ih =>
    have hhead : (p.mStatusBuf.data ++ f).head? = some 0 := by
      rw [List.head?_append, h0]
      rfl
    have hempty := cstr_of_head_zero _ hhead
    have hstep := (status_step_okIff mem happ p m code f hm hr ht).congr
      (and_iff_left (.inl hempty))
    rw [List.map_cons, runCallbacks_cons]
    refine hstep.andThen ?_
    rintro q ⟨r, b, rfl, hb, hrd⟩
    rw [hempty] at hrd
    rw [← hb.sizes]
    refine (ih _ (m.withStatus code r) rfl hrd (hb.terminated (.inl ht))
      (by rw [hb.data]; exact hhead)).imp ?_
    rintro q ⟨m', b', rfl, hsizes, hm'⟩
    refine ⟨m', b', rfl, by rw [hsizes, hb.sizes]; rfl, .inr ?_⟩
    rcases hm' with rfl | ⟨r', rfl, hr'⟩
    · exact ⟨r, rfl, hrd⟩
    · exact ⟨r', rfl, hr'⟩

/-- The capacities of the parser's buffers. -/
structure ParserCapacities where
  url : ℕ
  status : ℕ
  fields : FieldCapacities
  deriving DecidableEq

def HttpMessageParser.capacities (p : HttpMessageParser) : ParserCapacities :=
  ⟨p.mUrlBuf.mCapacity, p.mStatusBuf.mCapacity, p.fieldCapacities⟩

/-- The text that goes to the URL buffer. -/
def StartLine.url : StartLine → Bytes
  | .request url => url.flatten
  | .response _ _ => []

/-- The capacities after a start line. -/
def StartLine.grow (c : ParserCapacities) : StartLine → ParserCapacities
  | .request url => { c with url := ((CbufferSizes.empty c.url).appendAll url).capacity }
  | .response _ reason => { c with status := ((CbufferSizes.empty c.status).appendAll reason).capacity }

/-- The start lines that run through the parser without a failure. The reason is copied to a
buffer of the message, once. -/
def StartLine.Accepted (room : ℕ → ℕ → Prop) (c : ParserCapacities) : StartLine → Prop
  | .request url => (CbufferSizes.empty c.url).TakesAll room url
  | .response _ reason => (CbufferSizes.empty c.status).TakesAll room reason ∧
      cbufferNew.sizes.Takes room (cstr reason.flatten) ∧
      (reason.length ≤ 1 ∨ reason.flatten.head? = some 0)

instance StartLine.decidableAccepted [∀ capacity n, Decidable (room capacity n)]
    (c : ParserCapacities) : (st : StartLine) → Decidable (st.Accepted room c)
  | .request _ => inferInstanceAs (Decidable (CbufferSizes.TakesAll _ _ _))
  | .response _ _ => inferInstanceAs (Decidable (_ ∧ _ ∧ _))

/-- What an accepted start line makes of the message `m` and of the URL buffer. -/
def StartLine.Outcome (m m' : HttpMessage) (url : Cbuffer) : StartLine → Prop
  | .request frags => m' = { m with isRequest := true } ∧ url.data = frags.flatten
  | .response code reason => url.data = [] ∧ (reason = [] → m' = m) ∧
      (reason ≠ [] → ∃ r, m' = m.withStatus code r ∧ r.data = cstr reason.flatten)

/-- A parser that has just begun the message `m`. -/
structure HttpMessageParser.Begun (p : HttpMessageParser) (m : HttpMessage) : Prop where
  current : p.currentMessage = some m
  reason : m.reason = cbufferNew
  url : p.mUrlBuf.data = []
  urlTerminated : p.mUrlBuf.terminated = true
  status : p.mStatusBuf.data = []
  statusTerminated : p.mStatusBuf.terminated = true

/-- A reason goes through if it is empty, or comes whole, or shows nothing to a C reader. -/
theorem run_reason_okIff (happ : Appends append room) (code : ℕ) (reason : List Bytes)
    (hok : ∀ f ∈ reason, f ≠ []) (p : HttpMessageParser) (m : HttpMessage) (hp : p.Begun m) :
    OkIff (runCallbacks append mem p (reason.map (.status code)))
      (fun q => ∃ m' b, q = { p with currentMessage := some m', mStatusBuf := b } ∧
        b.sizes = p.mStatusBuf.sizes.appendAll reason ∧ (reason = [] → m' = m) ∧
        (reason ≠ [] → ∃ r, m' = m.withStatus code r ∧ r.data = cstr reason.flatten))
      ((StartLine.response code reason).Accepted room p.capacities) := by
  have hempty : p.mStatusBuf.sizes = .empty p.capacities.status := Cbuffer.sizes_of_empty hp.status
  have hreason : m.reason.data = [] := by
    rw [hp.reason]
    rfl
  rcases reason with _ | ⟨f, rest⟩
  · refine .of_ok rfl ⟨m, p.mStatusBuf, by rw [← hp.current], rfl, fun _ => rfl,
      fun h => absurd rfl h⟩ ⟨trivial, .inl rfl, .inl (Nat.zero_le _)⟩
  · have hstep := status_step_okIff mem happ p m code f hp.current hreason
      hp.statusTerminated
    rw [hp.status, List.nil_append, hempty, hp.reason] at hstep
    rw [List.map_cons, runCallbacks_cons]
    by_cases hf0 : f.head? = some 0
    · have hflat : (f :: rest).flatten.head? = some 0 := by
        rw [List.flatten_cons, List.head?_append, hf0]
        rfl
      have hcond : (StartLine.response code (f :: rest)).Accepted room p.capacities ↔
          ((CbufferSizes.empty p.capacities.status).Takes room f ∧
            cbufferNew.sizes.Takes room (cstr f)) ∧
          ((CbufferSizes.empty p.capacities.status).append f).TakesAll room rest := by
        rw [cstr_of_head_zero f hf0]
        constructor
        · rintro ⟨htakes, -⟩
          exact ⟨⟨htakes.1, .inl rfl⟩, htakes.2⟩
        · rintro ⟨⟨htakes, -⟩, hrest⟩
          exact ⟨⟨htakes, hrest⟩, .inl (cstr_of_head_zero _ hflat), .inr hflat⟩
      refine (hstep.andThen ?_).congr hcond.symm
      rintro q ⟨r, b, rfl, hb, hrd⟩
      rw [cstr_of_head_zero f hf0] at hrd
      have hsizes := hb.sizes
      rw [hempty] at hsizes
      rw [← hsizes]
      refine (run_status_nul happ code rest
        { p with currentMessage := some (m.withStatus code r), mStatusBuf := b }
        (m.withStatus code r) rfl hrd (hb.terminated (.inl hp.statusTerminated))
        (by rw [hb.data, hp.status, List.nil_append]; exact hf0)).imp ?_
      rintro q ⟨m', b', rfl, hb', hm'⟩
      refine ⟨m', b', rfl, ?_, fun h => by simp at h, fun _ => ?_⟩
      · rw [hb', hb.sizes]
        rfl
      · rw [cstr_of_head_zero _ hflat]
        rcases hm' with rfl | ⟨r', rfl, hr'⟩
        · exact ⟨r, rfl, hrd⟩
        · exact ⟨r', rfl, hr'⟩
    · rcases rest with _ | ⟨g, rest⟩
      · have hcond : (StartLine.response code [f]).Accepted room p.capacities ↔
            (CbufferSizes.empty p.capacities.status).Takes room f ∧
              cbufferNew.sizes.Takes room (cstr f) := by
          constructor
          · rintro ⟨htakes, hcopy, -⟩
            rw [List.flatten_singleton] at hcopy
            exact ⟨htakes.1, hcopy⟩
          · rintro ⟨htakes, hcopy⟩
            rw [← List.flatten_singleton (l := f)] at hcopy
            exact ⟨⟨htakes, trivial⟩, hcopy, .inl le_rfl⟩
        refine ((hstep.andThen (b := True) ?_).congr (and_iff_left trivial)).congr hcond.symm
        rintro q ⟨r, b, rfl, hb, hrd⟩
        refine .of_ok rfl ⟨_, b, rfl, hb.sizes, fun h => by simp at h, fun _ => ⟨r, rfl, ?_⟩⟩ trivial
        rw [hrd, List.flatten_singleton]
      · refine .of_faults (fun q hq => ?_) ?_
        · obtain ⟨p', hp', hq⟩ := (bind_eq_ok _ _ _).mp hq
          obtain ⟨r, b, rfl, -, hrd⟩ := hstep.result p' hp'
          rw [List.map_cons, runCallbacks_cons] at hq
          obtain ⟨p'', hp'', -⟩ := (bind_eq_ok _ _ _).mp hq
          refine status_step_fail _ (m.withStatus code r) code g rfl ?_ p'' hp''
          show r.data ≠ []
          rw [hrd]
          exact cstr_ne_nil f (hok f List.mem_cons_self) hf0
        · rintro ⟨-, -, hlen | hhead⟩
          · simp at hlen
          · rw [List.flatten_cons, List.head?_append_of_ne_nil _ (hok f List.mem_cons_self)] at hhead
            exact hf0 hhead

theorem run_start_okIff (happ : Appends append room) (st : StartLine) (hok : st.Ok)
    (p : HttpMessageParser) (m : HttpMessage) (hp : p.Begun m) :
    OkIff (runCallbacks append mem p st.callbacks)
      (fun q => ∃ m' u s, q = { p with currentMessage := some m', mUrlBuf := u, mStatusBuf := s } ∧
        u.terminated = true ∧ u.data = st.url ∧ st.Outcome m m' u ∧
        q.capacities = st.grow p.capacities)
      (st.Accepted room p.capacities) := by
  cases st with
  | request url =>
    have hne : url ≠ [] := fun h => hok (by rw [h]; rfl)
    have hempty : p.mUrlBuf.sizes = .empty p.capacities.url := Cbuffer.sizes_of_empty hp.url
    have hfold := happ.fold url p.mUrlBuf
    rw [hempty] at hfold
    simp only [StartLine.callbacks]
    rw [run_url p m hp.current url hne]
    refine hfold.bind _ fun u hu => ⟨_, u, p.mStatusBuf, rfl, hu.terminated hp.urlTerminated, ?_,
      ⟨rfl, ?_⟩, ?_⟩
    · rw [hu.data, hp.url, List.nil_append]
      rfl
    · rw [hu.data, hp.url, List.nil_append]
    · have hsizes := hu.sizes
      rw [hempty] at hsizes
      exact congrArg (fun c => ParserCapacities.mk c p.mStatusBuf.mCapacity p.fieldCapacities)
        (congrArg CbufferSizes.capacity hsizes)
  | response code reason =>
    refine (run_reason_okIff happ code reason hok p m hp).imp ?_
    rintro q ⟨m', b, rfl, hb, hnone, hsome⟩
    refine ⟨m', p.mUrlBuf, b, rfl, hp.urlTerminated, hp.url, ⟨hp.url, hnone, hsome⟩, ?_⟩
    rw [Cbuffer.sizes_of_empty hp.status] at hb
    exact congrArg (fun c => ParserCapacities.mk p.mUrlBuf.mCapacity c p.fieldCapacities)
      (congrArg CbufferSizes.capacity hb)

/-- Body fragments collect in the chain, in order. -/
theorem run_body (frags : List Bytes) (p : HttpMessageParser) (m : HttpMessage) (d : List Cell)
    (hm : p.currentMessage = some m) (hd : BodyHolds m.body d)
    (hf : ∀ b ∈ frags, b ≠ [] ∧ b.length+101 < 2^31) :
    ∃ b', runCallbacks append mem p (frags.map .body) =
        .ok { p with currentMessage := some { m with body := b' } } ∧
      BodyHolds b' (d ++ frags.flatten.map some) := by
  induction frags generalizing p m d with
  | nil =>
    refine ⟨m.body, by rw [List.map_nil, runCallbacks_nil, ← hm], by simpa using hd⟩
  | cons f frags ih =>
    obtain ⟨hne, hlen⟩ := hf f List.mem_cons_self
    obtain ⟨chain, happ, hholds⟩ := bufferChainAppend_holds _ d (f.map some) hd
      (by simpa using hne) (by rwa [List.length_map])
    have hcur : p.current = .ok m := by rw [HttpMessageParser.current, hm]
    have hstep : parserCallback append mem p (.body f) =
        .ok { p with currentMessage := some { m with body := some chain } } := by
      rw [parserCallback, bodyDataCb, hcur, ok_bind, happ, ok_bind]
    obtain ⟨b', hrun, hb'⟩ := ih
      { p with currentMessage := some { m with body := some chain } } { m with body := some chain }
      (d ++ f.map some) rfl hholds (fun b hb => hf b (List.mem_cons_of_mem _ hb))
    refine ⟨b', by rw [List.map_cons, runCallbacks_cons, hstep, ok_bind, hrun], ?_⟩
    simpa only [List.flatten_cons, List.map_append, List.append_assoc] using hb'

end CHttp
