import CHttp.HttpParserRequests

/-! Responses and trailers: the inputs on which the parser's two gaps show. -/
namespace CHttp

variable (mem : ℕ → MessageMem)

def MessageFrags.IsResponse (f : MessageFrags) (code : ℕ) (reason : List Bytes) : Prop :=
  f.start = .response code reason

/-- The run succeeds and each delivered message carries the status line that was
reported for it. -/
def ResponsesFaithful (rs : List (MessageFrags × ℕ × List Bytes)) : Prop :=
  ∃ q, runCallbacks cbufferAppend mem httpMessageParserNew (rs.flatMap fun r => r.1.callbacks) = .ok q ∧
    List.Forall₂ (fun r d => d.isRequest = false ∧ d.statusCode = (r.2.1 : ℤ) ∧
      d.reason.data = r.2.2.flatten) rs q.handled

/-- A reason in exactly one fragment, without NUL, and below 512 bytes: the message has it in
a new buffer, whose block of 256 bytes grows at most once. -/
structure OneFragmentReason (reason : List Bytes) : Prop where
  single : reason.length = 1
  no_nul : 0 ∉ reason.flatten
  short : reason.flatten.length < 512

theorem OneFragmentReason.startFits {f : MessageFrags} {code : ℕ} {reason : List Bytes}
    (h : OneFragmentReason reason) (hf : f.IsResponse code reason) {c : ParserCapacities}
    (hc : c.Grown) : f.StartFits blockRoom c where
  start := by
    have hroom : AlwaysFits blockRoom reason.flatten.length := blockRoom_always h.short
    rw [hf]
    exact ⟨hroom.takesAll hc.status, (hroom.mono (cstr_length_le _)).takes le_rfl, .inl h.single.le⟩
  target := by
    rw [hf]
    exact .inl rfl

/-- Where malloc left `is_request` set, a response is delivered faithfully only if its reason
came in one fragment. -/
theorem oneFragmentReason_of_faithful (f : MessageFrags) (code : ℕ) (reason : List Bytes)
    (hf : f.IsResponse code reason) (c : ParserCapacities) (ha : f.StartFits blockRoom c)
    (junk : MessageMem) (hjunk : junk.isRequest = true) (d : HttpMessage) (hd : f.Delivered junk d)
    (h : d.isRequest = false ∧ d.statusCode = code ∧ d.reason.data = reason.flatten) :
    OneFragmentReason reason := by
  have hstart := hd.start
  have hacc := ha.start
  have hok := f.start_ok
  rw [hf] at hstart hacc hok
  obtain ⟨-, hnone, hsome⟩ := hstart
  obtain ⟨-, hcopy, hpass⟩ := hacc
  obtain ⟨hreq, -, hreason⟩ := h
  have hne : reason ≠ [] := by
    intro hr
    rw [(hnone hr).1, hjunk] at hreq
    cases hreq
  have hcstr : cstr reason.flatten = reason.flatten := by rw [← (hsome hne).2.2, hreason]
  have hnul : 0 ∉ reason.flatten := (cstr_eq_self_iff _).mp hcstr
  obtain ⟨text, htext⟩ := List.exists_mem_of_ne_nil reason hne
  have hflat : reason.flatten ≠ [] := by
    intro hflat
    exact hok text htext (List.flatten_eq_nil_iff.mp hflat text htext)
  rw [hcstr] at hcopy
  have hroom : reason.flatten.length < 512 := by
    have hlt := hcopy.resolve_left hflat
    rw [blockRoom, lt_min_iff] at hlt
    have hlt2 : 0+reason.flatten.length < 2*strategyMinSize := hlt.2
    rwa [Nat.zero_add] at hlt2
  refine ⟨?_, hnul, hroom⟩
  rcases hpass with hle | hzero
  · have := List.length_pos_of_ne_nil hne
    omega
  · exact absurd (List.mem_of_mem_head? hzero) hnul

theorem OneFragmentReason.faithful {f : MessageFrags} {code : ℕ} {reason : List Bytes}
    (h : OneFragmentReason reason) (hf : f.IsResponse code reason) {junk : MessageMem}
    {d : HttpMessage} (hd : f.Delivered junk d) :
    d.isRequest = false ∧ d.statusCode = code ∧ d.reason.data = reason.flatten := by
  have hstart := hd.start
  rw [hf] at hstart
  have hne : reason ≠ [] := List.ne_nil_of_length_pos (by rw [h.single]; omega)
  obtain ⟨hreq, hcode, hreason⟩ := hstart.2.2 hne
  exact ⟨hreq, hcode, by rw [hreason, (cstr_eq_self_iff _).mpr h.no_nul]⟩

/-- The start lines of such responses fit, whatever was read before. -/
theorem startsFit_of_oneFragment (rs : List (MessageFrags × ℕ × List Bytes))
    (hrs : ∀ r ∈ rs, r.1.IsResponse r.2.1 r.2.2) (h : ∀ r ∈ rs, OneFragmentReason r.2.2)
    (c : ParserCapacities) (hc : c.Grown) :
    Machine.Admits MessageFrags.grow (MessageFrags.StartFits blockRoom) c (rs.map Prod.fst) := by
  induction rs generalizing c with
  | nil => exact trivial
  | cons r rs ih =>
    obtain ⟨hr, hrs⟩ := List.forall_mem_cons.mp hrs
    obtain ⟨hone, h⟩ := List.forall_mem_cons.mp h
    exact ⟨hone.startFits hr hc, ih hrs h _ (hc.grow r.1)⟩

/-- Every message of a list that is accepted in turn has a start line that fits. -/
theorem exists_startFits {fs : List MessageFrags} {c : ParserCapacities}
    (h : Machine.Admits MessageFrags.grow (MessageFrags.StartFits blockRoom) c fs) :
    ∀ f ∈ fs, ∃ c, f.StartFits blockRoom c := by
  induction fs generalizing c with
  | nil => exact fun f hf => absurd hf List.not_mem_nil
  | cons f fs ih => exact List.forall_mem_cons.mpr ⟨⟨c, h.1⟩, ih h.2⟩

/-- For every list of responses, in any fragmentation: the delivered status lines
are faithful for all contents of malloc'd memory exactly when each reason came in
one fragment, without NUL, and below 512 bytes, and the parser's two buffers have room for the
header fields, one after another. A second fragment trips the setter's
assertion, and without a fragment `is_request` and `status_code` are never set. -/
theorem responses_faithful_iff (rs : List (MessageFrags × ℕ × List Bytes))
    (hrs : ∀ r ∈ rs, r.1.IsResponse r.2.1 r.2.2) :
    (∀ mem, ResponsesFaithful mem rs) ↔ (∀ r ∈ rs, OneFragmentReason r.2.2) ∧
      FieldsFit blockRoom ⟨strategyMinSize, strategyMinSize⟩
        (rs.flatMap fun r => r.1.headers ++ r.1.trailers) := by
  have hflat : rs.flatMap (fun r => r.1.headers ++ r.1.trailers) =
      (rs.map Prod.fst).flatMap fun f => f.headers ++ f.trailers := by rw [List.flatMap_map]
  have hnew (mem : ℕ → MessageMem) :=
    run_new_okIff mem cbufferAppend_appends rs Prod.fst
  rw [hflat]
  constructor
  · intro hall
    let junk : ℕ → MessageMem := fun _ => ⟨true, 0, .get⟩
    obtain ⟨q, hq, hgood⟩ := hall junk
    obtain ⟨hstarts, hfields⟩ := (admits_accepted_iff _ _).mp ((hnew junk).iff.mp ⟨q, hq⟩)
    obtain ⟨-, hdel⟩ := (hnew junk).result q hq
    have hfits : ∀ r ∈ rs, ∃ c, r.1.StartFits blockRoom c := fun r hr =>
      exists_startFits hstarts r.1 (List.mem_map_of_mem hr)
    have hone : List.Forall₂ (fun r _ => OneFragmentReason r.2.2 ∧ True) rs q.handled := by
      refine List.Forall₂.mp ?_ ((List.forall₂_and_left _ _).mpr
        ⟨fun r hr => And.intro (hrs r hr) (hfits r hr), hdel⟩) hgood
      rintro r d ⟨⟨hresp, c, hacc⟩, k, hk⟩ hfaith
      exact ⟨oneFragmentReason_of_faithful r.1 r.2.1 r.2.2 hresp c hacc _ rfl d hk hfaith, trivial⟩
    exact ⟨((List.forall₂_and_left _ _).mp hone).1, hfields⟩
  · rintro ⟨hone, hfields⟩ mem
    obtain ⟨q, hq⟩ := (hnew mem).iff.mpr ((admits_accepted_iff _ _).mpr
      ⟨startsFit_of_oneFragment rs hrs hone _ newCapacities_grown, hfields⟩)
    obtain ⟨-, hdel⟩ := (hnew mem).result q hq
    refine ⟨q, hq, ((List.forall₂_and_left _ _).mpr
      ⟨fun r hr => And.intro (hrs r hr) (hone r hr), hdel⟩).imp ?_⟩
    rintro r d ⟨⟨hresp, hr⟩, k, hk⟩
    exact hr.faithful hresp hk

/-- A response `200`, its reason in the given fragments, without headers. -/
def plainResponse (reason : List Bytes) (h : ∀ f ∈ reason, f ≠ []) : MessageFrags where
  start := .response 200 reason
  httpMajor := 1
  httpMinor := 1
  method := .get
  headers := []
  body := []
  trailers := []
  start_ok := h
  body_ok := noBody_ok

/-- Of two responses the first has a header, its name in two fragments. -/
theorem responses_faithful_ok :
    ResponsesFaithful (fun _ => ⟨true, 0, .get⟩)
      [({ plainResponse [ascii "OK"] (by decide) with headers :=
          [⟨[ascii "Ser", ascii "ver"], [ascii "c"], by decide, by decide⟩] }, 200, [ascii "OK"]),
        (plainResponse [ascii "Fine"] (by decide), 200, [ascii "Fine"])] := by
  refine (responses_faithful_iff _ ?_).mpr ⟨?_, by decide +kernel⟩ _
  · simp [MessageFrags.IsResponse, plainResponse]
  · have hok : OneFragmentReason [ascii "OK"] := ⟨rfl, by decide, by decide⟩
    have hfine : OneFragmentReason [ascii "Fine"] := ⟨rfl, by decide, by decide⟩
    exact List.forall_mem_cons.mpr ⟨hok, List.forall_mem_singleton.mpr hfine⟩

/-- A reason cut in two aborts the parser. -/
theorem splitReason_aborts :
    runCallbacks cbufferAppend (fun _ => ⟨false, 0, .get⟩) httpMessageParserNew
        (plainResponse [ascii "O", ascii "K"] (by decide)).callbacks =
      .error (.assertion "(this->reason != NULL) && (Cbuffer_size(this->reason) == 0)") := rfl

/-- A response without a reason is delivered as whatever malloc left, here a request. -/
theorem emptyReason_unset :
    (runCallbacks cbufferAppend (fun _ => ⟨true, 0, .get⟩) httpMessageParserNew
        (plainResponse [] (by decide)).callbacks).map
      (fun q => q.handled.map HttpMessage.isRequest) = .ok [true] := rfl

theorem responses_unfaithful :
    ¬ResponsesFaithful (fun _ => ⟨false, 0, .get⟩)
        [(plainResponse [ascii "O", ascii "K"] (by decide), 200, [ascii "O", ascii "K"])] ∧
      ¬ResponsesFaithful (fun _ => ⟨true, 0, .get⟩) [(plainResponse [] (by decide), 200, [])] := by
  constructor
  · rintro ⟨q, hq, -⟩
    rw [List.flatMap_singleton, splitReason_aborts] at hq
    cases hq
  · rintro ⟨q, hq, hall⟩
    have hreq := emptyReason_unset
    rw [List.flatMap_singleton] at hq
    rw [hq] at hreq
    obtain ⟨d, hd⟩ : ∃ d, q.handled = [d] := by
      have hlen := hall.length_eq
      exact List.length_eq_one_iff.mp hlen.symm
    rw [hd] at hall
    obtain ⟨hfalse, -⟩ := (List.forall₂_cons.mp hall).1
    have htrue : d.isRequest = true := by simpa [Except.map, hd] using hreq
    rw [htrue] at hfalse
    cases hfalse

/-- The message is delivered, with all of its trailers behind its headers or with
none of them. -/
def TrailersUniform (p : HttpMessageParser) (f : MessageFrags) : Prop :=
  ∃ q d, runCallbacks cbufferAppend mem p f.callbacks = .ok q ∧ q.handled = p.handled ++ [d] ∧
    (d.headers = f.headers.map FieldFrags.pair ++ f.trailers.map FieldFrags.pair ∨
      d.headers = f.headers.map FieldFrags.pair)

theorem dropLast_uniform_iff {α : Type} (hs ts : List α) :
    (hs ++ ts.dropLast = hs ++ ts ∨ hs ++ ts.dropLast = hs) ↔ ts.length ≤ 1 := by
  constructor
  · intro h
    have hlen : (hs ++ ts.dropLast).length = (hs ++ ts).length ∨
        (hs ++ ts.dropLast).length = hs.length := h.imp (congrArg _) (congrArg _)
    simp only [List.length_append, List.length_dropLast] at hlen
    omega
  · intro h
    right
    have : ts.dropLast = [] := List.length_eq_zero_iff.mp (by rw [List.length_dropLast]; omega)
    rw [this, List.append_nil]

/-- Behind any earlier messages, a message has its trailers treated uniformly
exactly when it has at most one of them and its texts fit the buffers, as large as these are by
then: of two or more trailers all but the last are delivered. -/
theorem trailers_uniform_iff (earlier : List MessageFrags) (p : HttpMessageParser)
    (hp : runCallbacks cbufferAppend mem httpMessageParserNew
      (earlier.flatMap fun f => f.callbacks) = .ok p) (f : MessageFrags) :
    TrailersUniform mem p f ↔ f.trailers.length ≤ 1 ∧ f.Accepted blockRoom p.capacities := by
  obtain ⟨hst, -⟩ := (run_new_okIff mem cbufferAppend_appends earlier id).result p hp
  have hmessage := run_message_okIff mem cbufferAppend_appends f p hst
  have hlen : f.trailers.length = (f.trailers.map FieldFrags.pair).length := by simp
  constructor
  · rintro ⟨q, d, hrun, hq, hunif⟩
    obtain ⟨-, -, d', k, hq', hdel⟩ := hmessage.result q hrun
    obtain rfl : d = d' := by simpa [hq] using hq'
    rw [hdel.headers] at hunif
    exact ⟨by rw [hlen, ← dropLast_uniform_iff]; exact hunif, hmessage.iff.mp ⟨q, hrun⟩⟩
  · rintro ⟨hone, ha⟩
    obtain ⟨q, hrun⟩ := hmessage.iff.mpr ha
    obtain ⟨-, -, d, k, hq, hdel⟩ := hmessage.result q hrun
    refine ⟨q, d, hrun, hq, ?_⟩
    rw [hdel.headers, dropLast_uniform_iff, ← hlen]
    exact hone

/-- A chunked POST with the given trailers. -/
def trailerPost (trailers : List FieldFrags) : MessageFrags where
  start := .request [ascii "/"]
  httpMajor := 1
  httpMinor := 1
  method := .post
  headers := []
  body := []
  trailers := trailers
  start_ok := (by decide : [ascii "/"].flatten ≠ [])
  body_ok := noBody_ok

def trailerA : FieldFrags := ⟨[ascii "A"], [ascii "1"], by decide, by decide⟩
def trailerB : FieldFrags := ⟨[ascii "B"], [ascii "2"], by decide, by decide⟩

theorem trailers_uniform_single :
    TrailersUniform (fun _ => ⟨false, 0, .get⟩) httpMessageParserNew (trailerPost [trailerA]) :=
  (trailers_uniform_iff _ [] httpMessageParserNew rfl (trailerPost [trailerA])).mpr (by decide +kernel)

/-- Of the trailers `A` and `B` the handler sees only `A`. -/
theorem lastTrailer_lost :
    (runCallbacks cbufferAppend (fun _ => ⟨false, 0, .get⟩) httpMessageParserNew
        (trailerPost [trailerA, trailerB]).callbacks).map
      (fun q => q.handled.map HttpMessage.headers) = .ok [[⟨ascii "A", ascii "1"⟩]] := rfl

theorem trailers_not_uniform :
    ¬TrailersUniform (fun _ => ⟨false, 0, .get⟩) httpMessageParserNew
      (trailerPost [trailerA, trailerB]) := by
  rintro ⟨q, d, hq, hd, hunif⟩
  have hlost := lastTrailer_lost
  rw [hq] at hlost
  have hheaders : d.headers = [⟨ascii "A", ascii "1"⟩] := by
    simpa [Except.map, hd, httpMessageParserNew] using hlost
  rw [hheaders] at hunif
  revert hunif
  decide

end CHttp
