import CHttp.HttpText

/-! Responses written by `http_message_serialize` and read back by the parser. -/
namespace CHttp

/-- The responses for which a round trip is asked: version 1.0 or 1.1, a three-digit
status code, a reason and header fields fit for their places, and a body that
`m_size` does not count as none and `Content-Length` announces. -/
structure ResponseMessage (m : HttpMessage) (body : Bytes) : Prop where
  isRequest : m.isRequest = false
  major : m.majorVers = 1
  minor : ∃ n : ℕ, n ≤ 1 ∧ m.minorVers = n
  status : 100 ≤ m.statusCode ∧ m.statusCode ≤ 999
  reason_ne : m.reason.data ≠ []
  reason : ∀ b ∈ m.reason.data, b ≠ 13 ∧ b ≠ 10 ∧ b ≠ 0
  headers : ∀ kv ∈ m.headers, FieldText kv
  chain : BodyHolds m.body (body.map some)
  counted : cInt body.length = 0 → body = []
  length : ∃ kv ∈ m.headers, kv.isContentLength ∧ kv.value = fmtD body.length

/-- The response can be written, `chunks` are what was written, and reading them
delivers exactly one message, equal to the response. -/
def ResponseRoundTrip (mem : ℕ → MessageMem) (llhttp : List Bytes → List Callback)
    (m : HttpMessage) (chunks : List Bytes) : Prop :=
  ∃ iob q d, httpMessageSerialize m = .ok iob ∧ chunks.flatten.map some = iobufferData iob ∧
    runCallbacks cbufferAppend mem httpMessageParserNew (llhttp chunks) = .ok q ∧ q.handled = [d] ∧
    d.statusCode = m.statusCode ∧ d.reason.data = m.reason.data ∧
    d.headers = m.headers.map (fun kv => kvpairNew kv.label kv.value) ∧
    d.bodyContent = m.bodyContent

/-- With two blanks behind the version, the text of a response is that of one without
a status code, whose reason starts with the number. -/
theorem ResponseMessage.exists_text {m : HttpMessage} {body : Bytes} (h : ResponseMessage m body) :
    ∃ t : ResponseText, t.wire = m.headText ++ body ∧ t.statusLine = m.firstLineText ∧
      t.minor = m.minorVers ∧ t.digits = [] ∧
      t.reason = fmtD m.statusCode ++ 32 :: m.reason.data ∧ t.headers = m.headers ∧
      t.body = body := by
  obtain ⟨n, hn, hminor⟩ := h.minor
  have hcstr : cstr m.reason.data = m.reason.data :=
    (cstr_eq_self_iff _).mpr fun hz => (h.reason 0 hz).2.2 rfl
  have hreason : ∀ b ∈ fmtD m.statusCode ++ 32 :: m.reason.data, b ≠ 13 ∧ b ≠ 10 ∧ b ≠ 0 := by
    intro b hb
    rcases List.mem_append.mp hb with hb | hb
    · have hrange := fmtD_bytes _ b hb
      refine ⟨?_, ?_, ?_⟩ <;> rintro rfl <;> simp at hrange
    · rcases List.mem_cons.mp hb with rfl | hb
      · decide
      · exact h.reason b hb
  let t : ResponseText :=
    { minor := n, digits := [], reason := fmtD m.statusCode ++ 32 :: m.reason.data
      headers := m.headers, body := body, minor_ok := hn, digits_ok := by simp
      reason_ne := by simp, reason_ok := hreason, headers_ok := h.headers, length_ok := h.length }
  have hline : t.statusLine = m.firstLineText := by
    have hone : fmtD 1 = [49] := by decide
    have hreq : ¬(m.isRequest = true) := by simp [h.isRequest]
    simp [t, ResponseText.statusLine, HttpMessage.firstLineText, hreq, responseLine, h.major,
      hminor, hcstr, hone, ascii]
  refine ⟨t, ?_, hline, hminor.symm, rfl, rfl, rfl, rfl⟩
  simp only [ResponseText.wire, hline, HttpMessage.headText, List.append_assoc]
  rfl

/-- No response survives the round trip: the parser finds no digits where it expects the
status code, and delivers status 0. -/
theorem response_never_round_trips (m : HttpMessage) (body : Bytes) (hm : ResponseMessage m body)
    (mem : ℕ → MessageMem) (llhttp : List Bytes → List Callback) (chunks : List Bytes)
    (hreads : ReadsResponse llhttp chunks)
    (hwhole : ∃ c ∈ chunks.head?, m.firstLineText.length ≤ c.length) :
    ¬ResponseRoundTrip mem llhttp m chunks := by
  rintro ⟨iob, q, d, hser, hchunks, hrun, hq, hstatus, -⟩
  obtain ⟨t, hwire, hline, -, hdigits, -⟩ := hm.exists_text
  have htext : chunks.flatten = t.wire := by
    have hcounted : cInt (body.map some).length = 0 → body.map some = [] := by
      rw [List.length_map, List.map_eq_nil_iff]
      exact hm.counted
    rw [httpMessageSerialize_inv m _ hm.chain hcounted iob hser, ← List.map_append] at hchunks
    rw [hwire]
    exact List.map_injective_iff.mpr (Option.some_injective _) hchunks
  obtain ⟨f, htrace, hstart, -⟩ := hreads t htext (by rwa [hline])
  rw [htrace] at hrun
  obtain ⟨d', k, hq', hdel⟩ := (run_new_one_okIff _ cbufferAppend_appends f).result q hrun
  obtain rfl : d = d' := by simpa [hq] using hq'
  have hdelivered := hdel.start
  rw [hstart] at hdelivered
  have hzero : d.statusCode = 0 := by
    rw [(hdelivered.2.2 (by simp)).2.1, ResponseText.statusCode, hdigits]
    rfl
  have := hm.status.1
  omega

theorem okReply_fits : (ascii "OK").length ≤ strategyMinSize := by decide

theorem lengthName_ne : [ascii "CONTENT-LENGTH"].flatten ≠ [] := by decide

theorem lengthValue_ne : [ascii "0"] ≠ [] := by decide

/-- `200 OK` with an empty body, its text, and what `llhttp` makes of it. -/
def okReply : HttpMessage :=
  { httpMessageNew ⟨false, 200, .get⟩ with
    headers := [⟨ascii "CONTENT-LENGTH", ascii "0"⟩]
    reason := ⟨ascii "OK", strategyMinSize, true, okReply_fits, strategyMinSize_le, fun _ => rfl⟩ }

def okReplyText : Bytes := okReply.headText

def okReplyFrags : MessageFrags where
  start := .response 0 [ascii "200 OK"]
  httpMajor := 1
  httpMinor := 1
  method := .get
  headers := [⟨[ascii "CONTENT-LENGTH"], [ascii "0"], lengthName_ne, lengthValue_ne⟩]
  body := []
  trailers := []
  start_ok := (by decide : ∀ f ∈ [ascii "200 OK"], f ≠ [])
  body_ok := noBody_ok

theorem fieldText_contentLength : FieldText ⟨ascii "CONTENT-LENGTH", ascii "0"⟩ where
  name_ne := by decide
  name := by decide +kernel
  value := by decide +kernel
  trimmed := by
    intro b hb
    obtain rfl : b = 48 := by
      rcases hb with hb | hb <;> exact (Option.some.inj hb).symm
    decide

theorem okReply_message : ResponseMessage okReply [] where
  isRequest := rfl
  major := rfl
  minor := ⟨1, le_refl 1, rfl⟩
  status := ⟨by simp [okReply, httpMessageNew], by simp [okReply, httpMessageNew]⟩
  reason_ne := by decide
  reason := by decide +kernel
  headers := by
    intro kv hkv
    obtain rfl := List.mem_singleton.mp hkv
    exact fieldText_contentLength
  chain := bufferChainNew_holds
  counted := fun _ => rfl
  length := ⟨_, List.mem_singleton_self _, by decide, by decide⟩

/-- The text of the reply is read in one way, and `okReplyFrags` is that way. -/
theorem okReply_reads : ReadsResponse (fun _ => okReplyFrags.callbacks) [okReplyText] := by
  intro t ht _
  obtain ⟨t0, hwire, -, hminor, hdigits, hreason, hheaders, hbody⟩ := okReply_message.exists_text
  have ht0 : t.wire = t0.wire := by
    rw [← ht, hwire, List.flatten_singleton, List.append_nil]
    rfl
  obtain ⟨hm, hd, hr, hh, hb⟩ := t.wire_unique t0 ht0
  refine ⟨okReplyFrags, rfl, ?_, ?_, ?_, ?_, rfl⟩
  · have hr' : t.reason = ascii "200 OK" := by
      rw [hr, hreason]
      decide
    rw [hr', ResponseText.statusCode, hd, hdigits]
    rfl
  · have hone : (t.minor : ℤ) = 1 := by
      rw [hm, hminor]
      rfl
    exact_mod_cast hone.symm
  · rw [hh, hheaders]
    rfl
  · rw [hb, hbody]
    rfl

theorem response_never_round_trips_okReply :
    ¬ResponseRoundTrip (fun _ => ⟨false, 0, .get⟩) (fun _ => okReplyFrags.callbacks) okReply
      [okReplyText] :=
  response_never_round_trips okReply [] okReply_message _ _ _ okReply_reads
    ⟨okReplyText, rfl, by simp [okReplyText, HttpMessage.headText]⟩

/-- `200 OK` comes back with status 0 and the reason `200 OK`. -/
theorem okReply_comes_back_zero :
    (∃ iob, httpMessageSerialize okReply = .ok iob ∧ iobufferData iob = okReplyText.map some) ∧
      ReadsResponse (fun _ => okReplyFrags.callbacks) [okReplyText] ∧
      (runCallbacks cbufferAppend (fun _ => ⟨false, 0, .get⟩) httpMessageParserNew
        okReplyFrags.callbacks).map
        (fun q => q.handled.map fun d => (d.statusCode, d.reason.data)) =
          .ok [(0, ascii "200 OK")] ∧
      okReply.statusCode = 200 := by
  refine ⟨?_, okReply_reads, rfl, rfl⟩
  obtain ⟨iob, c, hser, hiob⟩ := httpMessageSerialize_holds okReply [] rfl bufferChainNew_holds
    (by decide)
  exact ⟨iob, hser, by rw [hiob.data, List.append_nil]; rfl⟩

end CHttp
