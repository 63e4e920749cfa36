import CHttp.RoundTripResponse

/-! Requests written by `http_message_serialize` and read back by the parser. -/
namespace CHttp

/-- The requests for which a round trip is asked. -/
structure RequestMessage (m : HttpMessage) (body : Bytes) : Prop where
  isRequest : m.isRequest = true
  major : m.majorVers = 1
  minor : ∃ n : ℕ, n ≤ 1 ∧ m.minorVers = n
  method : m.method ≠ .connect
  target_ne : m.target.data ≠ []
  target : ∀ b ∈ m.target.data, 32 < b ∧ b ≠ 127
  headers : ∀ kv ∈ m.headers, FieldText kv
  plain : ∀ kv ∈ m.headers, kv.label.map toupper ∉ framingNames
  chain : BodyHolds m.body (body.map some)
  length : ∃ label, m.headers.filter KVPair.isContentLength = [⟨label, fmtD body.length⟩]

/-- The message `d` equals the request `m`, with header names in upper case. -/
structure SameRequest (m d : HttpMessage) : Prop where
  isRequest : d.isRequest = true
  method : d.method = m.method
  target : d.target.data = m.target.data
  headers : d.headers = m.headers.map fun kv => kvpairNew kv.label kv.value
  body : d.bodyContent = m.bodyContent

theorem RequestMessage.exists_text {m : HttpMessage} {body : Bytes} (h : RequestMessage m body) :
    ∃ t : RequestText, t.wire = m.headText ++ body ∧ t.minor = m.minorVers ∧
      t.method = m.method ∧ t.target = m.target.data ∧ t.headers = m.headers ∧ t.body = body := by
  obtain ⟨n, hn, hminor⟩ := h.minor
  have hcstr : cstr m.target.data = m.target.data :=
    (cstr_eq_self_iff _).mpr fun hz => absurd (h.target 0 hz).1 (by decide)
  let t : RequestText :=
    { method := m.method, target := m.target.data, minor := n, headers := m.headers, body := body
      method_ok := h.method, target_ne := h.target_ne, target_ok := h.target, minor_ok := hn
      headers_ok := h.headers, headers_plain := h.plain, length_ok := h.length }
  refine ⟨t, ?_, hminor.symm, rfl, rfl, rfl, rfl⟩
  simp only [RequestText.wire, HttpMessage.headText, HttpMessage.firstLineText, if_pos h.isRequest,
    hcstr, h.major, hminor, t]

/-- Reported fragments of a text whose target and fields are below 512 bytes are short. -/
theorem RequestText.short (t : RequestText) (f : MessageFrags) (url : List Bytes)
    (hstart : f.start = .request url) (hurl : url.flatten.length < 512)
    (hheaders : f.headers.map (fun h => KVPair.mk h.name.flatten h.value.flatten) = t.headers)
    (hfits : ∀ kv ∈ t.headers, kv.label.length < 512 ∧ kv.value.length < 512)
    (htrailers : f.trailers = []) : f.ShortRequest blockRoom url where
  start := hstart
  url := blockRoom_always hurl
  fields := by
    rw [htrailers, List.append_nil]
    intro h hh
    obtain ⟨hname, hvalue⟩ := hfits ⟨h.name.flatten, h.value.flatten⟩
      (hheaders ▸ List.mem_map_of_mem hh)
    exact ⟨blockRoom_always hname, blockRoom_always hvalue⟩

/-- A request whose target, header names and values stay below 512 bytes, and whose text `int`
lengths can handle, can be written, and every way to cut the text delivers exactly
one message, the same request. -/
theorem request_round_trips (m : HttpMessage) (body : Bytes) (hm : RequestMessage m body)
    (htarget : m.target.data.length < 512)
    (hfits : ∀ kv ∈ m.headers, kv.label.length < 512 ∧ kv.value.length < 512)
    (hsize : m.headText.length+body.length+101 < 2^31)
    (mem : ℕ → MessageMem) (llhttp : List Bytes → List Callback) :
    ∃ iob, httpMessageSerialize m = .ok iob ∧
      ∀ chunks, chunks.flatten.map some = iobufferData iob → ReadsRequest llhttp chunks →
        ∃ q d, runCallbacks cbufferAppend mem httpMessageParserNew (llhttp chunks) = .ok q ∧
          q.handled = [d] ∧ SameRequest m d := by
  have hready : m.FirstLineReady := by
    rw [HttpMessage.FirstLineReady, if_pos hm.isRequest]
    exact m.target.known hm.target_ne
  obtain ⟨iob, c, hser, hiob⟩ := httpMessageSerialize_holds m (body.map some) hready hm.chain
    (by rwa [List.length_map])
  refine ⟨iob, hser, fun chunks hchunks hreads => ?_⟩
  obtain ⟨t, hwire, hminor, hmethod, ht, hheaders, hbody⟩ := hm.exists_text
  have htext : chunks.flatten = t.wire := by
    rw [hiob.data, ← List.map_append] at hchunks
    rw [hwire]
    exact List.map_injective_iff.mpr (Option.some_injective _) hchunks
  obtain ⟨f, url, htrace, hstart, hurl, hfm, -, hfh, hfb, hft⟩ := hreads t htext
  have hshort : f.ShortRequest blockRoom url := t.short f url hstart (by rw [hurl, ht]; exact htarget)
    hfh (by rwa [hheaders]) hft
  have hone := run_new_one_okIff mem cbufferAppend_appends f
  obtain ⟨q, hrun⟩ := hone.iff.mpr (hshort.accepted newCapacities_grown)
  obtain ⟨d, k, hq, hdel⟩ := hone.result q hrun
  refine ⟨q, d, by rw [htrace, hrun], hq, ?_⟩
  have hdstart := hdel.start
  rw [hstart] at hdstart
  obtain ⟨hreq, hdm, hdt, -⟩ := hdstart
  refine ⟨hreq, by rw [hdm, hfm, hmethod], ?_, ?_, ?_⟩
  · rw [hdt, hurl, ht]
    exact (cstr_eq_self_iff _).mpr fun hz => absurd (hm.target 0 hz).1 (by decide)
  · rw [hdel.headers, hft, ← hheaders, ← hfh, List.map_map]
    simp only [List.map_nil, List.dropLast_nil, List.append_nil]
    rfl
  · rw [HttpMessage.bodyContent, HttpMessage.bodyContent, hdel.body.content, hm.chain.content, hfb,
      hbody]

section concrete

/-- `GET /` with the given headers and body. -/
def getMessage (headers : List KVPair) (body : Option BufferChain) : HttpMessage :=
  { httpMessageNew ⟨true, 0, .get⟩ with
    body := body
    headers := headers
    target := ⟨ascii "/", strategyMinSize, true, by decide, strategyMinSize_le, fun _ => rfl⟩ }

def lengthField (n : ℕ) : KVPair := ⟨ascii "CONTENT-LENGTH", fmtD n⟩

def xField (value : Bytes) : KVPair := ⟨ascii "X", value⟩

theorem getFrags_start : [ascii "/"].flatten ≠ [] := by decide

/-- How `llhttp` reports `GET /` with a header `X` and an empty body. -/
def getFrags (value : Bytes) : MessageFrags where
  start := .request [ascii "/"]
  httpMajor := 1
  httpMinor := 1
  method := .get
  headers := [⟨[ascii "CONTENT-LENGTH"], [ascii "0"], lengthName_ne, lengthValue_ne⟩,
    ⟨[ascii "X"], [value], by decide, by simp⟩]
  body := []
  trailers := []
  start_ok := getFrags_start
  body_ok := noBody_ok

theorem fieldText_lengthField (n : ℕ) : FieldText (lengthField n) where
  name_ne := by simp [lengthField, ascii]
  name := (by decide +kernel : ∀ b ∈ ascii "CONTENT-LENGTH", b ∈ tokenBytes)
  value := by
    intro b hb
    have hrange := fmtD_bytes _ b hb
    refine ⟨?_, ?_, ?_⟩ <;> rintro rfl <;> simp at hrange
  trimmed := by
    intro b hb
    have hrange := fmtD_bytes _ b (hb.elim List.mem_of_mem_head? List.mem_of_getLast?)
    refine ⟨?_, ?_⟩ <;> rintro rfl <;> simp at hrange

theorem fieldText_xField (value : Bytes) (hv : ∀ b ∈ value, 32 < b) : FieldText (xField value) where
  name_ne := by simp [xField, ascii]
  name := (by decide +kernel : ∀ b ∈ ascii "X", b ∈ tokenBytes)
  value := by
    intro b hb
    have hlt := hv b hb
    refine ⟨?_, ?_, ?_⟩ <;> rintro rfl <;> exact absurd hlt (by decide)
  trimmed := by
    intro b hb
    have hlt := hv b (hb.elim List.mem_of_mem_head? List.mem_of_getLast?)
    refine ⟨?_, ?_⟩ <;> rintro rfl <;> exact absurd hlt (by decide)

theorem getMessage_request (headers : List KVPair) (chain : Option BufferChain) (body : Bytes)
    (hb : BodyHolds chain (body.map some)) (hh : ∀ kv ∈ headers, FieldText kv)
    (hp : ∀ kv ∈ headers, kv.label.map toupper ∉ framingNames)
    (hl : ∃ label, headers.filter KVPair.isContentLength = [⟨label, fmtD body.length⟩]) :
    RequestMessage (getMessage headers chain) body where
  isRequest := rfl
  major := rfl
  minor := ⟨1, le_refl 1, rfl⟩
  method := (by decide : LlhttpMethod.get ≠ .connect)
  target_ne := (by decide : ascii "/" ≠ [])
  target := (by decide +kernel : ∀ b ∈ ascii "/", 32 < b ∧ b ≠ 127)
  headers := hh
  plain := hp
  chain := hb
  length := hl

theorem getMessage_x (value : Bytes) (hv : ∀ b ∈ value, 32 < b) :
    RequestMessage (getMessage [lengthField 0, xField value] none) [] := by
  refine getMessage_request _ none [] bufferChainNew_holds ?_ ?_ ?_
  · intro kv hkv
    rcases List.mem_pair.mp hkv with rfl | rfl
    · exact fieldText_lengthField 0
    · exact fieldText_xField value hv
  · intro kv hkv
    rcases List.mem_pair.mp hkv with rfl | rfl
    · exact (by decide +kernel : (ascii "CONTENT-LENGTH").map toupper ∉ framingNames)
    · exact (by decide +kernel : (ascii "X").map toupper ∉ framingNames)
  · have hcl : (lengthField 0).isContentLength = true := by decide +kernel
    have hx : (xField value).isContentLength = false :=
      (by decide +kernel : decide ((ascii "X").map toupper = ascii "CONTENT-LENGTH") = false)
    refine ⟨ascii "CONTENT-LENGTH", ?_⟩
    rw [List.filter_cons_of_pos hcl, List.filter_cons_of_neg (by simp [hx]), List.filter_nil]
    rfl

/-- The text of that request is read in one way, and `getFrags` is that way. -/
theorem getFrags_reads (value : Bytes) (hv : ∀ b ∈ value, 32 < b) :
    ReadsRequest (fun _ => (getFrags value).callbacks)
      [(getMessage [lengthField 0, xField value] none).headText] := by
  intro t ht
  obtain ⟨t0, hwire, hminor, hmethod, htarget, hheaders, hbody⟩ := (getMessage_x value hv).exists_text
  have ht0 : t.wire = t0.wire := by
    rw [← ht, hwire, List.flatten_singleton, List.append_nil]
  obtain ⟨hm, htg, hmi, hh, hb⟩ := t.wire_unique t0 ht0
  refine ⟨getFrags value, [ascii "/"], rfl, rfl, ?_, ?_, ?_, ?_, ?_, rfl⟩
  · rw [htg, htarget]
    rfl
  · rw [hm, hmethod]
    rfl
  · have hone : (t.minor : ℤ) = 1 := by
      rw [hmi, hminor]
      rfl
    exact_mod_cast hone.symm
  · rw [hh, hheaders]
    simp only [getFrags, getMessage, List.map_cons, List.map_nil, List.flatten_singleton]
    rfl
  · rw [hb, hbody]
    rfl

theorem getMessage_headText (headers : List KVPair) (body : Option BufferChain) :
    (getMessage headers body).headText =
      requestLine (ascii "GET") (ascii "/") 1 1 ++ headers.flatMap headerLine ++ crlf := rfl

theorem getMessage_firstLine_le : (requestLine (ascii "GET") (ascii "/") 1 1).length ≤ 20 := by
  decide

theorem headText_getMessage_le (value : Bytes) :
    (getMessage [lengthField 0, xField value] none).headText.length ≤ value.length+100 := by
  have hfirst := getMessage_firstLine_le
  have hlen : (headerLine (lengthField 0)).length ≤ 30 := by decide
  have hx : (headerLine (xField value)).length ≤ value.length+5 := by
    have := cstr_length_le value
    simp only [headerLine, xField, List.length_append]
    have h1 : (cstr (ascii "X")).length = 1 := by decide
    have h2 : (ascii ": ").length = 2 := by decide
    have h3 : crlf.length = 2 := by decide
    omega
  have hcrlf : crlf.length = 2 := by decide
  rw [getMessage_headText]
  simp only [List.flatMap_cons, List.flatMap_nil, List.length_append, List.append_nil]
  omega

theorem request_round_trips_short :
    ∃ iob q d, httpMessageSerialize (getMessage [lengthField 0, xField (ascii "1")] none) = .ok iob ∧
      runCallbacks cbufferAppend (fun _ => ⟨false, 0, .get⟩) httpMessageParserNew
        (getFrags (ascii "1")).callbacks = .ok q ∧ q.handled = [d] ∧
      SameRequest (getMessage [lengthField 0, xField (ascii "1")] none) d := by
  have hv : ∀ b ∈ ascii "1", (32 : UInt8) < b := by decide +kernel
  have hsize := headText_getMessage_le (ascii "1")
  have hone : (ascii "1").length = 1 := by decide
  obtain ⟨iob, hser, hall⟩ := request_round_trips
    (getMessage [lengthField 0, xField (ascii "1")] none) [] (getMessage_x _ hv)
    (show (ascii "/").length < 512 by decide)
    (by
      intro kv hkv
      rcases List.mem_pair.mp hkv with rfl | rfl
      · exact (by decide +kernel)
      · exact (by decide +kernel))
    (by simp only [List.length_nil]; omega) (fun _ => ⟨false, 0, .get⟩)
    (fun _ => (getFrags (ascii "1")).callbacks)
  have hdata := httpMessageSerialize_inv (getMessage [lengthField 0, xField (ascii "1")] none) []
    bufferChainNew_holds (fun _ => rfl) iob hser
  obtain ⟨q, d, hrun, hq, hsame⟩ := hall _
    (by rw [List.flatten_singleton, hdata, List.append_nil]) (getFrags_reads _ hv)
  exact ⟨iob, q, d, hser, hrun, hq, hsame⟩

/-- A header value of 512 bytes or more, in one fragment, has its terminator outside of the
parser's buffer. -/
theorem getFrags_overruns (mem : ℕ → MessageMem) (value : Bytes) (h : 512 ≤ value.length) :
    ∃ e, runCallbacks cbufferAppend mem httpMessageParserNew (getFrags value).callbacks = .error e := by
  cases hrun : runCallbacks cbufferAppend mem httpMessageParserNew (getFrags value).callbacks with
  | error e => exact ⟨e, rfl⟩
  | ok q =>
    have hacc := (run_new_one_okIff _ cbufferAppend_appends (getFrags value)).iff.mp ⟨q, hrun⟩
    obtain ⟨-, ⟨-, htakes⟩, -⟩ := hacc.fields
    have hcapacity : ((CbufferSizes.empty strategyMinSize).appendAll [ascii "0"]).capacity = 256 := by
      decide
    have hroom := htakes.1.resolve_left (List.ne_nil_of_length_pos (by omega))
    have hlt := (lt_min_iff.mp hroom).2
    have hvalue : 0+value.length < 2*256 := by
      rw [← hcapacity]
      exact hlt
    omega

theorem getMessage_serialises (value : Bytes) (h : value.length+201 < 2^31) :
    ∃ iob, httpMessageSerialize (getMessage [lengthField 0, xField value] none) = .ok iob ∧
      iobufferData iob = (getMessage [lengthField 0, xField value] none).headText.map some := by
  have hsize := headText_getMessage_le value
  obtain ⟨iob, c, hser, hiob⟩ := httpMessageSerialize_holds
    (getMessage [lengthField 0, xField value] none) [] rfl bufferChainNew_holds
    (by simp only [List.length_nil]; omega)
  exact ⟨iob, hser, by rw [hiob.data, List.append_nil]⟩

/-- A value of any length. -/
theorem exists_value (n : ℕ) : ∃ value : Bytes, value.length = n ∧ ∀ b ∈ value, 32 < b := by
  refine ⟨List.replicate n 97, List.length_replicate, ?_⟩
  intro b hb
  rw [List.eq_of_mem_replicate hb]
  decide

/-- Two appends of the same value give a chain of twice its length. -/
theorem exists_doubleBody (value : Bytes) (hne : value ≠ []) (hl : value.length+101 < 2^31) :
    ∃ chain : BufferChain, chain.Holds ((value ++ value).map some) := by
  have hne' : value.map some ≠ [] := by simpa using hne
  have hl' : (value.map some).length+101 < 2^31 := by rwa [List.length_map]
  obtain ⟨c1, -, h1⟩ := bufferChainAppend_holds bufferChainNew [] _ bufferChainNew_holds hne' hl'
  obtain ⟨c2, -, h2⟩ := bufferChainAppend_holds c1 _ _ h1 hne' hl'
  exact ⟨c2, by simpa only [List.map_append, List.nil_append] using h2⟩

theorem getMessage_huge (chain : BufferChain) (body : Bytes) (hb : chain.Holds (body.map some))
    (hl : body.length = 2^31) :
    RequestMessage (getMessage [lengthField body.length] (some chain)) body ∧
      httpMessageSerialize (getMessage [lengthField body.length] (some chain)) =
        .error .allocation := by
  have hcl : (lengthField body.length).isContentLength = true :=
    (by decide +kernel : decide ((ascii "CONTENT-LENGTH").map toupper = ascii "CONTENT-LENGTH") = true)
  constructor
  · refine getMessage_request _ (some chain) body hb ?_ ?_ ⟨ascii "CONTENT-LENGTH", ?_⟩
    · intro kv hkv
      obtain rfl := List.mem_singleton.mp hkv
      exact fieldText_lengthField _
    · intro kv hkv
      obtain rfl := List.mem_singleton.mp hkv
      exact (by decide +kernel : (ascii "CONTENT-LENGTH").map toupper ∉ framingNames)
    · rw [List.filter_cons_of_pos hcl, List.filter_nil]
      rfl
  · refine httpMessageSerialize_wrapped _ chain (body.map some) rfl rfl hb ?_ ?_
    · have hline : (headerLine (lengthField (2^31))).length ≤ 40 := by decide +kernel
      have hfirst := getMessage_firstLine_le
      have hcrlf : crlf.length = 2 := by decide
      rw [getMessage_headText, List.flatMap_singleton, hl]
      simp only [List.length_append]
      omega
    · rw [List.length_map, hl]
      decide

/-- Two requests that do not make the round trip: one with a header value of 512 bytes, which
the parser's buffer cannot terminate, and one with a body of 2 GiB, which cannot be written. -/
theorem request_round_trip_fails :
    (∃ value, value.length = 512 ∧ RequestMessage (getMessage [lengthField 0, xField value] none) [] ∧
      (∃ iob, httpMessageSerialize (getMessage [lengthField 0, xField value] none) = .ok iob ∧
        iobufferData iob = (getMessage [lengthField 0, xField value] none).headText.map some) ∧
      ReadsRequest (fun _ => (getFrags value).callbacks)
        [(getMessage [lengthField 0, xField value] none).headText] ∧
      ∃ e, runCallbacks cbufferAppend (fun _ => ⟨false, 0, .get⟩) httpMessageParserNew
        (getFrags value).callbacks = .error e) ∧
    ∃ m body, RequestMessage m body ∧ httpMessageSerialize m = .error .allocation := by
  obtain ⟨value, hlen, hv⟩ := exists_value 512
  obtain ⟨half, hhalf, -⟩ := exists_value (2^30)
  obtain ⟨chain, hb⟩ := exists_doubleBody half (List.ne_nil_of_length_pos (by omega)) (by omega)
  exact ⟨⟨value, hlen, getMessage_x value hv, getMessage_serialises value (by omega),
    getFrags_reads value hv, getFrags_overruns _ value hlen.ge⟩, _, half ++ half,
    getMessage_huge chain _ hb (by rw [List.length_append, hhalf]; omega)⟩

end concrete

end CHttp
